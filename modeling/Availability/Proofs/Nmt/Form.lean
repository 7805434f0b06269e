import Availability.Nmt.Form
import Availability.Proofs.Json.Record
import Availability.Proofs.Nmt.RangeComplete

/-!
# Proofs of namespaces are read back

In a text, nothing but the hash of a leaf tells a proof of absence from one of presence. There are
proofs of absence without a leaf: a tree makes them for the namespaces outside of its range. Such a
proof is written like one of presence, and **read as one**; every other proof is read as it was
written.

* `NamespaceProof.readBack` – what a proof is read as, `NamespaceProof.ofText_render`;
* `NamespaceProof.readBack_eq_self_iff` – the proofs that are read as they were written;
* `Nmt.ofText_render_prove` – of the proofs that a tree makes, those are the proofs for the
  namespaces **in its range**;
* `Nmt.exists_ofText_render_prove_ne` – a proof that is read as another one.
-/

namespace Availability

/-! ### Hashes -/

namespace NamespacedHash

theorem mapM_ofBytes_toBytes (hashes : List NamespacedHash) :
    (hashes.map toBytes).mapM ofBytes = .ok hashes := by
  rw [Checked.mapM_eq_ok_iff, List.forall₂_map_left_iff, List.forall₂_same]
  exact fun hash _ => ofBytes_toBytes hash

/-- A list of hashes is read back. -/
theorem listDecoder_ofList (hashes : List NamespacedHash) :
    listDecoder (.ofList toJson hashes) = .ok hashes :=
  Decoder.refined_eq_ok (Decoder.base64List_ofList toBytes hashes) (mapM_ofBytes_toBytes hashes)

theorem plain_ofList (hashes : List NamespacedHash) : (Json.ofList toJson hashes).Plain :=
  Json.plain_ofList fun hash _ => Json.plain_ofBytes hash.toBytes

end NamespacedHash

/-! ### Proofs -/

namespace NamespaceProof

/-- What a proof is read as: without the hash of a leaf, it shows that its leaves are there. -/
def readBack (proof : NamespaceProof) : NamespaceProof :=
  if proof.leaf?.isSome then proof else { proof with goal := .presence }

theorem leafNumber_toNat (fault : Int → Malformation) (n : UInt32) :
    leafNumber fault n.toNat = .ok n := by
  have hbound : (0 : Int) ≤ n.toNat ∧ (n.toNat : Int) < UInt32.size :=
    ⟨Int.natCast_nonneg _, by exact_mod_cast n.toNat_lt⟩
  rw [leafNumber, if_pos hbound, Int.toNat_natCast, UInt32.ofNat_toNat]

/-- The parts that are written are those of a proof of the same goal, if it can be told. -/
theorem ofParts_eq (proof : NamespaceProof) :
    ofParts proof.start.toNat proof.stop.toNat (proof.nodes.map NamespacedHash.toBytes)
      ((proof.leaf?.map NamespacedHash.toBytes).getD []) proof.ignoreMax = .ok proof.readBack := by
  obtain ⟨goal, start, stop, nodes, ignoreMax⟩ := proof
  simp only [ofParts, leafNumber_toNat, NamespacedHash.mapM_ofBytes_toBytes, Checked.ok_bind]
  match goal with
  | .presence => rfl
  | .absence none => rfl
  | .absence (some leaf) =>
    have hleaf : leaf.toBytes.isEmpty = false := by
      rw [List.isEmpty_eq_false_iff]
      exact List.ne_nil_of_length_pos (by rw [leaf.length_toBytes]; decide)
    simp only [leaf?, Option.map_some, Option.getD_some, hleaf, NamespacedHash.ofBytes_toBytes]
    rfl

theorem reads_fields (proof : NamespaceProof) :
    fields.Reads
      [("start", .ofNat proof.start.toNat), ("end", .ofNat proof.stop.toNat),
        ("nodes", .ofList NamespacedHash.toJson proof.nodes),
        ("leaf_hash", .ofBytes ((proof.leaf?.map NamespacedHash.toBytes).getD [])),
        ("is_max_namespace_ignored", .bool proof.ignoreMax)]
      (.ok proof.readBack) := by
  have hnumber (n : UInt32) : Decoder.int64 (.ofNat n.toNat) = .ok (n.toNat : Int) :=
    Decoder.int64_ofNat (n.toNat_lt.trans (by decide))
  have hstart := Fields.Reads.withDefault "start" 0 (hnumber proof.start)
  have hstop := Fields.Reads.withDefault "end" 0 (hnumber proof.stop)
  have hnodes := Fields.Reads.withDefault "nodes" []
    (Decoder.base64List_ofList NamespacedHash.toBytes proof.nodes)
  have hleaf := Fields.Reads.withDefault "leaf_hash" []
    (Decoder.base64_ofBytes ((proof.leaf?.map NamespacedHash.toBytes).getD []))
  have hflag := Fields.Reads.withDefault "is_max_namespace_ignored" false
    (Decoder.bool_bool proof.ignoreMax)
  rw [← proof.ofParts_eq]
  exact ((((hstart.map ofParts).seq hstop).seq hnodes).seq hleaf).seq hflag

/-- **A proof is read back**, but for the goal of a proof of absence without a leaf. -/
theorem decoder_toJson (proof : NamespaceProof) : decoder proof.toJson = .ok proof.readBack := by
  have hkeys : ["start", "end", "nodes", "leaf_hash", "is_max_namespace_ignored"].Nodup := by decide
  exact Decoder.refined_eq_ok (proof.reads_fields.decoder_eq hkeys) rfl

theorem plain_toJson (proof : NamespaceProof) : proof.toJson.Plain := by
  have hnodes := NamespacedHash.plain_ofList proof.nodes
  have hleaf := Json.plain_ofBytes ((proof.leaf?.map NamespacedHash.toBytes).getD [])
  exact .cons (Json.plain_uint32 proof.start) (.cons (Json.plain_uint32 proof.stop)
    (.cons hnodes (.cons hleaf (.cons (.bool proof.ignoreMax) .nil))))

theorem ofText_render (proof : NamespaceProof) :
    Decoder.ofText decoder proof.toJson.render = .ok proof.readBack := by
  rw [Decoder.ofText_render decoder proof.plain_toJson, decoder_toJson]

/-- All but the goal of a proof is read as it was written. -/
theorem readBack_fields (proof : NamespaceProof) :
    proof.readBack.start = proof.start ∧ proof.readBack.stop = proof.stop ∧
      proof.readBack.nodes = proof.nodes ∧ proof.readBack.leaf? = proof.leaf? ∧
      proof.readBack.ignoreMax = proof.ignoreMax := by
  rw [readBack]
  split_ifs with h
  · exact ⟨rfl, rfl, rfl, rfl, rfl⟩
  · exact ⟨rfl, rfl, rfl, (Option.not_isSome_iff_eq_none.mp h).symm, rfl⟩

/-- **A proof is read as it was written** unless it shows an absence without a leaf. -/
theorem readBack_eq_self_iff {proof : NamespaceProof} :
    proof.readBack = proof ↔ proof.goal ≠ .absence none := by
  obtain ⟨goal, start, stop, nodes, ignoreMax⟩ := proof
  match goal with
  | .presence => simp [readBack, leaf?]
  | .absence none => simp [readBack, leaf?]
  | .absence (some leaf) => simp [readBack, leaf?]

/-- A proof that leaves are there is read as it was written. -/
theorem readBack_of_not_isOfAbsence {proof : NamespaceProof} (h : proof.isOfAbsence = false) :
    proof.readBack = proof := by
  refine readBack_eq_self_iff.mpr fun hgoal => ?_
  rw [isOfAbsence, hgoal] at h
  exact absurd h (by decide)

end NamespaceProof

/-! ### The proofs that a tree makes -/

namespace Nmt

variable {tree : Nmt} {ns : Namespace}

/-- Some leaf of the tree is not below a namespace in its range. -/
theorem lowerBound_lt_length (hin : tree.root.contains ns = true) :
    tree.lowerBound ns < tree.leaves.length := by
  obtain ⟨leaf, hleaf, hle⟩ := exists_le_of_contains hin
  have htaken := List.takeWhile_prefix (fun leaf : Leaf => decide (leaf.ns < ns)) (l := tree.leaves)
  refine htaken.length_le.lt_of_ne fun heq => ?_
  have hbelow := List.takeWhile_eq_self_iff.mp (htaken.eq_of_length heq) leaf hleaf
  exact absurd hle (not_le.mpr (of_decide_eq_true hbelow))

theorem prove_of_not_contains (hout : tree.root.contains ns = false) : tree.prove ns =
    { goal := .absence none, start := 0, stop := 0, nodes := [], ignoreMax := true } := by
  rw [prove, hout]
  rfl

/-- **Only for a namespace outside of its range** does a tree prove an absence without a leaf. -/
theorem goal_prove_eq_iff :
    (tree.prove ns).goal = .absence none ↔ tree.root.contains ns = false := by
  by_cases hin : tree.root.contains ns = true
  · have hgoal : (tree.prove ns).goal ≠ .absence none := by
      rw [prove, hin, if_neg (by decide)]
      split_ifs with hcount
      · exact NamespaceProof.Goal.noConfusion
      · have hleaf : (leafHashes tree.leaves)[tree.lowerBound ns]? ≠ none := by
          rw [ne_eq, List.getElem?_eq_none_iff, leafHashes, List.length_map]
          exact not_le.mpr (lowerBound_lt_length hin)
        exact fun h => hleaf (NamespaceProof.Goal.absence.inj h)
    simp only [hgoal, hin, Bool.true_eq_false]
  · rw [Bool.not_eq_true] at hin
    rw [prove_of_not_contains hin]
    exact ⟨fun _ => hin, fun _ => rfl⟩

/-- **The proof that a tree makes for a namespace is read back**, with its range, its nodes, its
leaf and its flag. It is the same proof exactly if the namespace is in the range of the tree, and
otherwise shows the presence of no leaves. -/
theorem ofText_render_prove (tree : Nmt) (ns : Namespace) :
    ∃ proof, Decoder.ofText NamespaceProof.decoder (tree.prove ns).toJson.render = .ok proof ∧
      proof.start = (tree.prove ns).start ∧ proof.stop = (tree.prove ns).stop ∧
      proof.nodes = (tree.prove ns).nodes ∧ proof.leaf? = (tree.prove ns).leaf? ∧
      proof.ignoreMax = (tree.prove ns).ignoreMax ∧
      (proof = tree.prove ns ↔ tree.root.contains ns = true) ∧
      (tree.root.contains ns = false → proof = .ofRange 0 0 []) := by
  obtain ⟨hstart, hstop, hnodes, hleaf, hflag⟩ := (tree.prove ns).readBack_fields
  refine ⟨_, (tree.prove ns).ofText_render, hstart, hstop, hnodes, hleaf, hflag, ?_, ?_⟩
  · rw [NamespaceProof.readBack_eq_self_iff, ne_eq, goal_prove_eq_iff, Bool.not_eq_false]
  · intro hout
    rw [prove_of_not_contains hout]
    rfl

/-- A proof for a namespace below the only leaf of a tree is read as a proof of presence. -/
theorem exists_ofText_render_prove_ne :
    ∃ (tree : Nmt) (ns : Namespace),
      tree.leaves = [⟨.ofSuffix [1, 0], [7]⟩] ∧ ns = .ofSuffix [1] ∧
      (tree.prove ns).isOfAbsence = true ∧
      Decoder.ofText NamespaceProof.decoder (tree.prove ns).toJson.render =
        .ok (NamespaceProof.ofRange 0 0 []) ∧
      Decoder.ofText NamespaceProof.decoder (tree.prove ns).toJson.render ≠
        .ok (tree.prove ns) := by
  have hout : (Nmt.mk [⟨.ofSuffix [1, 0], [7]⟩] rfl).root.contains (.ofSuffix [1]) = false := by
    rw [← Bool.not_eq_true, NamespacedHash.contains_iff]
    rintro ⟨hmin, -⟩
    change (rootOver [⟨.ofSuffix [1, 0], [7]⟩]).min ≤ _ at hmin
    rw [rootOver_singleton] at hmin
    exact absurd hmin (by decide)
  refine ⟨⟨[⟨.ofSuffix [1, 0], [7]⟩], rfl⟩, .ofSuffix [1], rfl, rfl, ?_⟩
  rw [prove_of_not_contains hout, NamespaceProof.ofText_render]
  exact ⟨rfl, rfl, by decide⟩

end Nmt

end Availability
