import Availability.Proofs.Merkle.Proof
import Availability.Proofs.Merkle.Shape

/-!
# Where things are under a root

Whoever computes a root from values that are taken on faith chooses the shape of the tree as well.
When the result is the root of a real tree, each of the values still has a place in this tree, and
the two shapes are found to agree on the way to it: the strings hashed on the way tell at every node
what is on its sides.

* `Hashing.halves_of_value_eq` – **one node further down**: a computed node with the root of a list
  is over the two halves of the list;
* `Hashing.exists_parts` – what an opening with the root of a list took on faith are the roots of
  **parts of this list**, side by side;
* `Opening.places` – where the values of an opening would be in a tree of some number of leaves;
* `Hashing.root_of_mem_places` – what is at such a place is the root of the leaves there;
* `MerkleProof.halves_of_climb` – one node of a checked proof: the digest beside its path is the
  root of the other half;
* `MerkleProof.exists_turns_of_verify` – a byte string that verifies is a leaf with **the same way**
  down to it as the place that its proof names, and the proof has the digests beside this way;
* `MerkleProof.climb_eq_of_turns` – and that is all there is to know, as the climb is the same for
  **every place with this way**, in a tree of whatever size;
* `MerkleProof.getElem?_of_verify` – so it is the leaf at this place, when the proof is for the
  number of leaves that there are, or when this is a power of two and the place is one of a leaf.
-/

namespace Availability

namespace Merkle

namespace Hashing

variable {α β : Type} (H : Hashing α β)

/-- **One node further down**: a computed node that has the root of a list is over two values that
have the roots of its halves, unless two of the hashed strings collide. -/
theorem halves_of_value_eq (H' : Hashing α β) (hdigest : H'.digest = H.digest)
    (hnode : H'.nodeText = H.nodeText) {texts : List Bytes} (free : ¬Collides texts)
    {left right : Opening α} {leaves : List β} (ho : H'.openingTexts (.join left right) ⊆ texts)
    (ht : H.texts (LeafTree.ofList leaves) ⊆ texts)
    (h : H'.value (.join left right) = H.root (LeafTree.ofList leaves)) :
    2 ≤ leaves.length ∧
      (H'.openingTexts left ⊆ texts ∧ H'.openingTexts right ⊆ texts) ∧
      (H.texts (LeafTree.ofList (leaves.take (splitPoint leaves.length))) ⊆ texts ∧
        H.texts (LeafTree.ofList (leaves.drop (splitPoint leaves.length))) ⊆ texts) ∧
      H'.value left = H.root (LeafTree.ofList (leaves.take (splitPoint leaves.length))) ∧
        H'.value right = H.root (LeafTree.ofList (leaves.drop (splitPoint leaves.length))) := by
  have hmem : H'.nodeText (H'.value left) (H'.value right) ∈ texts := ho (by simp [openingTexts])
  have htop : H.nodeText (H'.value left) (H'.value right) =
      H.topText (LeafTree.ofList leaves) := by
    rw [← hnode]
    refine eq_of_sha256_eq free hmem (ht (H.topText_mem_texts _)) ?_
    rw [← digest_root, ← h, ← hdigest]
    exact (H'.digest_node _ _).symm
  rcases leaves_cases leaves with rfl | ⟨x, rfl⟩ | htwo
  · rw [LeafTree.ofList_nil] at htop
    exact absurd htop (H.nodeText_ne_nil _ _)
  · rw [LeafTree.ofList_singleton] at htop
    exact absurd htop.symm (H.leafText_ne_nodeText x _ _)
  · rw [LeafTree.ofList_of_two_le htwo] at htop ht
    obtain ⟨hl, hr⟩ := H.nodeText_injective htop
    refine ⟨htwo, ⟨fun a ha => ho ?_, fun a ha => ho ?_⟩,
      ⟨H.texts_left_subset ht, H.texts_right_subset ht⟩, hl, hr⟩
    · simp [openingTexts, ha]
    · simp [openingTexts, ha]

end Hashing

/-- **What an opening took on faith are the roots of parts of the list**, side by side and none of
them empty, unless two of the hashed strings collide. -/
theorem Hashing.exists_parts {α β : Type} (H H' : Hashing α β) (hdigest : H'.digest = H.digest)
    (hnode : H'.nodeText = H.nodeText) {texts : List Bytes} (free : ¬Collides texts)
    {o : Opening α} {leaves : List β} (ho : H'.openingTexts o ⊆ texts)
    (ht : H.texts (LeafTree.ofList leaves) ⊆ texts)
    (h : H'.value o = H.root (LeafTree.ofList leaves)) (hne : leaves ≠ []) :
    ∃ parts : List (List β), (parts.map fun part => H.root (LeafTree.ofList part)) = o.frontier ∧
      parts.flatten = leaves ∧
      ∀ part ∈ parts, part ≠ [] ∧ H.texts (LeafTree.ofList part) ⊆ texts := by
  induction o generalizing leaves with
  | given a =>
    refine ⟨[leaves], ?_, List.flatten_singleton, ?_⟩
    · rw [List.map_singleton, ← h]
      rfl
    · rintro part hpart
      obtain rfl := List.mem_singleton.mp hpart
      exact ⟨hne, ht⟩
  | join left right ihl ihr =>
    obtain ⟨htwo, ⟨hol, hor⟩, ⟨htl, htr⟩, hl, hr⟩ :=
      H.halves_of_value_eq H' hdigest hnode free ho ht h
    have hpos := splitPoint_pos htwo
    have hlt := splitPoint_lt htwo
    obtain ⟨ls, hlfrontier, hlleaves, hlparts⟩ := ihl hol htl hl <|
      List.ne_nil_of_length_pos (by rw [List.length_take]; omega)
    obtain ⟨rs, hrfrontier, hrleaves, hrparts⟩ := ihr hor htr hr <|
      List.ne_nil_of_length_pos (by rw [List.length_drop]; omega)
    refine ⟨ls ++ rs, ?_, ?_, ?_⟩
    · rw [List.map_append, hlfrontier, hrfrontier, Opening.frontier]
    · rw [List.flatten_append, hlleaves, hrleaves, List.take_append_drop]
    · intro part hpart
      exact (List.mem_append.mp hpart).elim (hlparts part) (hrparts part)

/-! ### The places of an opening -/

namespace Opening

variable {α : Type}

/-- The values of an opening with the places that they have in a tree of `size` leaves, the first
leaf of which has the number `offset`: the first leaf below each value, and how many there are. -/
def places : Opening α → (offset size : Nat) → List (α × Nat × Nat)
  | given value, offset, size => [(value, offset, size)]
  | join left right, offset, size =>
    left.places offset (splitPoint size) ++
      right.places (offset + splitPoint size) (size - splitPoint size)

end Opening

/-- **What is at a place is the root of the leaves there**, unless two of the hashed strings
collide: an opening with the root of a list can not tell anything else about its leaves. -/
theorem Hashing.root_of_mem_places {α β : Type} (H H' : Hashing α β)
    (hdigest : H'.digest = H.digest) (hnode : H'.nodeText = H.nodeText) {texts : List Bytes}
    (free : ¬Collides texts) {o : Opening α} {leaves : List β} (ho : H'.openingTexts o ⊆ texts)
    (ht : H.texts (LeafTree.ofList leaves) ⊆ texts)
    (h : H'.value o = H.root (LeafTree.ofList leaves)) {offset : Nat} {value : α}
    {first size : Nat} (hmem : (value, first, size) ∈ o.places offset leaves.length) :
    offset ≤ first ∧ first + size ≤ offset + leaves.length ∧
      value = H.root (LeafTree.ofList ((leaves.drop (first - offset)).take size)) ∧
      H.texts (LeafTree.ofList ((leaves.drop (first - offset)).take size)) ⊆ texts := by
  induction o generalizing leaves offset with
  | given a =>
    obtain ⟨rfl, rfl, rfl⟩ : value = a ∧ first = offset ∧ size = leaves.length := by
      simpa [Opening.places] using hmem
    rw [Nat.sub_self, List.drop_zero, List.take_length]
    exact ⟨le_rfl, le_rfl, h, ht⟩
  | join left right ihl ihr =>
    obtain ⟨htwo, ⟨hol, hor⟩, ⟨htl, htr⟩, hl, hr⟩ :=
      H.halves_of_value_eq H' hdigest hnode free ho ht h
    have hlt := splitPoint_lt htwo
    have htake := length_take_splitPoint htwo
    have hdrop : (leaves.drop (splitPoint leaves.length)).length =
        leaves.length - splitPoint leaves.length := List.length_drop
    rw [Opening.places, List.mem_append] at hmem
    rcases hmem with hmem | hmem
    · rw [← htake] at hmem
      obtain ⟨hlow, hhigh, hvalue, hsub⟩ := ihl hol htl hl hmem
      rw [htake] at hhigh
      -- the place is within the left half, so it is one of the whole list
      have hslice : ((leaves.take (splitPoint leaves.length)).drop (first - offset)).take size =
          (leaves.drop (first - offset)).take size := by
        rw [List.drop_take, List.take_take, min_eq_left (by omega)]
      rw [hslice] at hvalue hsub
      exact ⟨hlow, by omega, hvalue, hsub⟩
    · rw [← hdrop] at hmem
      obtain ⟨hlow, hhigh, hvalue, hsub⟩ := ihr hor htr hr hmem
      rw [hdrop] at hhigh
      rw [List.drop_drop,
        show splitPoint leaves.length + (first - (offset + splitPoint leaves.length)) =
          first - offset by omega] at hvalue hsub
      exact ⟨by omega, by omega, hvalue, hsub⟩

end Merkle

/-! ### The leaf of a Merkle proof -/

namespace MerkleProof

open Merkle

/-- A way that ends at the root is that of a single leaf. -/
theorem lt_two_of_turns_eq_nil {index total : Nat} (h : turns index total = []) : total < 2 := by
  by_contra htwo
  rcases Nat.lt_or_ge index (splitPoint total) with hleft | hright
  · rw [turns_of_lt (Nat.le_of_not_lt htwo) hleft] at h
    cases h
  · rw [turns_of_le (Nat.le_of_not_lt htwo) hright] at h
    cases h

/-- **A climb goes by the way of the leaf alone.** For a place with the same way in a tree of
another size, it has the same outcome and hashes the same strings. -/
theorem climb_eq_of_turns {i n j m : Nat} (hi : i < n) (hj : j < m) (h : turns i n = turns j m)
    (leaf : Digest) (aunts : List Digest) :
    climb leaf i n aunts = climb leaf j m aunts ∧
      opening leaf i n aunts = opening leaf j m aunts := by
  induction n using Nat.strong_induction_on generalizing i j m aunts with
  | _ n ih =>
    rcases Nat.lt_or_ge n 2 with hone | hn
    · have hm := lt_two_of_turns_eq_nil (h.symm.trans (turns_of_lt_two hone))
      obtain ⟨rfl, rfl, rfl, rfl⟩ : i = 0 ∧ n = 1 ∧ j = 0 ∧ m = 1 := by omega
      exact ⟨rfl, rfl⟩
    have hm : 2 ≤ m := by
      by_contra hone
      exact absurd (lt_two_of_turns_eq_nil (h.trans (turns_of_lt_two (Nat.lt_of_not_le hone))))
        (Nat.not_lt.mpr hn)
    have hsplitn := splitPoint_lt hn
    have hposn := splitPoint_pos hn
    rcases aunts with _ | ⟨aunt, aunts⟩
    · refine ⟨?_, rfl⟩
      rw [climb, climb, if_neg (by omega), if_neg (by omega), if_neg (by omega), if_neg (by omega)]
    rw [climb_cons hn hi, climb_cons hm hj, opening, opening]
    -- the first turn is the same, and so are those after it
    rcases Nat.lt_or_ge i (splitPoint n) with hin | hin <;>
      rcases Nat.lt_or_ge j (splitPoint m) with hjm | hjm
    · rw [turns_of_lt hn hin, turns_of_lt hm hjm] at h
      obtain ⟨hclimb, hopening⟩ := ih _ hsplitn hin hjm (List.cons.inj h).2 aunts
      simp only [if_pos hin, if_pos hjm, hclimb, hopening, and_self]
    · rw [turns_of_lt hn hin, turns_of_le hm hjm] at h
      exact absurd (List.cons.inj h).1 (by decide)
    · rw [turns_of_le hn hin, turns_of_lt hm hjm] at h
      exact absurd (List.cons.inj h).1 (by decide)
    · rw [turns_of_le hn hin, turns_of_le hm hjm] at h
      obtain ⟨hclimb, hopening⟩ := ih _ (by omega) (by omega) (by omega) (List.cons.inj h).2 aunts
      simp only [if_neg (Nat.not_lt.mpr hin), if_neg (Nat.not_lt.mpr hjm), hclimb, hopening,
        and_self]

/-- So a proof may be taken for one of such another place. -/
theorem verify_of_turns {proof : MerkleProof} {leaf : Bytes} {root : Digest} {index total : Nat}
    (hindex : index < total) (hproof : proof.index < proof.total)
    (hturns : turns index total = turns proof.index proof.total)
    (h : proof.verify leaf root = .ok ()) :
    ({ proof with index, total } : MerkleProof).verify leaf root = .ok () ∧
      ({ proof with index, total } : MerkleProof).texts leaf = proof.texts leaf := by
  obtain ⟨hclimb, hopening⟩ :=
    climb_eq_of_turns hindex hproof hturns (Merkle.leafHash leaf) proof.aunts.reverse
  obtain ⟨hleaf, hroot⟩ := verify_eq_ok_iff.mp h
  refine ⟨verify_eq_ok_iff.mpr ⟨hleaf, hclimb.trans hroot⟩, ?_⟩
  rw [texts, texts, hopening]

section Free

variable {leaf : Bytes} {leaves all : List Bytes} (free : ¬Collides all)
include free

/-- **One step of a climb to the root of a list**, unless two of the hashed strings collide: one of
the halves is climbed, and the digest beside it is the root of the other half. -/
theorem halves_of_climb (hleaves : Merkle.texts leaves ⊆ all) {index total : Nat} {aunt : Digest}
    {aunts : List Digest}
    (hopen : Merkle.hashing.openingTexts
      (opening (Merkle.leafHash leaf) index total (aunt :: aunts)) ⊆ all)
    (h : climb (Merkle.leafHash leaf) index total (aunt :: aunts) = .ok (Merkle.root leaves)) :
    2 ≤ total ∧ index < total ∧ 2 ≤ leaves.length ∧
      (index < splitPoint total ∧ Merkle.texts (leaves.take (splitPoint leaves.length)) ⊆ all ∧
          Merkle.hashing.openingTexts
            (opening (Merkle.leafHash leaf) index (splitPoint total) aunts) ⊆ all ∧
          climb (Merkle.leafHash leaf) index (splitPoint total) aunts =
            .ok (Merkle.root (leaves.take (splitPoint leaves.length))) ∧
          aunt = Merkle.root (leaves.drop (splitPoint leaves.length)) ∨
        splitPoint total ≤ index ∧
          Merkle.texts (leaves.drop (splitPoint leaves.length)) ⊆ all ∧
          Merkle.hashing.openingTexts (opening (Merkle.leafHash leaf) (index - splitPoint total)
            (total - splitPoint total) aunts) ⊆ all ∧
          climb (Merkle.leafHash leaf) (index - splitPoint total) (total - splitPoint total) aunts =
            .ok (Merkle.root (leaves.drop (splitPoint leaves.length))) ∧
          aunt = Merkle.root (leaves.take (splitPoint leaves.length))) := by
  have hvalue := value_opening h
  rw [Merkle.root_eq] at hvalue
  rw [opening] at hopen hvalue
  obtain ⟨htotal, hlt, ⟨hk, left, hleft, -⟩ | ⟨hk, right, hright, -⟩⟩ := climb_cons_eq_ok_iff.mp h
  · rw [if_pos hk] at hopen hvalue
    obtain ⟨htwo, ⟨hol, -⟩, ⟨htl, -⟩, hl, hr⟩ :=
      Merkle.hashing.halves_of_value_eq Merkle.hashing rfl rfl free hopen hleaves hvalue
    rw [value_opening hleft, ← Merkle.root_eq] at hl
    rw [← Merkle.root_eq] at hr
    rw [hl] at hleft
    exact ⟨htotal, hlt, htwo, Or.inl ⟨hk, htl, hol, hleft, hr⟩⟩
  · rw [if_neg (Nat.not_lt.mpr hk)] at hopen hvalue
    obtain ⟨htwo, ⟨-, hor⟩, ⟨-, htr⟩, hl, hr⟩ :=
      Merkle.hashing.halves_of_value_eq Merkle.hashing rfl rfl free hopen hleaves hvalue
    rw [value_opening hright, ← Merkle.root_eq] at hr
    rw [← Merkle.root_eq] at hl
    rw [hr] at hright
    exact ⟨htotal, hlt, htwo, Or.inr ⟨hk, htr, hor, hright, hl⟩⟩

/-- **The climb goes the way of a real leaf**, and the digests beside it are those beside the path
of this leaf, unless two of the hashed strings collide. -/
theorem exists_turns_of_climb (hleaf : Merkle.hashing.leafText leaf ∈ all)
    (hleaves : Merkle.texts leaves ⊆ all) {index total : Nat} {aunts : List Digest}
    (hopen : Merkle.hashing.openingTexts
      (opening (Merkle.leafHash leaf) index total aunts) ⊆ all)
    (h : climb (Merkle.leafHash leaf) index total aunts = .ok (Merkle.root leaves)) :
    index < total ∧ ∃ j, leaves[j]? = some leaf ∧
      turns index total = turns j leaves.length ∧
      aunts = (path j (leaves.map Merkle.leafHash)).2.reverse := by
  induction aunts generalizing index total leaves with
  | nil =>
    rw [Merkle.root_eq] at h
    obtain ⟨rfl, rfl, hroot⟩ := climb_nil_eq_ok_iff.mp h
    have htree : LeafTree.leaf leaf = LeafTree.ofList leaves :=
      Merkle.hashing.eq_of_root_eq free (by simpa [Hashing.texts] using hleaf) hleaves hroot
    have hlist := congrArg LeafTree.leaves htree
    rw [LeafTree.leaves_ofList] at hlist
    obtain rfl : leaves = [leaf] := hlist.symm
    refine ⟨Nat.one_pos, 0, rfl, rfl, ?_⟩
    rw [path, dif_neg (by simp)]
    rfl
  | cons aunt aunts ih =>
    obtain ⟨htotal, hlt, htwo, hside⟩ := halves_of_climb free hleaves hopen h
    have htwo' : 2 ≤ (leaves.map Merkle.leafHash).length := by rwa [List.length_map]
    rcases hside with ⟨hk, htl, hol, hleft, haunt⟩ | ⟨hk, htr, hor, hright, haunt⟩
    · obtain ⟨-, j, hj, hturns, haunts⟩ := ih htl hol hleft
      have hlength := length_take_splitPoint htwo
      have hjk : j < splitPoint leaves.length := by
        rw [← hlength]
        exact (List.getElem?_eq_some_iff.mp hj).1
      rw [List.getElem?_take_of_lt hjk] at hj
      rw [hlength] at hturns
      rw [Merkle.root, List.map_drop] at haunt
      rw [List.map_take] at haunts
      refine ⟨hlt, j, hj, by rw [turns_of_lt htotal hk, turns_of_lt htwo hjk, hturns], ?_⟩
      rw [path_of_lt htwo' (by rwa [List.length_map]), List.reverse_append,
        List.reverse_singleton, List.singleton_append, List.length_map, ← haunt, ← haunts]
    · obtain ⟨-, j, hj, hturns, haunts⟩ := ih htr hor hright
      rw [List.getElem?_drop] at hj
      rw [List.length_drop] at hturns
      rw [Merkle.root, List.map_take] at haunt
      rw [List.map_drop] at haunts
      have hle : splitPoint leaves.length ≤ splitPoint leaves.length + j := Nat.le_add_right _ _
      refine ⟨hlt, _, hj, ?_, ?_⟩
      · rw [turns_of_le htotal hk, turns_of_le htwo hle, hturns, Nat.add_sub_cancel_left]
      · rw [path_of_le htwo' (by rwa [List.length_map]), List.reverse_append,
          List.reverse_singleton, List.singleton_append, List.length_map, Nat.add_sub_cancel_left,
          ← haunt, ← haunts]

variable {proof : MerkleProof} (hproof : proof.texts leaf ⊆ all)
  (hleaves : Merkle.texts leaves ⊆ all) (h : proof.verify leaf (Merkle.root leaves) = .ok ())
include hproof hleaves h

/-- **What verifies is a leaf that has the way of its proof**, and its proof has the digests beside
this way, unless two of the hashed strings collide. -/
theorem exists_turns_of_verify :
    proof.index < proof.total ∧ ∃ j, leaves[j]? = some leaf ∧
      turns proof.index proof.total = turns j leaves.length ∧
      proof.aunts = (path j (leaves.map Merkle.leafHash)).2 := by
  rw [texts, List.cons_subset] at hproof
  obtain ⟨hindex, j, hj, hturns, haunts⟩ :=
    exists_turns_of_climb free hproof.1 hleaves hproof.2 (verify_eq_ok_iff.mp h).2
  exact ⟨hindex, j, hj, hturns, List.reverse_inj.mp haunts⟩

/-- **What verifies is the leaf at its place**, unless two of the hashed strings collide: when the
proof is for as many leaves as there are, or when their number is a power of two and the place is
one of them. -/
theorem getElem?_of_verify (hplace : proof.total = leaves.length ∨
      (∃ k, leaves.length = 2 ^ k) ∧ proof.index < leaves.length) :
    leaves[proof.index]? = some leaf := by
  obtain ⟨hindex, j, hj, hturns, -⟩ := exists_turns_of_verify free hproof hleaves h
  have hlt : j < leaves.length := (List.getElem?_eq_some_iff.mp hj).1
  rcases hplace with htotal | ⟨⟨k, hk⟩, hindex'⟩
  · rw [htotal] at hindex hturns
    rwa [turns_injective hindex hlt hturns]
  · -- the way has the length of all ways in the tree, so it is one of them
    rw [hk] at hindex' hlt hturns
    have hlength := length_turns_two_pow j k
    rw [← hturns] at hlength
    rw [turns_eq_of_length hindex' hindex hlength] at hturns
    rwa [turns_injective hindex' hlt hturns]

end Free

end MerkleProof

end Availability
