import Availability.Chain.ExtendedHeader
import Availability.Proofs.Foundations
import Availability.Proofs.Square.Header
import Mathlib.Data.List.Chain

/-!
# A range of headers is bound by its last hash

Whoever follows a chain checks each header against the one before it, and this check looks at the
hash that the commit of the **earlier** header states. So trust moves forward through a range, while
what binds the range runs backwards: the last hash tells the last header, this tells the hash before
it, and so on down to the first. At each step two checks are needed that have nothing to do with
each other: that a header is what its own commit says (`ExtendedHeader.validate`), and that it names
the header before it (`ExtendedHeader.verifyAdjacent`).

* `ExtendedHeader.Follows`, `ExtendedHeader.verifyRange_eq_ok_iff` – a range that verifies is a
  **chain of neighbours**;
* `ExtendedHeader.Agree`, `ExtendedHeader.agree_of_hash_eq` – valid headers with the same hash
  agree, and follow on the same hash;
* `ExtendedHeader.validators_eq_of_hash_eq` – they have **the same validators**, too;
* `ExtendedHeader.forall₂_agree` – so the last hash binds a whole range, **by induction along both
  ranges at once**;
* `ExtendedHeader.bound_of_verifyRange` – what a range that verifies is known to be.
-/

namespace Availability

instance : Trans (α := Time) (· < ·) (· < ·) (· < ·) where
  trans {a b c} hab hbc := by
    change a.seconds < c.seconds ∨ a.seconds = c.seconds ∧ a.nanos < c.nanos
    rcases hab with hab | ⟨hab, habn⟩ <;> rcases hbc with hbc | ⟨hbc, hbcn⟩
    · exact Or.inl (hab.trans hbc)
    · exact Or.inl (hbc ▸ hab)
    · exact Or.inl (hab ▸ hbc)
    · exact Or.inr ⟨hab.trans hbc, habn.trans hbcn⟩

namespace ExtendedHeader

/-- The strings that are hashed for a header and its data root. -/
def texts (h : ExtendedHeader) : List Bytes :=
  Merkle.texts h.header.leaves ++ Merkle.texts h.availability.leaves

/-- **The parts of a valid header belong together.** -/
theorem validate_eq_ok_iff {h : ExtendedHeader} :
    h.validate = .ok () ↔ h.header.validatorsHash = some h.validators.hash ∧
      h.header.dataHash = some h.availability.hash ∧ h.commit.height.val = h.height ∧
      h.hash = some h.header.hash ∧ h.availability.validate h.appVersion = .ok () := by
  simp only [validate, Checked.throw_bind, Checked.ite_throw_eq_ok_iff, ne_eq, not_not]

/-- A valid header has as many columns as rows. -/
theorem length_columnRoots {h : ExtendedHeader} (hvalid : h.validate = .ok ()) :
    h.availability.columnRoots.length = h.availability.rowRoots.length := by
  obtain ⟨-, -, -, -, havailability⟩ := validate_eq_ok_iff.mp hvalid
  simp only [AvailabilityHeader.validate, Checked.throw_bind, Checked.ite_throw_eq_ok_iff, ne_eq,
    not_not] at havailability
  exact havailability.1

/-! ### Neighbours -/

/-- What is checked of two headers, the first of which is trusted. -/
structure Follows (trusted next : ExtendedHeader) : Prop where
  /-- No height is left out. -/
  height_eq : next.height = trusted.height + 1
  /-- Both are of one chain. -/
  chain_eq : next.header.chain = trusted.header.chain
  /-- Time goes on. -/
  time_lt : trusted.header.time < next.header.time
  /-- The validators are those that were to be the next. -/
  validators_eq : next.header.validatorsHash = trusted.header.nextValidatorsHash
  /-- The second header names the hash of the first. -/
  lastHash_eq : next.header.lastHash = trusted.hash

theorem verifyAdjacent_eq_ok_iff {trusted next : ExtendedHeader} :
    trusted.verifyAdjacent next = .ok () ↔ Follows trusted next := by
  simp only [verifyAdjacent, Checked.throw_bind, Checked.ite_throw_eq_ok_iff,
    Checked.pure_eq_ok_iff, ne_eq, not_not, and_true]
  constructor
  · rintro ⟨hheight, hchain, htime, hvalidators, hlast⟩
    exact ⟨hheight, hchain, htime, hvalidators, hlast⟩
  · rintro ⟨hheight, hchain, htime, hvalidators, hlast⟩
    exact ⟨hheight, hchain, htime, hvalidators, hlast⟩

/-- **A range that verifies is a chain of neighbours**, with the trusted header before it. -/
theorem verifyRange_eq_ok_iff {trusted : ExtendedHeader} {hs : List ExtendedHeader} :
    trusted.verifyRange hs = .ok () ↔ (trusted :: hs).IsChain Follows := by
  induction hs generalizing trusted with
  | nil => simp [verifyRange]
  | cons next rest ih =>
    rw [verifyRange, Checked.bind_eq_ok_iff, Checked.exists_unit_iff, verifyAdjacent_eq_ok_iff, ih,
      List.isChain_cons_cons]

/-- The heights of a chain of neighbours have no gaps, and all of them are of one chain. -/
theorem height_of_isChain {trusted : ExtendedHeader} {hs : List ExtendedHeader}
    (hchain : (trusted :: hs).IsChain Follows) {i : Nat} {h : ExtendedHeader}
    (hi : hs[i]? = some h) :
    h.height = trusted.height + (i + 1) ∧ h.header.chain = trusted.header.chain := by
  induction hs generalizing trusted i with
  | nil => simp at hi
  | cons next rest ih =>
    obtain ⟨hnext, hrest⟩ := List.isChain_cons_cons.mp hchain
    rcases i with _ | i
    · obtain rfl := Option.some.inj hi
      exact ⟨hnext.height_eq, hnext.chain_eq⟩
    · obtain ⟨hheight, hname⟩ := ih hrest hi
      have := hnext.height_eq
      exact ⟨by omega, hname.trans hnext.chain_eq⟩

/-- The times of a chain of neighbours increase. -/
theorem pairwise_time_lt {hs : List ExtendedHeader} (hchain : hs.IsChain Follows) :
    hs.Pairwise fun a b => a.header.time < b.header.time := by
  have htimes : (hs.map fun h => h.header.time).IsChain (· < ·) :=
    (List.isChain_map _).mpr (hchain.imp fun _ _ h => h.time_lt)
  exact List.pairwise_map.mp htimes.pairwise

/-! ### Equal hashes -/

/-- Two headers say the same about their blocks. -/
structure Agree (a b : ExtendedHeader) : Prop where
  /-- The heights are the same. -/
  height_eq : a.height = b.height
  /-- The chains are the same. -/
  chain_eq : a.header.chain = b.header.chain
  /-- The times are the same. -/
  time_eq : a.header.time = b.header.time
  /-- The data roots are the same. -/
  dataHash_eq : a.header.dataHash = b.header.dataHash
  /-- The roots of all rows and columns are the same. -/
  availability_eq : a.availability = b.availability

section Free

variable {all : List Bytes} (free : ¬Collides all)
include free

/-- Valid headers with the same hash match, as their commits state the hashes that they have. -/
theorem matches_of_hash_eq {a b : ExtendedHeader} (ha : a.validate = .ok ())
    (hb : b.validate = .ok ()) (hatexts : Merkle.texts a.header.leaves ⊆ all)
    (hbtexts : Merkle.texts b.header.leaves ⊆ all) (h : a.hash = b.hash) :
    a.header.Matches b.header := by
  obtain ⟨-, -, -, hahash, -⟩ := validate_eq_ok_iff.mp ha
  obtain ⟨-, -, -, hbhash, -⟩ := validate_eq_ok_iff.mp hb
  have hroot : a.header.hash = b.header.hash :=
    Option.some.inj (hahash.symm.trans (h.trans hbhash))
  exact foundations.header_inj free hatexts hbtexts hroot

/-- **Valid headers with the same hash agree, and follow on the same hash**, unless two of the
hashed strings collide. -/
theorem agree_of_hash_eq {a b : ExtendedHeader} (ha : a.validate = .ok ())
    (hb : b.validate = .ok ()) (hatexts : a.texts ⊆ all) (hbtexts : b.texts ⊆ all)
    (h : a.hash = b.hash) : Agree a b ∧ a.header.lastHash = b.header.lastHash := by
  obtain ⟨-, hadata, -⟩ := validate_eq_ok_iff.mp ha
  obtain ⟨-, hbdata, -⟩ := validate_eq_ok_iff.mp hb
  obtain ⟨haheader, haroots⟩ := List.append_subset.mp hatexts
  obtain ⟨hbheader, hbroots⟩ := List.append_subset.mp hbtexts
  have hmatch := matches_of_hash_eq free ha hb haheader hbheader h
  -- the headers have the data roots of their availability headers
  have hdataRoot : a.availability.hash = b.availability.hash :=
    Option.some.inj (hadata.symm.trans (hmatch.dataHash_eq.trans hbdata))
  have hroots := Merkle.leaves_eq_of_root_eq free haroots hbroots hdataRoot
  refine ⟨⟨?_, hmatch.chain_eq, hmatch.time_eq, hmatch.dataHash_eq, ?_⟩, hmatch.lastHash_eq⟩
  · rw [height, height, hmatch.height_eq]
  · exact AvailabilityHeader.eq_of_leaves_eq (length_columnRoots ha) (length_columnRoots hb) hroots

/-- **Valid headers with the same hash have the same validators**, unless two of the hashed strings
collide. Which of them proposed the block is not hashed with them. -/
theorem validators_eq_of_hash_eq {a b : ExtendedHeader} (ha : a.validate = .ok ())
    (hb : b.validate = .ok ()) (hatexts : Merkle.texts a.header.leaves ⊆ all)
    (hbtexts : Merkle.texts b.header.leaves ⊆ all)
    (hakeys : Merkle.texts (a.validators.validators.map Validator.toRecord) ⊆ all)
    (hbkeys : Merkle.texts (b.validators.validators.map Validator.toRecord) ⊆ all)
    (h : a.hash = b.hash) : a.validators.validators = b.validators.validators := by
  obtain ⟨havalidators, -⟩ := validate_eq_ok_iff.mp ha
  obtain ⟨hbvalidators, -⟩ := validate_eq_ok_iff.mp hb
  have hmatch := matches_of_hash_eq free ha hb hatexts hbtexts h
  refine foundations.validators_inj free hakeys hbkeys ?_
  exact Option.some.inj (havalidators.symm.trans (hmatch.validatorsHash_eq.trans hbvalidators))

/-- **The last hash binds a range**: chains of neighbours of the same length, with valid headers
after the first, agree in all of these and begin with the same hash, if they end with the same one.
This holds unless two of the hashed strings collide. -/
theorem forall₂_agree {t t' : ExtendedHeader} {hs hs' : List ExtendedHeader}
    (hlength : hs.length = hs'.length) (hvalid : ∀ h ∈ hs ++ hs', h.validate = .ok ())
    (htexts : (hs ++ hs').flatMap texts ⊆ all) (hchain : (t :: hs).IsChain Follows)
    (hchain' : (t' :: hs').IsChain Follows)
    (hlast : ((t :: hs).getLast (List.cons_ne_nil _ _)).hash =
      ((t' :: hs').getLast (List.cons_ne_nil _ _)).hash) :
    t.hash = t'.hash ∧ List.Forall₂ Agree hs hs' := by
  induction hs generalizing t t' hs' with
  | nil =>
    obtain rfl := List.length_eq_zero_iff.mp hlength.symm
    exact ⟨hlast, .nil⟩
  | cons a rest ih =>
    rcases hs' with _ | ⟨b, rest'⟩
    · simp at hlength
    obtain ⟨ha, hrest⟩ := List.isChain_cons_cons.mp hchain
    obtain ⟨hb, hrest'⟩ := List.isChain_cons_cons.mp hchain'
    -- the headers after these two agree, and tell that these have the same hash
    obtain ⟨hhash, hagree⟩ := ih (Nat.succ.inj hlength)
      (fun h hmem => hvalid h (by
        rcases List.mem_append.mp hmem with hmem | hmem
        · simp [hmem]
        · simp [hmem]))
      (fun text hmem => htexts (by
        simp only [List.flatMap_append, List.flatMap_cons, List.mem_append] at hmem ⊢
        rcases hmem with hmem | hmem
        · exact Or.inl (Or.inr hmem)
        · exact Or.inr (Or.inr hmem)))
      hrest hrest' (by simpa using hlast)
    have hsub (h : ExtendedHeader) (hmem : h ∈ a :: rest ++ b :: rest') : h.texts ⊆ all :=
      fun text htext => htexts (List.mem_flatMap.mpr ⟨h, hmem, htext⟩)
    obtain ⟨hab, hbefore⟩ := agree_of_hash_eq free (hvalid a (by simp)) (hvalid b (by simp))
      (hsub a (by simp)) (hsub b (by simp)) hhash
    -- these name the hashes of the headers before them
    rw [ha.lastHash_eq, hb.lastHash_eq] at hbefore
    exact ⟨hbefore, .cons hab hagree⟩

end Free

/-- **What a range that verifies is known to be**: its headers have consecutive heights on the chain
of the trusted header, and their times increase. Another range of valid headers that ends with the
same hash, even after another trusted header, agrees with it at every position, unless two of the
strings that were hashed for the two ranges collide. -/
theorem bound_of_verifyRange {t t' : ExtendedHeader} {hs hs' : List ExtendedHeader}
    (hlength : hs.length = hs'.length) (hvalid : ∀ h ∈ hs ++ hs', h.validate = .ok ())
    (hrange : t.verifyRange hs = .ok ()) (hrange' : t'.verifyRange hs' = .ok ()) :
    (∀ i h, hs[i]? = some h →
        h.height = t.height + (i + 1) ∧ h.header.chain = t.header.chain) ∧
      ((t :: hs).Pairwise fun a b => a.header.time < b.header.time) ∧
      (Collides ((hs ++ hs').flatMap texts) ∨
        (hs.getLast?.map hash = hs'.getLast?.map hash → List.Forall₂ Agree hs hs')) := by
  have hchain := verifyRange_eq_ok_iff.mp hrange
  have hchain' := verifyRange_eq_ok_iff.mp hrange'
  refine ⟨fun i h hi => height_of_isChain hchain hi, pairwise_time_lt hchain, ?_⟩
  rw [or_iff_not_imp_left]
  intro free hlast
  rcases hs with _ | ⟨a, rest⟩
  · obtain rfl := List.length_eq_zero_iff.mp hlength.symm
    exact .nil
  · rcases hs' with _ | ⟨b, rest'⟩
    · simp at hlength
    refine (forall₂_agree free hlength hvalid (List.Subset.refl _) hchain hchain' ?_).2
    rw [List.getLast?_eq_some_getLast (List.cons_ne_nil _ _),
      List.getLast?_eq_some_getLast (List.cons_ne_nil _ _)] at hlast
    exact Option.some.inj hlast

/-! ### A chain of empty blocks -/

/-- A block without transactions, on a chain without validators. -/
def ofEmptyBlock (height : Height) (time : Time) (lastBlock : Option BlockId) : ExtendedHeader :=
  let validators : ValidatorSet := { validators := [], proposer := none }
  let availability : AvailabilityHeader := ⟨[.empty, .empty], [.empty, .empty]⟩
  let header : BlockHeader :=
    { version := { block := 11, app := 1 }, chain := ⟨"chain", by decide⟩, height, time, lastBlock
      lastCommitHash := none, dataHash := some availability.hash
      validatorsHash := some validators.hash, nextValidatorsHash := some validators.hash
      consensusHash := none, appHash := [], lastResultsHash := none, evidenceHash := none
      proposer := ⟨List.replicate 20 0, by decide⟩ }
  let block : BlockId := { hash := some header.hash, parts := { total := 0, hash := none } }
  { header, commit := { height, round := 0, block, signatures := [] }, validators, availability }

theorem validate_ofEmptyBlock (height : Height) (time : Time) (lastBlock : Option BlockId) :
    (ofEmptyBlock height time lastBlock).validate = .ok () :=
  validate_eq_ok_iff.mpr ⟨rfl, rfl, rfl, rfl, rfl⟩

/-- Two blocks after a first one; the last of them was accepted in one round of voting or in
another. -/
theorem bound_of_verifyRange_pair :
    ∃ t a b b' : ExtendedHeader,
      ([a, b].length = [a, b'].length ∧ (∀ h ∈ [a, b] ++ [a, b'], h.validate = .ok ()) ∧
        t.verifyRange [a, b] = .ok () ∧ t.verifyRange [a, b'] = .ok ()) ∧
      b.hash = b'.hash ∧ b ≠ b' ∧
      (∀ i h, [a, b][i]? = some h →
        h.height = t.height + (i + 1) ∧ h.header.chain = t.header.chain) ∧
      ([t, a, b].Pairwise fun a b => a.header.time < b.header.time) ∧
      (Collides (([a, b] ++ [a, b']).flatMap texts) ∨
        ([a, b].getLast?.map hash = [a, b'].getLast?.map hash →
          List.Forall₂ Agree [a, b] [a, b'])) := by
  let t := ofEmptyBlock 1 { seconds := 0, nanos := 0 } none
  let a := ofEmptyBlock 2 { seconds := 0, nanos := 1 } (some t.commit.block)
  let b := ofEmptyBlock 3 { seconds := 1, nanos := 0 } (some a.commit.block)
  let b' : ExtendedHeader := { b with commit := { b.commit with round := 1 } }
  have hvalid : ∀ h ∈ [a, b] ++ [a, b'], h.validate = .ok () := by
    intro h hmem
    simp only [List.cons_append, List.nil_append, List.mem_cons, List.not_mem_nil, or_false] at hmem
    rcases hmem with rfl | rfl | rfl | rfl
    · exact validate_ofEmptyBlock _ _ _
    · exact validate_ofEmptyBlock _ _ _
    · exact validate_ofEmptyBlock _ _ _
    · exact validate_eq_ok_iff.mpr ⟨rfl, rfl, rfl, rfl, rfl⟩
  have hta : Follows t a := ⟨rfl, rfl, by decide, rfl, rfl⟩
  have hab : Follows a b := ⟨rfl, rfl, by decide, rfl, rfl⟩
  have hab' : Follows a b' := ⟨rfl, rfl, by decide, rfl, rfl⟩
  have hrange : t.verifyRange [a, b] = .ok () :=
    verifyRange_eq_ok_iff.mpr (.cons_cons hta (.cons_cons hab (.singleton b)))
  have hrange' : t.verifyRange [a, b'] = .ok () :=
    verifyRange_eq_ok_iff.mpr (.cons_cons hta (.cons_cons hab' (.singleton b')))
  refine ⟨t, a, b, b', ⟨rfl, hvalid, hrange, hrange'⟩, rfl, ?_,
    bound_of_verifyRange rfl hvalid hrange hrange'⟩
  intro h
  exact absurd (congrArg (fun h => h.commit.round) h) (show (0 : UInt32) ≠ 1 by decide)

end ExtendedHeader

end Availability
