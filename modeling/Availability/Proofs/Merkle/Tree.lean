import Availability.Merkle.Tree
import Mathlib.Algebra.Order.Ring.Nat
import Mathlib.Data.List.Pairwise
import Mathlib.Logic.Function.Basic
import Mathlib.Tactic.Common

/-!
# What a root says about its leaves

A root binds the leaves under it only as far as the hash function does. The statements of this file
therefore never assume anything about SHA-256. They are about the strings that a computation
actually hashed, and say what is true **unless two of these collide**.

* `Collides` – two different strings of a list have the same digest;
* `Merkle.LeafTree` – a binary tree, kept as such instead of being joined to its root at once;
* `Merkle.Hashing` – how leaves and nodes are hashed, such that the strings tell what they stand
  for: the trees of digests and the namespaced trees are both of this kind;
* `Merkle.Hashing.eq_of_root_eq` – equal roots have equal trees, **shape included**;
* `Merkle.Opening` – the upper part of a tree as whoever checks a proof sees it: some nodes are
  computed, the others are taken on faith;
* `Merkle.Hashing.exists_subtrees` – an opening with the root of a tree *is* the upper part of this
  tree, so what was taken on faith are the roots of subtrees side by side.

The last statement is the one that proofs rest on. The shape of an opening comes from numbers that
the maker of the proof chose; it need not be that of any real tree, and is not compared with one.
That it fits nevertheless is because leaves, nodes and the empty tree are hashed as strings that can
not be taken for each other.
-/

namespace Availability

/-- Two different strings of the list have the same digest. -/
def Collides (texts : List Bytes) : Prop :=
  ∃ a ∈ texts, ∃ b ∈ texts, a ≠ b ∧ sha256 a = sha256 b

/-- A collision stays one among more strings. -/
theorem Collides.mono {texts all : List Bytes} (h : texts ⊆ all) : Collides texts → Collides all :=
  fun ⟨a, ha, b, hb, hab⟩ => ⟨a, h ha, b, h hb, hab⟩

/-- Strings with different digests do not collide. -/
theorem not_collides_of_pairwise {texts : List Bytes}
    (h : texts.Pairwise fun a b => sha256 a ≠ sha256 b) : ¬Collides texts := by
  rintro ⟨a, ha, b, hb, hab, heq⟩
  have : Std.Symm fun a b : Bytes => sha256 a ≠ sha256 b := ⟨fun _ _ => Ne.symm⟩
  exact h.forall ha hb hab heq

/-- Without a collision, the digest of a hashed string tells the string. -/
theorem eq_of_sha256_eq {texts : List Bytes} {a b : Bytes} (free : ¬Collides texts)
    (ha : a ∈ texts) (hb : b ∈ texts) (h : sha256 a = sha256 b) : a = b := by
  by_contra hab
  exact free ⟨a, ha, b, hb, hab, h⟩

namespace Merkle

/-! ### Joining as a fold over a tree -/

section Combine

variable {α β : Type}

theorem combine_of_two_le (node : α → α → α) (empty : α) {leaves : List α}
    (h : 2 ≤ leaves.length) :
    combine node empty leaves =
      node (combine node empty (leaves.take (splitPoint leaves.length)))
        (combine node empty (leaves.drop (splitPoint leaves.length))) := by
  rw [combine, dif_pos h]

/-- A list is empty, has one member, or is split into two shorter ones: the cases in which a tree is
built from it. -/
theorem leaves_cases (leaves : List α) :
    leaves = [] ∨ (∃ x, leaves = [x]) ∨ 2 ≤ leaves.length := by
  rcases leaves with _ | ⟨x, _ | ⟨y, rest⟩⟩
  · exact Or.inl rfl
  · exact Or.inr (Or.inl ⟨x, rfl⟩)
  · exact Or.inr (Or.inr (by simp))

/-- Joining may be done before or after a change of the values that respects it. -/
theorem combine_map {node : α → α → α} {node' : β → β → β} {empty : α} (f : α → β)
    (hnode : ∀ l r, f (node l r) = node' (f l) (f r)) (leaves : List α) :
    combine node' (f empty) (leaves.map f) = f (combine node empty leaves) := by
  induction leaves using combine.induct with
  | case1 leaves h k ihl ihr =>
    rw [combine_of_two_le _ _ (by simpa using h), combine_of_two_le _ _ h, hnode, ← ihl, ← ihr]
    simp only [List.length_map, List.map_take, List.map_drop, k]
  | case2 leaves h =>
    rcases leaves_cases leaves with rfl | ⟨x, rfl⟩ | h'
    · simp
    · simp
    · exact absurd h' h

end Combine

/-- A binary tree with values at its leaves. -/
inductive LeafTree (α : Type) where
  /-- The tree without leaves. -/
  | nil
  /-- A single leaf. -/
  | leaf (value : α)
  /-- Two trees side by side. -/
  | node (left right : LeafTree α)

namespace LeafTree

variable {α : Type}

/-- The leaves of a tree, from left to right. -/
def leaves : LeafTree α → List α
  | nil => []
  | leaf value => [value]
  | node left right => left.leaves ++ right.leaves

/-- The tree over some leaves. -/
def ofList (values : List α) : LeafTree α :=
  combine node nil (values.map leaf)

@[simp] theorem ofList_nil : ofList ([] : List α) = nil := combine_nil _ _

@[simp] theorem ofList_singleton (value : α) : ofList [value] = leaf value :=
  combine_singleton _ _ _

theorem ofList_of_two_le {values : List α} (h : 2 ≤ values.length) :
    ofList values = node (ofList (values.take (splitPoint values.length)))
      (ofList (values.drop (splitPoint values.length))) := by
  rw [ofList, combine_of_two_le _ _ (by simpa using h)]
  simp only [List.length_map, ← List.map_take, ← List.map_drop]
  rfl

@[simp] theorem leaves_ofList (values : List α) : (ofList values).leaves = values := by
  induction values using combine.induct with
  | case1 values h k ihl ihr =>
    rw [ofList_of_two_le h, leaves, ihl, ihr, List.take_append_drop]
  | case2 values h =>
    rcases leaves_cases values with rfl | ⟨x, rfl⟩ | h'
    · simp [leaves]
    · simp [leaves]
    · exact absurd h' h

/-- The tree has a leaf below every node. -/
def Full : LeafTree α → Prop
  | nil => False
  | leaf _ => True
  | node left right => left.Full ∧ right.Full

theorem full_ofList {values : List α} (h : values ≠ []) : (ofList values).Full := by
  induction values using combine.induct with
  | case1 values htwo k ihl ihr =>
    have hpos := splitPoint_pos htwo
    have hlt := splitPoint_lt htwo
    rw [ofList_of_two_le htwo]
    refine ⟨ihl (List.ne_nil_of_length_pos ?_), ihr (List.ne_nil_of_length_pos ?_)⟩
    · rw [List.length_take]
      omega
    · rw [List.length_drop]
      omega
  | case2 values hlt =>
    rcases leaves_cases values with rfl | ⟨x, rfl⟩ | h'
    · exact absurd rfl h
    · rw [ofList_singleton]
      trivial
    · exact absurd h' hlt

end LeafTree

/-! ### Hashing a tree -/

/-- A way to hash the leaves and the nodes of a tree. Every value comes with a digest, which is that
of a string; the string of a leaf tells its content, that of a node its two children, and neither
can be taken for the other or for the empty string. -/
structure Hashing (α β : Type) where
  /-- The value of the tree without leaves. -/
  empty : α
  /-- The value of a leaf with some content. -/
  leaf : β → α
  /-- The value of a node with two children. -/
  node : α → α → α
  /-- The digest that a value comes with. -/
  digest : α → Digest
  /-- The string that is hashed for a leaf. -/
  leafText : β → Bytes
  /-- The string that is hashed for a node. -/
  nodeText : α → α → Bytes
  digest_empty : digest empty = sha256 []
  digest_leaf : ∀ b, digest (leaf b) = sha256 (leafText b)
  digest_node : ∀ l r, digest (node l r) = sha256 (nodeText l r)
  leafText_injective : Function.Injective leafText
  nodeText_injective : ∀ {l r l' r'}, nodeText l r = nodeText l' r' → l = l' ∧ r = r'
  leafText_ne_nodeText : ∀ b l r, leafText b ≠ nodeText l r
  leafText_ne_nil : ∀ b, leafText b ≠ []
  nodeText_ne_nil : ∀ l r, nodeText l r ≠ []

/-- The upper part of a tree: nodes that are computed over values that are taken on faith. -/
inductive Opening (α : Type) where
  /-- A value taken on faith. -/
  | given (value : α)
  /-- Two parts side by side. -/
  | join (left right : Opening α)

namespace Opening

variable {α : Type}

/-- The values taken on faith, from left to right. -/
def frontier : Opening α → List α
  | given value => [value]
  | join left right => left.frontier ++ right.frontier

end Opening

namespace Hashing

variable {α β : Type} (H : Hashing α β)

/-- The root of a tree. -/
def root : LeafTree β → α
  | .nil => H.empty
  | .leaf value => H.leaf value
  | .node left right => H.node (root left) (root right)

/-- The strings that are hashed for the root of a tree. -/
def texts : LeafTree β → List Bytes
  | .nil => [[]]
  | .leaf value => [H.leafText value]
  | .node left right => H.nodeText (H.root left) (H.root right) :: (texts left ++ texts right)

/-- The value of an opening. -/
def value : Opening α → α
  | .given value => value
  | .join left right => H.node (value left) (value right)

/-- The strings that are hashed for the value of an opening. -/
def openingTexts : Opening α → List Bytes
  | .given _ => []
  | .join left right =>
    H.nodeText (H.value left) (H.value right) :: (openingTexts left ++ openingTexts right)

/-- **The root over a list is the root of its tree.** -/
theorem root_ofList (values : List β) :
    H.root (LeafTree.ofList values) = combine H.node H.empty (values.map H.leaf) := by
  have h : combine H.node (H.root .nil) ((values.map LeafTree.leaf).map H.root) =
      H.root (combine LeafTree.node .nil (values.map LeafTree.leaf)) :=
    combine_map H.root (fun _ _ => rfl) _
  rw [List.map_map] at h
  exact h.symm

/-- The string that is hashed last for the root of a tree. -/
def topText : LeafTree β → Bytes
  | .nil => []
  | .leaf value => H.leafText value
  | .node left right => H.nodeText (H.root left) (H.root right)

theorem digest_root (t : LeafTree β) : H.digest (H.root t) = sha256 (H.topText t) := by
  cases t with
  | nil => exact H.digest_empty
  | leaf b => exact H.digest_leaf b
  | node l r => exact H.digest_node _ _

theorem topText_mem_texts (t : LeafTree β) : H.topText t ∈ H.texts t := by
  cases t <;> simp [topText, texts]

/-- Every leaf is hashed. -/
theorem leafText_mem_texts {t : LeafTree β} {b : β} (h : b ∈ t.leaves) :
    H.leafText b ∈ H.texts t := by
  induction t with
  | nil => simp [LeafTree.leaves] at h
  | leaf a =>
    obtain rfl : b = a := by simpa [LeafTree.leaves] using h
    exact List.mem_singleton_self _
  | node l r ihl ihr =>
    rw [LeafTree.leaves, List.mem_append] at h
    exact List.mem_cons_of_mem _ (List.mem_append.mpr (h.imp ihl ihr))

/-- Equal roots were hashed from the same string. -/
theorem topText_eq {texts : List Bytes} (free : ¬Collides texts) {s t : LeafTree β}
    (hs : H.texts s ⊆ texts) (ht : H.texts t ⊆ texts)
    (h : H.digest (H.root s) = H.digest (H.root t)) : H.topText s = H.topText t := by
  rw [digest_root, digest_root] at h
  exact eq_of_sha256_eq free (hs (H.topText_mem_texts s)) (ht (H.topText_mem_texts t)) h

theorem texts_left_subset {texts : List Bytes} {l r : LeafTree β}
    (h : H.texts (.node l r) ⊆ texts) : H.texts l ⊆ texts :=
  fun _ ha => h (List.mem_cons_of_mem _ (List.mem_append_left _ ha))

theorem texts_right_subset {texts : List Bytes} {l r : LeafTree β}
    (h : H.texts (.node l r) ⊆ texts) : H.texts r ⊆ texts :=
  fun _ ha => h (List.mem_cons_of_mem _ (List.mem_append_right _ ha))

/-- **Equal roots have equal trees**, unless two of the hashed strings collide: at every place, the
string hashed there tells whether there is a leaf, a node or nothing, and what is below it. -/
theorem eq_of_root_eq {texts : List Bytes} (free : ¬Collides texts) {s t : LeafTree β}
    (hs : H.texts s ⊆ texts) (ht : H.texts t ⊆ texts)
    (h : H.digest (H.root s) = H.digest (H.root t)) : s = t := by
  have htop := H.topText_eq free hs ht h
  induction s generalizing t with
  | nil =>
    cases t with
    | nil => rfl
    | leaf b => exact absurd htop.symm (H.leafText_ne_nil b)
    | node l r => exact absurd htop.symm (H.nodeText_ne_nil _ _)
  | leaf a =>
    cases t with
    | nil => exact absurd htop (H.leafText_ne_nil a)
    | leaf b => rw [H.leafText_injective htop]
    | node l r => exact absurd htop (H.leafText_ne_nodeText a _ _)
  | node l r ihl ihr =>
    cases t with
    | nil => exact absurd htop (H.nodeText_ne_nil _ _)
    | leaf b => exact absurd htop.symm (H.leafText_ne_nodeText b _ _)
    | node l' r' =>
      obtain ⟨hl, hr⟩ := H.nodeText_injective htop
      have hsl := H.texts_left_subset hs
      have hsr := H.texts_right_subset hs
      have htl := H.texts_left_subset ht
      have htr := H.texts_right_subset ht
      rw [ihl hsl htl (by rw [hl]) (H.topText_eq free hsl htl (by rw [hl])),
        ihr hsr htr (by rw [hr]) (H.topText_eq free hsr htr (by rw [hr]))]

/-- Lists with the same root are the same, unless two of the hashed strings collide. -/
theorem list_eq_of_root_eq {texts : List Bytes} (free : ¬Collides texts) {xs ys : List β}
    (hx : H.texts (LeafTree.ofList xs) ⊆ texts) (hy : H.texts (LeafTree.ofList ys) ⊆ texts)
    (h : H.digest (H.root (LeafTree.ofList xs)) = H.digest (H.root (LeafTree.ofList ys))) :
    xs = ys := by
  rw [← LeafTree.leaves_ofList xs, H.eq_of_root_eq free hx hy h, LeafTree.leaves_ofList]

/-- **An opening with the root of a tree is the upper part of this tree**, unless two of the hashed
strings collide: what it took on faith are the roots of subtrees, side by side, and these have all
leaves of the tree. The nodes of the opening may be joined by other rules than those of the tree, as
long as the same strings are hashed. -/
theorem exists_subtrees (H' : Hashing α β) (hdigest : H'.digest = H.digest)
    (hnode : H'.nodeText = H.nodeText) {texts : List Bytes} (free : ¬Collides texts)
    {o : Opening α} {t : LeafTree β} (ho : H'.openingTexts o ⊆ texts) (ht : H.texts t ⊆ texts)
    (h : H'.value o = H.root t) :
    ∃ subtrees : List (LeafTree β), subtrees.map H.root = o.frontier ∧
      subtrees.flatMap LeafTree.leaves = t.leaves ∧ ∀ s ∈ subtrees, H.texts s ⊆ texts := by
  induction o generalizing t with
  | given a =>
    exact ⟨[t], by simpa [Opening.frontier, value] using h.symm, by simp, by simpa using ht⟩
  | join l r ihl ihr =>
    -- the string of the uppermost node is hashed for the opening and for the tree
    have hmem : H'.nodeText (H'.value l) (H'.value r) ∈ texts := ho (by simp [openingTexts])
    have htop : H.nodeText (H'.value l) (H'.value r) = H.topText t := by
      rw [← hnode]
      refine eq_of_sha256_eq free hmem (ht (H.topText_mem_texts t)) ?_
      rw [← digest_root, ← h, ← hdigest]
      exact (H'.digest_node _ _).symm
    cases t with
    | nil => exact absurd htop (H.nodeText_ne_nil _ _)
    | leaf b => exact absurd htop.symm (H.leafText_ne_nodeText b _ _)
    | node l' r' =>
      obtain ⟨hl, hr⟩ := H.nodeText_injective htop
      have hol : H'.openingTexts l ⊆ texts := fun a ha => ho (by simp [openingTexts, ha])
      have hor : H'.openingTexts r ⊆ texts := fun a ha => ho (by simp [openingTexts, ha])
      obtain ⟨ls, hlroot, hlleaves, hltexts⟩ := ihl hol (H.texts_left_subset ht) hl
      obtain ⟨rs, hrroot, hrleaves, hrtexts⟩ := ihr hor (H.texts_right_subset ht) hr
      refine ⟨ls ++ rs, ?_, ?_, fun s hs => ?_⟩
      · rw [List.map_append, hlroot, hrroot, Opening.frontier]
      · rw [List.flatMap_append, hlleaves, hrleaves, LeafTree.leaves]
      · exact (List.mem_append.mp hs).elim (hltexts s) (hrtexts s)

end Hashing

/-! ### Trees of digests -/

/-- Plain trees: a value is a digest, and the first byte tells leaves from nodes. -/
def hashing : Hashing Digest Bytes where
  empty := emptyHash
  leaf := leafHash
  node := innerHash
  digest := id
  leafText b := 0 :: b
  nodeText l r := 1 :: (l.bytes ++ r.bytes)
  digest_empty := rfl
  digest_leaf _ := rfl
  digest_node _ _ := rfl
  leafText_injective _ _ h := (List.cons.inj h).2
  nodeText_injective h := by
    obtain ⟨hl, hr⟩ := List.append_inj (List.cons.inj h).2
      (by rw [Digest.length_bytes, Digest.length_bytes])
    exact ⟨Digest.ext hl, Digest.ext hr⟩
  leafText_ne_nodeText _ _ _ h := absurd (List.cons.inj h).1 (by decide)
  leafText_ne_nil _ := List.cons_ne_nil _ _
  nodeText_ne_nil _ _ := List.cons_ne_nil _ _

/-- The strings that are hashed for the root over some byte strings. -/
def texts (leaves : List Bytes) : List Bytes :=
  hashing.texts (LeafTree.ofList leaves)

theorem root_eq (leaves : List Bytes) : root leaves = hashing.root (LeafTree.ofList leaves) :=
  (hashing.root_ofList leaves).symm

/-- **A root binds its leaves**, their number included, unless two of the hashed strings collide. -/
theorem leaves_eq_of_root_eq {all : List Bytes} (free : ¬Collides all) {xs ys : List Bytes}
    (hx : texts xs ⊆ all) (hy : texts ys ⊆ all) (h : root xs = root ys) : xs = ys := by
  rw [root_eq, root_eq] at h
  exact hashing.list_eq_of_root_eq free hx hy h

end Merkle

end Availability
