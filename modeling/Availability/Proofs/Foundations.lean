import Availability.Proofs.Chain.Header
import Availability.Proofs.Nmt.RangeComplete

/-!
# What the network rests on

Two things that a network of this kind is built on are not its own. The trees with namespaces come
with proofs for a whole namespace, and consensus has its hashes of headers and of validators. Both
are libraries in their own right, and other ones may take their place. What is to be known of them
is little: a proof is accepted exactly when nothing was left out, and a hash tells what was hashed.

* `Foundations` – **what is relied on** of the four functions that come from elsewhere, and nothing
  else of what they do;
* `foundations` – the functions as they are defined here have it all;
* `Nmt.Proves`, `Nmt.proves_of_contains` – a tree proves what it has of a namespace.

Only one thing is out of reach. The tree without leaves has a root of zero namespaces, and another
tree of the namespace of zeros alone can only be told from it as long as its hash is not that of no
bytes at all. What a proof of this namespace is worth is then a matter of the hash function.
-/

namespace Availability

/-- What is relied on of the proofs for whole namespaces, and of the hashes by which consensus
refers to headers and validators. -/
structure Foundations
    (prove : Nmt → Namespace → NamespaceProof)
    (verifyComplete : NamespaceProof → NamespacedHash → List Bytes → Namespace →
      Except RangeFault Unit)
    (headerHash : BlockHeader → Digest) (validatorsHash : ValidatorSet → Digest) : Prop where
  /-- **The proof for a namespace in the range of a tree is accepted**, with all leaves of the
  namespace. It is one of absence exactly if there are none. -/
  complete {tree : Nmt} {ns : Namespace} (hin : tree.root.contains ns = true)
    (hsize : tree.leaves.length ≤ 2 ^ 31) :
    (prove tree ns).isOfAbsence = (tree.dataOf ns).isEmpty ∧
      verifyComplete (prove tree ns) tree.root (tree.dataOf ns) ns = .ok ()
  /-- **Only all leaves of a namespace are accepted**, unless two of the hashed strings collide. -/
  sound {all : List Bytes} (free : ¬Collides all) {proof : NamespaceProof}
    {leaves : List Nmt.Leaf} (hleaves : Nmt.texts leaves ⊆ all) {ns : Namespace}
    {data : List Bytes} (hproof : proof.completeTexts ns data ⊆ all)
    (hasc : leaves.Pairwise fun a b => a.ns ≤ b.ns) (hns : ns ≠ .parity)
    (hin : ns.isOutside (Nmt.rootOver leaves) (Nmt.rootOver leaves) = false)
    (hkind : data.isEmpty = proof.isOfAbsence)
    (h : verifyComplete proof (Nmt.rootOver leaves) data ns = .ok ()) :
    (leaves.filter fun leaf => leaf.ns = ns) = data.map fun bytes => ⟨ns, bytes⟩
  /-- **Headers with the same hash match**, unless two of the hashed strings collide. -/
  header_inj {all : List Bytes} (free : ¬Collides all) {a b : BlockHeader}
    (ha : Merkle.texts a.leaves ⊆ all) (hb : Merkle.texts b.leaves ⊆ all)
    (h : headerHash a = headerHash b) : a.Matches b
  /-- **Sets with the same hash have the same validators**, unless two of the hashed strings
  collide. -/
  validators_inj {all : List Bytes} (free : ¬Collides all) {a b : ValidatorSet}
    (ha : Merkle.texts (a.validators.map Validator.toRecord) ⊆ all)
    (hb : Merkle.texts (b.validators.map Validator.toRecord) ⊆ all)
    (h : validatorsHash a = validatorsHash b) : a.validators = b.validators

/-- **The functions of this library are such foundations.** -/
theorem foundations : Foundations Nmt.prove NamespaceProof.verifyComplete BlockHeader.hash
    ValidatorSet.hash where
  complete := Nmt.verifyComplete_prove
  sound := NamespaceProof.filter_eq_of_verifyComplete
  header_inj free _ _ ha hb h :=
    BlockHeader.matches_of_leaves_eq (Merkle.leaves_eq_of_root_eq free ha hb h)
  validators_inj free _ _ ha hb h :=
    List.map_injective_iff.mpr Validator.toRecord_injective
      (Merkle.leaves_eq_of_root_eq free ha hb h)

/-- A tree proves what it has of a namespace: its proof is accepted with all leaves of the
namespace, and it is one of absence exactly if there are none. -/
structure Nmt.Proves (tree : Nmt) (ns : Namespace) : Prop where
  /-- The proof is of the kind that fits the leaves. -/
  isOfAbsence_eq : (tree.prove ns).isOfAbsence = (tree.dataOf ns).isEmpty
  /-- The proof is accepted. -/
  accepted : (tree.prove ns).verifyComplete tree.root (tree.dataOf ns) ns = .ok ()

/-- **A tree proves every namespace in its range**, as long as its root can be told from that of the
tree without leaves. -/
theorem Nmt.proves_of_contains {tree : Nmt} {ns : Namespace} (hin : tree.root.contains ns = true)
    (hsize : tree.leaves.length ≤ 2 ^ 31) : tree.Proves ns := by
  obtain ⟨hkind, haccepted⟩ := foundations.complete hin hsize
  exact ⟨hkind, haccepted⟩

end Availability
