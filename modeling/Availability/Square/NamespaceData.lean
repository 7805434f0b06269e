import Availability.Nmt.Proof
import Availability.Square

/-!
# The data of a namespace in a square

A node answers for the data of a namespace with the shares of each row whose range contains the
namespace, and with a proof that they are all there are.

* `NamespaceRow`, `NamespaceData` – such an answer, with **nothing** guaranteed about it;
* `NamespaceData.verify` – checks an answer against the header of the square;
* `ExtendedSquare.namespaceData` – the answer that a square gives.
-/

namespace Availability

/-- The shares of a namespace in one row. -/
structure NamespaceRow where
  /-- The shares, from left to right. -/
  shares : List Share
  /-- The proof that these are all, or that there are none. -/
  proof : NamespaceProof
deriving DecidableEq

/-- The shares of a namespace in a square. -/
structure NamespaceData where
  /-- The rows whose range contains the namespace, from top to bottom. -/
  rows : List NamespaceRow
deriving DecidableEq

namespace NamespaceRow

/-- Checks that the row has exactly the given shares of the namespace. -/
def verify (row : NamespaceRow) (ns : Namespace) (rowRoot : NamespacedHash) : Except Error Unit :=
  if row.shares.isEmpty ≠ row.proof.isOfAbsence then .error .proofKind
  else (row.proof.verifyComplete rowRoot (row.shares.map Share.bytes) ns).mapError .range

end NamespaceRow

namespace NamespaceData

/-- All shares, row by row. -/
def shares (data : NamespaceData) : List Share :=
  data.rows.flatMap NamespaceRow.shares

/-- Checks each row against its root. -/
def verifyRows (ns : Namespace) : List NamespaceRow → List NamespacedHash → Except Error Unit
  | row :: rows, root :: roots => do
    row.verify ns root
    verifyRows ns rows roots
  | _, _ => .ok ()

/-- Checks that the square of the header has exactly the given shares of the namespace. -/
def verify (data : NamespaceData) (ns : Namespace) (header : AvailabilityHeader) :
    Except Error Unit :=
  let roots := header.rowRoots.filter fun root => !ns.isOutside root root
  if roots.length ≠ data.rows.length then
    .error (.sequence (.rowCount roots.length data.rows.length))
  else verifyRows ns data.rows roots

end NamespaceData

namespace ExtendedSquare

/-- The shares of a namespace among some columns of a row. The namespaces of a row never decrease,
so the first larger one ends the search. -/
def collect (square : ExtendedSquare) (ns : Namespace) (row : Nat) :
    (columns : List Nat) → Except Error (List Share)
  | [] => .ok []
  | column :: columns => do
    let share ← square.share row column
    if ns < share.ns then return []
    let shares ← square.collect ns row columns
    return if share.ns = ns then share :: shares else shares

/-- The shares of a namespace in a row, with their proof. -/
def namespaceRow (square : ExtendedSquare) (ns : Namespace) (row : Nat) :
    Except Error NamespaceRow := do
  let shares ← square.collect ns row (List.range square.dataWidth)
  let tree ← square.tree .row row
  return { shares, proof := tree.prove ns }

/-- The shares of a namespace in the rows whose range, by the given header, contains it. -/
def namespaceData (square : ExtendedSquare) (ns : Namespace) (header : AvailabilityHeader) :
    Except Error NamespaceData := do
  let rows := ((List.range square.dataWidth).zip header.rowRoots).filter fun (_, root) =>
    !ns.isOutside root root
  return { rows := ← rows.mapM fun (row, _) => square.namespaceRow ns row }

end ExtendedSquare

end Availability
