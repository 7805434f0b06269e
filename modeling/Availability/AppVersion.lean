/-!
# Versions of the application

The rules of a chain are those of the version of the application that its blocks name.

* `AppVersion` – the known versions;
* `AppVersion.squareBound`, `AppVersion.subtreeRootThreshold` – the parameters of a version.
-/

namespace Availability

/-- The known versions of the application. -/
inductive AppVersion where
  /-- The first version. -/
  | v1
  /-- The second version. -/
  | v2
  /-- The third version. -/
  | v3
  /-- The fourth version. -/
  | v4
deriving DecidableEq

namespace AppVersion

/-- The number of a version. -/
def number : AppVersion → Nat
  | v1 => 1
  | v2 => 2
  | v3 => 3
  | v4 => 4

/-- The version of a number. -/
def ofNat? : Nat → Option AppVersion
  | 1 => some v1
  | 2 => some v2
  | 3 => some v3
  | 4 => some v4
  | _ => none

@[simp] theorem ofNat?_number (v : AppVersion) : ofNat? v.number = some v := by
  cases v <;> rfl

/-- The newest version. -/
def latest : AppVersion := v4

/-- The largest width of a data square before it is extended. -/
def squareBound : AppVersion → Nat
  | v1 | v2 | v3 | v4 => 128

/-- How many subtree roots a blob may have before its subtrees are made larger. -/
def subtreeRootThreshold : AppVersion → Nat
  | v1 | v2 | v3 | v4 => 64

/-- The largest width of an extended data square. -/
def extendedBound (v : AppVersion) : Nat :=
  2 * v.squareBound

end AppVersion

/-- The smallest width of an extended data square. -/
def minExtendedWidth : Nat := 2

end Availability
