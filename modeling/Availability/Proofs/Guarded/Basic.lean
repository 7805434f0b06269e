import Availability.Error
import Availability.Nmt.Hash
import Availability.Proofs.Checked

/-!
# Runs of a machine

The checks of the library reckon with numbers and lists of any size. A machine has numbers of 64
bits, and a run of it **breaks** when a result does not fit, when a list is split behind its end, or
when nodes are hashed that are not in order. Nothing that an attacker sends may bring this about: it
has to be refused before. To see that it is, the checks are made once more, step by step as a
machine makes them, with a guard before every operation that could break the run.

* `Stop` – the two ways in which a run ends without a result: it is refused, or it breaks;
* `ensure`, `add`, `mul`, `sub`, `log2`, `hashNodes` – operations under their **guards**;
* `Agrees` – a run gives what a check gives, and so **never breaks**; what is refused is refused for
  a cause that shows a proof not to hold.
-/

namespace Availability

/-- Causes that show a proof not to hold: those of this kind, and that the proof is malformed. -/
def Error.Refutes : Error → Prop
  | .malformed _ | .namespacedHash => True
  | error => error.kind = .invalidProof

namespace Guarded

/-! ### Runs -/

/-- What breaks a run. -/
inductive Fault where
  /-- A sum or a product needs more than 64 bits. -/
  | overflow
  /-- A difference is below zero. -/
  | negative
  /-- A list is split behind its end. -/
  | outside
  /-- The logarithm of zero is asked for. -/
  | logOfZero
  /-- Nodes are hashed whose namespaces are not in order. -/
  | unordered
  /-- A loop comes no closer to its end. -/
  | endless
deriving DecidableEq

/-- Why a run ends without a result. -/
inductive Stop where
  /-- A check fails. -/
  | refused (error : Error)
  /-- An operation cannot be done. -/
  | broken (fault : Fault)
deriving DecidableEq

/-- A run that goes on if a guard holds, and breaks if not. -/
def ensure {α : Type} (guard : Prop) [Decidable guard] (fault : Fault)
    (next : guard → Except Stop α) : Except Stop α :=
  if h : guard then next h else .error (.broken fault)

/-- The sum of two numbers. -/
def add (m n : Nat) : Except Stop Nat :=
  ensure (m + n < UInt64.size) .overflow fun _ => .ok (m + n)

/-- The product of two numbers. -/
def mul (m n : Nat) : Except Stop Nat :=
  ensure (m * n < UInt64.size) .overflow fun _ => .ok (m * n)

/-- The difference of two numbers. -/
def sub (m n : Nat) : Except Stop Nat :=
  ensure (n ≤ m) .negative fun _ => .ok (m - n)

/-- The rounded down logarithm of a number. -/
def log2 (n : Nat) : Except Stop Nat :=
  ensure (n ≠ 0) .logOfZero fun _ => .ok n.log2

/-- The hash of two neighbouring nodes. -/
def hashNodes (ignoreMax : Bool) (left right : NamespacedHash) : Except Stop NamespacedHash :=
  ensure (left.max ≤ right.min) .unordered fun _ => .ok (.node ignoreMax left right)

section Operations

variable {α : Type} {m n : Nat}

theorem ensure_of {guard : Prop} [Decidable guard] (h : guard) (fault : Fault)
    (next : guard → Except Stop α) : ensure guard fault next = next h :=
  dif_pos h

theorem add_eq (h : m + n < UInt64.size) : add m n = .ok (m + n) :=
  ensure_of h _ _

theorem mul_eq (h : m * n < UInt64.size) : mul m n = .ok (m * n) :=
  ensure_of h _ _

theorem sub_eq (h : n ≤ m) : sub m n = .ok (m - n) :=
  ensure_of h _ _

theorem log2_eq (h : n ≠ 0) : log2 n = .ok n.log2 :=
  ensure_of h _ _

end Operations

/-! ### Runs that agree with checks -/

/-- **A run agrees with a check** when it gives the same result or is refused for the same cause.
The cause has to show that a proof does not hold. -/
structure Agrees {α : Type} (run : Except Stop α) (check : Except Error α) : Prop where
  /-- The run ends as the check does. -/
  run_eq : run = check.mapError .refused
  /-- Only proofs that do not hold are refused. -/
  refutes : ∀ error, check = .error error → error.Refutes

namespace Agrees

variable {α β : Type} {run run' : Except Stop α} {check check' : Except Error α}

theorem ok (a : α) : Agrees (.ok a) (.ok a) :=
  ⟨rfl, fun _ h => nomatch h⟩

theorem error {e : Error} (h : e.Refutes) : Agrees (α := α) (.error (.refused e)) (.error e) :=
  ⟨rfl, fun _ he => Except.error.inj he ▸ h⟩

/-- A check without anything that could break the run. -/
theorem ofCheck (hrefutes : ∀ e, check = .error e → e.Refutes) :
    Agrees (check.mapError .refused) check :=
  ⟨rfl, hrefutes⟩

/-- What follows a run that agrees only has to agree on its result. -/
theorem bind (h : Agrees run check) {next : α → Except Stop β} {next' : α → Except Error β}
    (hnext : ∀ a, check = .ok a → Agrees (next a) (next' a)) :
    Agrees (run >>= next) (check >>= next') := by
  obtain ⟨rfl, hrefutes⟩ := h
  cases check with
  | error e => exact error (hrefutes e rfl)
  | ok a => exact hnext a rfl

/-- A result is put into another form. -/
theorem map (h : Agrees run check) (f : α → β) : Agrees (f <$> run) (f <$> check) := by
  obtain ⟨rfl, hrefutes⟩ := h
  cases check with
  | error e => exact error (hrefutes e rfl)
  | ok a => exact ok (f a)

/-- Both go on in the same of two ways. -/
theorem ite {p : Prop} [Decidable p] (hpos : p → Agrees run check)
    (hneg : ¬p → Agrees run' check') :
    Agrees (if p then run else run') (if p then check else check') := by
  split
  case isTrue h => exact hpos h
  case isFalse h => exact hneg h

/-- Both are refused under a condition, and go on otherwise. -/
theorem refuse {p : Prop} [Decidable p] {e : Error} (he : e.Refutes)
    (hneg : ¬p → Agrees run check) :
    Agrees (if p then throw (.refused e) else run) (if p then throw e else check) :=
  ite (fun _ => error he) hneg

/-- Steps that agree make loops that agree. -/
theorem foldlM {step : β → α → Except Stop β} {step' : β → α → Except Error β}
    (h : ∀ b a, Agrees (step b a) (step' b a)) (xs : List α) (b : β) :
    Agrees (xs.foldlM step b) (xs.foldlM step' b) := by
  induction xs generalizing b with
  | nil => exact .ok b
  | cons a xs ih =>
    rw [List.foldlM_cons, List.foldlM_cons]
    exact (h b a).bind fun b _ => ih b

/-- A guard that holds may be passed over. -/
theorem ensure {guard : Prop} [Decidable guard] {fault : Fault} {next : guard → Except Stop α}
    (h : guard) (hnext : Agrees (next h) check) : Agrees (ensure guard fault next) check := by
  rwa [ensure_of h]

end Agrees

end Guarded

end Availability
