import Availability.Client.Pool
import Mathlib.Data.List.Induction
import Mathlib.Tactic.Common

/-!
# Closing reaches every client

Clients come to a closer at any time: before it is closed, after that, or more than once. Besides
they may be closed one by one. Nobody knows the order in which all this happens, so what can be said
of a pool has to follow from **what was done**, whatever the order was.

* `run` – the pool after some actions;
* `registered` – the clients that were handed to the closer, in order;
* `Reflects` – what a pool shows of the actions that led to it. While the closer is open, it holds
  the registered clients and closes none of them; after that, it has closed all of them;
* `Reflects.act` – one more action keeps this, and `reflects_run` says it of all actions;
* `closing_reaches_all` – the conclusions that users of a closer rely on.
-/

namespace Availability.ClientPool

/-- The pool after some actions. -/
def run (actions : List Action) : ClientPool :=
  actions.foldl act empty

theorem run_concat (actions : List Action) (action : Action) :
    run (actions ++ [action]) = (run actions).act action := by
  rw [run, List.foldl_append, List.foldl_cons, List.foldl_nil, run]

/-- The client that an action hands to the closer. -/
def Action.registered? : Action → Option ClientId
  | .register client => some client
  | _ => none

/-- The clients that were handed to the closer, in order. -/
def registered (actions : List Action) : List ClientId :=
  actions.filterMap Action.registered?

theorem registered_concat (actions : List Action) (action : Action) :
    registered (actions ++ [action]) = registered actions ++ action.registered?.toList := by
  rw [registered, List.filterMap_append]
  cases action <;> rfl

theorem mem_registered {actions : List Action} {client : ClientId} :
    client ∈ registered actions ↔ .register client ∈ actions := by
  rw [registered, List.mem_filterMap]
  constructor
  · rintro ⟨action, haction, hclient⟩
    cases action with
    | register other =>
      obtain rfl := Option.some.inj hclient
      exact haction
    | closeAll => cases hclient
    | close other => cases hclient
  · intro h
    exact ⟨_, h, rfl⟩

/-! ### One action -/

section Act

variable {pool : ClientPool} {client other : ClientId}

/-- A pool is open as long as it holds clients, if only none. -/
theorem isClosed_eq_false_iff : pool.isClosed = false ↔ ∃ clients, pool.held = some clients := by
  rw [isClosed, Option.isNone_eq_false_iff, Option.isSome_iff_exists]

theorem isClosed_eq_true_iff : pool.isClosed = true ↔ pool.held = none :=
  Option.isNone_iff_eq_none

theorem isClientClosed_iff : pool.isClientClosed client = true ↔ client ∈ pool.closed :=
  List.contains_iff_mem

/-- Closing one client closes no other. -/
theorem isClientClosed_close :
    (pool.close other).isClientClosed client = true ↔
      pool.isClientClosed client = true ∨ client = other := by
  simp only [isClientClosed_iff, close, List.mem_append, List.mem_singleton]

/-- An open closer takes a client as it is. -/
theorem register_of_open {clients : List ClientId} (h : pool.held = some clients) :
    pool.register client = { pool with held := some (clients ++ [client]) } := by
  rw [register, h]

/-- A client that comes too late is closed at once. -/
theorem register_of_closed (h : pool.held = none) : pool.register client = pool.close client := by
  rw [register, h]

/-- The clients that a closer holds are closed with it. -/
theorem closeAll_of_open {clients : List ClientId} (h : pool.held = some clients) :
    pool.closeAll = { held := none, closed := pool.closed ++ clients } := by
  rw [closeAll, h]

/-- **A closed closer has nothing to close.** -/
theorem closeAll_of_closed (h : pool.held = none) : pool.closeAll = pool := by
  rw [closeAll, h]

end Act

/-! ### All actions -/

/-- What a pool shows of the actions that led to it. -/
structure Reflects (pool : ClientPool) (actions : List Action) : Prop where
  /-- The closer is closed when it was asked to be. -/
  isClosed_iff : pool.isClosed = true ↔ .closeAll ∈ actions
  /-- An open closer holds all clients that it was handed, in order. -/
  held_of_open : pool.isClosed = false → pool.held = some (registered actions)
  /-- A client is closed when it was asked to be, or when the closer of it is closed. -/
  client_iff : ∀ client, pool.isClientClosed client = true ↔
    .close client ∈ actions ∨ (pool.isClosed = true ∧ client ∈ registered actions)

theorem reflects_empty : Reflects empty [] where
  isClosed_iff := by decide
  held_of_open _ := rfl
  client_iff client := by simp [isClientClosed, empty, isClosed]

section Step

variable {pool : ClientPool} {actions : List Action} (h : Reflects pool actions)
include h

/-- Taking a client keeps what a pool shows. Whether the client is held or closed, it is where the
registered clients are. -/
theorem Reflects.register (client : ClientId) :
    Reflects (pool.register client) (actions ++ [.register client]) := by
  have hregistered := registered_concat actions (.register client)
  cases hheld : pool.held with
  | some clients =>
    have hopen := isClosed_eq_false_iff.mpr ⟨clients, hheld⟩
    obtain rfl := Option.some.inj (hheld.symm.trans (h.held_of_open hopen))
    rw [register_of_open hheld]
    refine ⟨?_, fun _ => ?_, fun other => ?_⟩
    · rw [List.mem_append, ← h.isClosed_iff, hopen]
      simp [isClosed]
    · rw [hregistered]
      rfl
    · have hother := h.client_iff other
      rw [hopen] at hother
      simpa [isClientClosed, isClosed] using hother
  | none =>
    have hclosed := isClosed_eq_true_iff.mpr hheld
    rw [register_of_closed hheld]
    refine ⟨?_, fun hopen => ?_, fun other => ?_⟩
    · rw [List.mem_append, ← h.isClosed_iff]
      exact ⟨Or.inl, fun _ => hclosed⟩
    · exact absurd (hclosed.symm.trans hopen) (by decide)
    · have hafter : (pool.close client).isClosed = true := hclosed
      rw [isClientClosed_close, h.client_iff, hclosed, hafter, hregistered]
      simp [Action.registered?, or_assoc]

/-- Closing the closer keeps what a pool shows: all registered clients were held until now. -/
theorem Reflects.closeAll : Reflects pool.closeAll (actions ++ [.closeAll]) := by
  have hregistered : registered (actions ++ [.closeAll]) = registered actions :=
    (registered_concat _ _).trans (List.append_nil _)
  cases hheld : pool.held with
  | some clients =>
    have hopen := isClosed_eq_false_iff.mpr ⟨clients, hheld⟩
    obtain rfl := Option.some.inj (hheld.symm.trans (h.held_of_open hopen))
    rw [closeAll_of_open hheld]
    refine ⟨?_, fun hstill => ?_, fun client => ?_⟩
    · simp [isClosed]
    · exact absurd hstill (by simp [isClosed])
    · have hclient := h.client_iff client
      rw [hopen, isClientClosed_iff] at hclient
      rw [hregistered]
      simp [isClientClosed, isClosed, hclient]
  | none =>
    have hclosed := isClosed_eq_true_iff.mpr hheld
    rw [closeAll_of_closed hheld]
    refine ⟨?_, fun hopen => ?_, fun client => ?_⟩
    · simp [hclosed]
    · exact absurd (hclosed.symm.trans hopen) (by decide)
    · rw [h.client_iff, hregistered]
      simp

/-- Closing one client keeps what a pool shows. -/
theorem Reflects.close (client : ClientId) :
    Reflects (pool.close client) (actions ++ [.close client]) := by
  have hregistered : registered (actions ++ [.close client]) = registered actions :=
    (registered_concat _ _).trans (List.append_nil _)
  have hsame : (pool.close client).isClosed = pool.isClosed := rfl
  refine ⟨?_, fun hopen => ?_, fun other => ?_⟩
  · rw [hsame, h.isClosed_iff]
    simp
  · rw [hregistered]
    exact h.held_of_open hopen
  · rw [isClientClosed_close, h.client_iff, hsame, hregistered]
    simp only [List.mem_append, List.mem_singleton, Action.close.injEq]
    exact or_right_comm

/-- **One more action keeps what a pool shows.** -/
theorem Reflects.act (action : Action) : Reflects (pool.act action) (actions ++ [action]) := by
  cases action with
  | register client => exact h.register client
  | closeAll => exact h.closeAll
  | close client => exact h.close client

end Step

/-- **A pool shows what was done**, from its first action on. -/
theorem reflects_run (actions : List Action) : Reflects (run actions) actions := by
  induction actions using List.reverseRecOn with
  | nil => exact reflects_empty
  | append_singleton actions action ih =>
    rw [run_concat]
    exact ih.act action

/-- **Closing reaches every client.** After any actions, in any order: the closer is closed when it
was asked to be, and only then. A closer that is closed stays so, whatever is done next; then all
clients that were ever handed to it are closed, before or after the closing, and closing it again
changes nothing. Until then it holds exactly the clients that it was handed, in order, and none of
the clients is closed but those that were closed on their own. -/
theorem closing_reaches_all (actions : List Action) :
    ((run actions).isClosed = true ↔ .closeAll ∈ actions) ∧
      (∀ more, (run actions).isClosed = true → (run (actions ++ more)).isClosed = true) ∧
      ((run actions).isClosed = true →
        (∀ client, .register client ∈ actions → (run actions).isClientClosed client = true) ∧
          run (actions ++ [.closeAll]) = run actions) ∧
      ((run actions).isClosed = false →
        (run actions).held = some (registered actions) ∧
          ∀ client, (run actions).isClientClosed client = true ↔ .close client ∈ actions) := by
  have h := reflects_run actions
  refine ⟨h.isClosed_iff, fun more hclosed => ?_, fun hclosed => ⟨fun client hclient => ?_, ?_⟩,
    fun hopen => ?_⟩
  · exact (reflects_run _).isClosed_iff.mpr
      (List.mem_append_left more (h.isClosed_iff.mp hclosed))
  · exact (h.client_iff client).mpr (Or.inr ⟨hclosed, mem_registered.mpr hclient⟩)
  · rw [run_concat]
    exact closeAll_of_closed (isClosed_eq_true_iff.mp hclosed)
  · refine ⟨h.held_of_open hopen, fun client => ?_⟩
    rw [h.client_iff, hopen]
    simp

/-- A client is closed on its own, another one with the closer, and a third one comes too late. -/
def lateActions : List Action :=
  [.register 1, .close 0, .register 0, .closeAll, .register 2]

/-- Before the closing two clients are held and one of them is closed; after it all three are
closed, the one that comes too late among them, and closing again changes nothing. -/
theorem closing_reaches_all_late :
    ((run (lateActions.take 3)).isClosed = false ∧
        (run (lateActions.take 3)).held = some [1, 0] ∧
        ((run (lateActions.take 3)).isClientClosed 0 = true ∧
          ¬(run (lateActions.take 3)).isClientClosed 1 = true)) ∧
      (run lateActions).isClosed = true ∧
      (∀ client ∈ [0, 1, 2], (run lateActions).isClientClosed client = true) ∧
      run (lateActions ++ [.closeAll]) = run lateActions := by
  have hbefore := closing_reaches_all (lateActions.take 3)
  have hafter := closing_reaches_all lateActions
  have hopen : (run (lateActions.take 3)).isClosed = false :=
    Bool.eq_false_iff.mpr (mt hbefore.1.mp (by decide))
  have hclosed : (run lateActions).isClosed = true := hafter.1.mpr (by decide)
  obtain ⟨hheld, hclient⟩ := hbefore.2.2.2 hopen
  obtain ⟨hreached, hagain⟩ := hafter.2.2.1 hclosed
  refine ⟨⟨hopen, hheld, (hclient 0).mpr (by decide), mt (hclient 1).mp (by decide)⟩, hclosed, ?_,
    hagain⟩
  intro client hmem
  apply hreached
  revert client
  decide

/-- Which clients are closed, in the order in which they are. -/
example : (run lateActions).closed = [0, 1, 0, 2] := by decide

end Availability.ClientPool
