import Mathlib.Data.List.Forall2

/-!
# Chains of checks

Nearly everything in the library is a chain of checks, each of which may end it. What is known when
such a chain has come to its end:

* `bind_eq_ok_iff` – a step and what follows it;
* `mapM_eq_ok_iff`, `forM_eq_ok_iff` – the same check made for **every member of a list**.
-/

namespace Availability.Checked

variable {ε α β γ : Type}

@[simp] theorem bind_eq_ok_iff {x : Except ε α} {f : α → Except ε β} {b : β} :
    x >>= f = .ok b ↔ ∃ a, x = .ok a ∧ f a = .ok b := by
  cases x with
  | error e => simp [bind, Except.bind]
  | ok a => simp [bind, Except.bind]

/-- A step that only checks something has nothing to give. -/
@[simp] theorem exists_unit_iff {p : Unit → Prop} : (∃ u, p u) ↔ p () :=
  ⟨fun ⟨_, h⟩ => h, fun h => ⟨(), h⟩⟩

@[simp] theorem pure_eq_ok_iff {a b : α} : (pure a : Except ε α) = .ok b ↔ a = b := by
  simp [pure, Except.pure]

@[simp] theorem throw_ne_ok {e : ε} {a : α} : (throw e : Except ε α) ≠ .ok a := by
  simp [throw, throwThe, MonadExceptOf.throw]

theorem ok_bind {a : α} {f : α → Except ε β} : (.ok a : Except ε α) >>= f = f a := rfl

/-- Nothing follows a check that ended the chain. -/
@[simp] theorem throw_bind {e : ε} {f : α → Except ε β} :
    (throw e : Except ε α) >>= f = throw e := rfl

/-- A chain does not end for a cause for which none of its steps ends. -/
theorem bind_ne_error {x : Except ε α} {f : α → Except ε β} {e : ε} (hx : x ≠ .error e)
    (hf : ∀ a, x = .ok a → f a ≠ .error e) : x >>= f ≠ .error e := by
  cases x with
  | error cause =>
    intro heq
    exact hx (congrArg Except.error (Except.error.inj heq))
  | ok a => exact hf a rfl

@[simp] theorem mapError_eq_ok_iff {δ : Type} {x : Except ε α} {f : ε → δ} {a : α} :
    x.mapError f = .ok a ↔ x = .ok a := by
  cases x with
  | error e => simp [Except.mapError]
  | ok b => simp [Except.mapError]

@[simp] theorem map_eq_ok_iff {x : Except ε α} {f : α → β} {b : β} :
    f <$> x = .ok b ↔ ∃ a, x = .ok a ∧ f a = b := by
  cases x with
  | error e => simp [Functor.map, Except.map]
  | ok a => simp [Functor.map, Except.map]

theorem toOption_eq_some_iff {x : Except ε α} {a : α} : x.toOption = some a ↔ x = .ok a := by
  cases x with
  | error e => simp [Except.toOption]
  | ok b => simp [Except.toOption]

/-- The cause of a failure has nothing to do with what becomes of a result. -/
theorem mapError_map {δ : Type} (f : α → β) (g : ε → δ) (x : Except ε α) :
    (f <$> x).mapError g = f <$> x.mapError g := by
  cases x <;> rfl

/-- A condition that ends the chain when it holds. -/
@[simp] theorem ite_throw_eq_ok_iff {p : Prop} [Decidable p] {e : ε} {x : Except ε α} {a : α} :
    (if p then throw e else x) = .ok a ↔ ¬p ∧ x = .ok a := by
  split
  case isTrue hp => simp [hp]
  case isFalse hp => simp [hp]

/-- **A check of every member of a list** succeeds when each of them does, with all results in
order. -/
theorem mapM_eq_ok_iff {f : α → Except ε β} {xs : List α} {ys : List β} :
    xs.mapM f = .ok ys ↔ List.Forall₂ (fun x y => f x = .ok y) xs ys := by
  induction xs generalizing ys with
  | nil => cases ys <;> simp
  | cons x xs ih =>
    rw [List.mapM_cons]
    simp only [bind_eq_ok_iff, pure_eq_ok_iff, ih]
    constructor
    · rintro ⟨y, hy, ys, hys, rfl⟩
      exact .cons hy hys
    · rintro (_ | ⟨hy, hys⟩)
      exact ⟨_, hy, _, hys, rfl⟩

/-- A check that gives nothing succeeds on a list when it does on every member. -/
theorem forM_eq_ok_iff {f : α → Except ε Unit} {xs : List α} :
    xs.forM f = .ok () ↔ ∀ x ∈ xs, f x = .ok () := by
  induction xs with
  | nil => exact iff_of_true rfl fun _ h => absurd h List.not_mem_nil
  | cons x xs ih =>
    rw [List.forM, bind_eq_ok_iff, exists_unit_iff, ih, List.forall_mem_cons]

/-- A list on which not every check succeeds has a first member on which it fails. -/
theorem forall_ok_or_first_error (f : α → Except ε β) (xs : List α) :
    (∀ x ∈ xs, ∃ y, f x = .ok y) ∨
      ∃ before x after e, xs = before ++ x :: after ∧ (∀ x' ∈ before, ∃ y, f x' = .ok y) ∧
        f x = .error e := by
  induction xs with
  | nil => exact Or.inl fun _ h => absurd h List.not_mem_nil
  | cons x xs ih =>
    cases hx : f x with
    | error e => exact Or.inr ⟨[], x, xs, e, rfl, fun _ h => absurd h List.not_mem_nil, hx⟩
    | ok y =>
      rcases ih with hall | ⟨before, failed, after, e, rfl, hbefore, hfailed⟩
      · exact Or.inl (List.forall_mem_cons.mpr ⟨⟨y, hx⟩, hall⟩)
      · exact Or.inr ⟨x :: before, failed, after, e, rfl,
          List.forall_mem_cons.mpr ⟨⟨y, hx⟩, hbefore⟩, hfailed⟩

/-- A check that succeeds on all members computes a function on them. -/
theorem mapM_eq_ok_map {f : α → Except ε β} {g : α → β} {xs : List α}
    (h : ∀ x ∈ xs, f x = .ok (g x)) : xs.mapM f = .ok (xs.map g) := by
  rw [mapM_eq_ok_iff, List.forall₂_map_right_iff, List.forall₂_same]
  exact h

/-- A check that succeeds on each member succeeds on all of them. -/
theorem exists_mapM_eq_ok {f : α → Except ε β} {xs : List α} (h : ∀ x ∈ xs, ∃ y, f x = .ok y) :
    ∃ ys, xs.mapM f = .ok ys := by
  induction xs with
  | nil => exact ⟨[], rfl⟩
  | cons x xs ih =>
    obtain ⟨y, hy⟩ := h x (by simp)
    obtain ⟨ys, hys⟩ := ih fun x' hx' => h x' (by simp [hx'])
    exact ⟨y :: ys, mapM_eq_ok_iff.mpr (.cons hy (mapM_eq_ok_iff.mp hys))⟩

/-- What is known of the result for each member is known of all members and their results. -/
theorem forall₂_of_mapM_eq_ok {f : α → Except ε β} {p : α → β → Prop} {xs : List α} {ys : List β}
    (hys : xs.mapM f = .ok ys) (hp : ∀ x ∈ xs, ∀ y, f x = .ok y → p x y) :
    List.Forall₂ p xs ys := by
  induction xs generalizing ys with
  | nil =>
    obtain rfl := List.forall₂_nil_left_iff.mp (mapM_eq_ok_iff.mp hys)
    exact .nil
  | cons x xs ih =>
    obtain ⟨y, ys, hy, hrest, rfl⟩ := List.forall₂_cons_left_iff.mp (mapM_eq_ok_iff.mp hys)
    exact .cons (hp x (by simp) y hy)
      (ih (mapM_eq_ok_iff.mpr hrest) fun x' hx' => hp x' (by simp [hx']))

theorem length_of_mapM_eq_ok {f : α → Except ε β} {xs : List α} {ys : List β}
    (h : xs.mapM f = .ok ys) : ys.length = xs.length :=
  (mapM_eq_ok_iff.mp h).length_eq.symm

/-- The result for a member stands at the place of the member. -/
theorem exists_of_mapM_eq_ok {f : α → Except ε β} {xs : List α} {ys : List β}
    (h : xs.mapM f = .ok ys) {i : Nat} {y : β} (hy : ys[i]? = some y) :
    ∃ x, xs[i]? = some x ∧ f x = .ok y := by
  obtain ⟨hi, rfl⟩ := List.getElem?_eq_some_iff.mp hy
  have hi' : i < xs.length := by rwa [length_of_mapM_eq_ok h] at hi
  exact ⟨xs[i], List.getElem?_eq_getElem hi', (mapM_eq_ok_iff.mp h).get hi' hi⟩

/-- The result of a check that is made for every place stands at that place. -/
theorem of_mapM_range_eq_ok {f : Nat → Except ε β} {n : Nat} {ys : List β}
    (h : (List.range n).mapM f = .ok ys) {i : Nat} {y : β} (hy : ys[i]? = some y) :
    f i = .ok y := by
  obtain ⟨j, hj, hf⟩ := exists_of_mapM_eq_ok h hy
  obtain ⟨_, rfl⟩ := List.getElem?_eq_some_iff.mp hj
  rwa [List.getElem_range] at hf

/-- The results of a check that is made for every place are in order when those of any two places
are. -/
theorem exists_mapM_range_pairwise_iff {f : Nat → Except ε β} {n : Nat} {r : β → β → Prop} :
    (∃ ys, (List.range n).mapM f = .ok ys ∧ ys.Pairwise r) ↔
      (∀ i < n, ∃ y, f i = .ok y) ∧
        ∀ j < n, ∀ i < j, ∀ a b, f i = .ok a → f j = .ok b → r a b := by
  constructor
  · rintro ⟨ys, hys, hpairwise⟩
    have hlength : ys.length = n := by rw [length_of_mapM_eq_ok hys, List.length_range]
    have hat (i : Nat) (hi : i < ys.length) : f i = .ok ys[i] :=
      of_mapM_range_eq_ok hys (List.getElem?_eq_getElem hi)
    refine ⟨fun i hi => ⟨_, hat i (hlength.symm ▸ hi)⟩, fun j hj i hij a b ha hb => ?_⟩
    have hj' : j < ys.length := hlength.symm ▸ hj
    obtain rfl := Except.ok.inj ((hat i (Nat.lt_trans hij hj')).symm.trans ha)
    obtain rfl := Except.ok.inj ((hat j hj').symm.trans hb)
    exact List.pairwise_iff_getElem.mp hpairwise i j _ _ hij
  · rintro ⟨hresults, hordered⟩
    obtain ⟨ys, hys⟩ := exists_mapM_eq_ok fun i hi => hresults i (List.mem_range.mp hi)
    have hlength : ys.length = n := by rw [length_of_mapM_eq_ok hys, List.length_range]
    refine ⟨ys, hys, List.pairwise_iff_getElem.mpr fun i j hi hj hij => ?_⟩
    exact hordered j (hlength ▸ hj) i hij _ _
      (of_mapM_range_eq_ok hys (List.getElem?_eq_getElem hi))
      (of_mapM_range_eq_ok hys (List.getElem?_eq_getElem hj))

/-- A check of two lists, one after the other. -/
theorem mapM_append_eq_ok_iff {f : α → Except ε β} {xs ys : List α} {zs : List β} :
    (xs ++ ys).mapM f = .ok zs ↔
      ∃ as bs, xs.mapM f = .ok as ∧ ys.mapM f = .ok bs ∧ zs = as ++ bs := by
  rw [List.mapM_append]
  simp only [bind_eq_ok_iff, pure_eq_ok_iff]
  constructor
  · rintro ⟨as, has, bs, hbs, rfl⟩
    exact ⟨as, bs, has, hbs, rfl⟩
  · rintro ⟨as, bs, has, hbs, rfl⟩
    exact ⟨as, has, bs, hbs, rfl⟩

/-- Checks of many lists, one after the other. -/
theorem mapM_flatMap_eq_ok {f : α → List β} {g : β → Except ε γ} {h : α → List γ} {xs : List α}
    (hgh : ∀ x ∈ xs, (f x).mapM g = .ok (h x)) : (xs.flatMap f).mapM g = .ok (xs.flatMap h) := by
  induction xs with
  | nil => rfl
  | cons x xs ih =>
    rw [List.flatMap_cons, List.flatMap_cons]
    exact mapM_append_eq_ok_iff.mpr
      ⟨_, _, hgh x (by simp), ih fun x' hx' => hgh x' (by simp [hx']), rfl⟩

/-- What each result is made of can be checked instead. -/
theorem exists_mapM_of_mapM_eq_ok {f : α → Except ε β} {g : α → Except ε γ} {h : γ → β}
    {xs : List α} {ys : List β} (hys : xs.mapM f = .ok ys)
    (hgh : ∀ x ∈ xs, ∀ y, f x = .ok y → ∃ z, g x = .ok z ∧ h z = y) :
    ∃ zs, xs.mapM g = .ok zs ∧ zs.map h = ys := by
  induction xs generalizing ys with
  | nil =>
    obtain rfl := List.forall₂_nil_left_iff.mp (mapM_eq_ok_iff.mp hys)
    exact ⟨[], rfl, rfl⟩
  | cons x xs ih =>
    obtain ⟨y, ys, hy, hrest, rfl⟩ := List.forall₂_cons_left_iff.mp (mapM_eq_ok_iff.mp hys)
    obtain ⟨z, hz, rfl⟩ := hgh x (by simp) y hy
    obtain ⟨zs, hzs, rfl⟩ := ih (mapM_eq_ok_iff.mpr hrest) fun x' hx' => hgh x' (by simp [hx'])
    exact ⟨z :: zs, mapM_eq_ok_iff.mpr (.cons hz (mapM_eq_ok_iff.mp hzs)), rfl⟩

/-- What is known of each result is known of all of them. -/
theorem map_of_mapM_eq_ok {f : α → Except ε β} {g : β → γ} {h : α → γ} {xs : List α} {ys : List β}
    (hys : xs.mapM f = .ok ys) (hgh : ∀ x y, f x = .ok y → g y = h x) : ys.map g = xs.map h := by
  induction xs generalizing ys with
  | nil =>
    obtain rfl := List.forall₂_nil_left_iff.mp (mapM_eq_ok_iff.mp hys)
    rfl
  | cons x xs ih =>
    obtain ⟨y, ys, hy, hrest, rfl⟩ := List.forall₂_cons_left_iff.mp (mapM_eq_ok_iff.mp hys)
    rw [List.map_cons, List.map_cons, hgh x y hy, ih (mapM_eq_ok_iff.mpr hrest)]

end Availability.Checked
