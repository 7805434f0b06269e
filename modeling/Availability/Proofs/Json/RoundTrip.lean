import Availability.Json.Decode
import Availability.Proofs.Json.Scalar

/-!
# The text of a value is read back

A reader has a bound on its steps, which it takes from the length of the whole text. So what is
proved of a value is not only that its text is read, but that it is read **in time**, within twice
as many steps as there are characters from its first one on.

* `Json.Reads` – the text of a value is not empty, cannot be taken for the end of an array, and is
  read back in time in front of whatever closes it;
* `Json.reads_arr`, `Json.reads_obj` – arrays and objects are, if their parts are;
* `Json.Plain` – values **without doubles**, whose whole numbers have at most 64 bits;
* `Json.parse_render`, `Decoder.ofText_render` – the text of a plain value is read back.
-/

namespace Availability

namespace Json

/-! ### Words, numbers and strings -/

/-- The text of a value is read back, in front of what closes it. -/
structure Reads (value : Json) : Prop where
  /-- The text is not empty. -/
  grows : ∀ tail, tail.length < (value.renderOnto tail).length
  /-- The text starts with a character that is no blank and does not close an array. -/
  opens : ∀ tail, ∃ c cs, value.renderOnto tail = c :: cs ∧ skipBlanks (c :: cs) = c :: cs ∧ c ≠ ']'
  /-- The text is read in time. -/
  reads : ∀ fuel tail, Closes tail → 2 * (value.renderOnto tail).length ≤ fuel →
    readValue (fuel + 1) (value.renderOnto tail) = (value, some tail)

theorem reads_null : Reads null where
  grows tail := by
    rw [renderOnto, List.length_append]
    exact Nat.lt_add_of_pos_left (by decide)
  opens tail := ⟨'n', 'u' :: 'l' :: 'l' :: tail, rfl, rfl, by decide⟩
  reads fuel tail _ _ := rfl

theorem reads_bool (b : Bool) : Reads (bool b) where
  grows tail := by
    rw [renderOnto, List.length_append]
    exact Nat.lt_add_of_pos_left (by cases b <;> decide)
  opens tail := by
    cases b with
    | false => exact ⟨'f', 'a' :: 'l' :: 's' :: 'e' :: tail, rfl, rfl, by decide⟩
    | true => exact ⟨'t', 'r' :: 'u' :: 'e' :: tail, rfl, rfl, by decide⟩
  reads fuel tail _ _ := by
    cases b with
    | false => rfl
    | true => rfl

theorem reads_str (s : String) : Reads (str s) where
  grows tail := by
    rw [renderOnto, quote_append, List.length_cons, List.length_append, List.length_cons]
    omega
  opens tail := ⟨'"', _, quote_append s tail, rfl, by decide⟩
  reads fuel tail _ _ := by
    rw [renderOnto, quote_append, readValue, skipBlanks_cons (c := '"') (by decide)]
    simp only [readString_quote]

/-- What is known of the first character of a number. -/
theorem digit_opens {c : Char} (h : c.isDigit = true) (cs : List Char) :
    skipBlanks (c :: cs) = c :: cs ∧ c ≠ ']' := by
  refine ⟨skipBlanks_cons ?_ cs, ?_⟩
  · rintro (rfl | rfl | rfl | rfl) <;> exact absurd h (by decide)
  · rintro rfl
    exact absurd h (by decide)

theorem exists_isDigit_toDigits (n : Nat) :
    ∃ c cs, Nat.toDigits 10 n = c :: cs ∧ c.isDigit = true := by
  obtain ⟨c, cs, hcs⟩ := List.exists_cons_of_ne_nil (Nat.toDigits_ne_nil (n := n) (b := 10))
  refine ⟨c, cs, hcs, Nat.isDigit_of_mem_toDigits (b := 10) (n := n) (by decide) (by decide) ?_⟩
  rw [hcs]
  exact List.mem_cons_self

/-- What starts with a digit is read as a number. -/
theorem readValue_digit {c : Char} (h : c.isDigit = true) (fuel : Nat) (cs : List Char) :
    readValue (fuel + 1) (c :: cs) =
      match readNumber? false (c :: cs) with
      | some (value, rest) => (value, some rest)
      | none => (fault, none) := by
  rw [readValue, (digit_opens h cs).1]
  split
  case h_8 => rfl
  -- in all other cases, the first character is no digit
  all_goals next heq =>
    obtain ⟨rfl, -⟩ := List.cons.inj heq
    exact absurd h (by decide)

theorem toList_toString_ofNat (n : Nat) : (toString (n : Int)).toList = Nat.toDigits 10 n := by
  change n.repr.toList = _
  exact Nat.toList_repr

theorem toList_toString_negSucc (n : Nat) :
    (toString (Int.negSucc n)).toList = '-' :: Nat.toDigits 10 (n + 1) := by
  change ("-" ++ (n + 1).repr).toList = _
  rw [String.toList_append, Nat.toList_repr]
  rfl

/-- A whole number is told apart from a double by its size. -/
theorem reads_int {n : Int} (low : -2 ^ 63 ≤ n) (high : n < 2 ^ 64) : Reads (int n) := by
  cases n with
  | ofNat n =>
    rw [Int.ofNat_eq_natCast] at high ⊢
    have htext (tail : List Char) :
        (int (n : Int)).renderOnto tail = Nat.toDigits 10 n ++ tail := by
      rw [renderOnto, toList_toString_ofNat]
    obtain ⟨c, cs, hcs, hc⟩ := exists_isDigit_toDigits n
    refine ⟨fun tail => ?_, fun tail => ?_, fun fuel tail htail _ => ?_⟩
    · rw [htext, hcs, List.length_append, List.length_cons]
      omega
    · exact ⟨c, cs ++ tail, by rw [htext, hcs, List.cons_append], digit_opens hc _⟩
    · have hsize : n < UInt64.size := by
        simp only [UInt64.size]
        omega
      rw [htext, hcs, List.cons_append, readValue_digit hc, ← List.cons_append, ← hcs,
        readNumber?_digits false n htail, numberValue_nonneg hsize]
  | negSucc n =>
    have htext (tail : List Char) :
        (int (Int.negSucc n)).renderOnto tail = '-' :: (Nat.toDigits 10 (n + 1) ++ tail) := by
      rw [renderOnto, toList_toString_negSucc, List.cons_append]
    refine ⟨fun tail => ?_, fun tail => ⟨'-', _, htext tail, rfl, by decide⟩,
      fun fuel tail htail _ => ?_⟩
    · rw [htext, List.length_cons, List.length_append]
      omega
    · have hsize : n + 1 ≤ UInt64.size / 2 := by
        simp only [UInt64.size]
        omega
      rw [htext, readValue, skipBlanks_cons (c := '-') (by decide)]
      simp only [readNumber?_digits true (n + 1) htail, numberValue_neg n.succ_pos hsize]
      rfl

/-! ### Arrays -/

theorem renderItems_cons (item : Json) {items : List Json} (h : items ≠ []) (tail : List Char) :
    renderItems (item :: items) tail = item.renderOnto (',' :: renderItems items tail) := by
  cases items with
  | nil => exact absurd rfl h
  | cons next items => rfl

/-- Items are read one by one, up to the bracket that closes the array. -/
theorem readItems_render {items : List Json} (h : items ≠ []) (hreads : ∀ item ∈ items, Reads item)
    (tail : List Char) {fuel : Nat}
    (hfuel : 2 * (renderItems items (']' :: tail)).length ≤ fuel) :
    readItems (fuel + 2) (renderItems items (']' :: tail)) = (items, some tail) := by
  induction items generalizing fuel with
  | nil => exact absurd rfl h
  | cons item items ih =>
    rw [List.forall_mem_cons] at hreads
    obtain ⟨hitem, hitems⟩ := hreads
    by_cases hlast : items = []
    · subst hlast
      rw [renderItems] at hfuel ⊢
      rw [readItems, hitem.reads _ _ (closes_bracket tail) (by omega)]
      rfl
    · rw [renderItems_cons item hlast] at hfuel ⊢
      have hgrows := hitem.grows (',' :: renderItems items (']' :: tail))
      rw [List.length_cons] at hgrows
      obtain ⟨fuel, rfl⟩ := Nat.exists_eq_add_of_le' (show 1 ≤ fuel by omega)
      rw [readItems, hitem.reads _ _ (closes_comma _) hfuel]
      simp only [(closes_comma _).skipBlanks_eq]
      rw [ih hlast hitems (by omega)]

theorem length_le_renderItems {items : List Json} (hreads : ∀ item ∈ items, Reads item)
    (tail : List Char) : tail.length ≤ (renderItems items tail).length := by
  induction items with
  | nil => exact Nat.le_refl _
  | cons item items ih =>
    rw [List.forall_mem_cons] at hreads
    obtain ⟨hitem, hitems⟩ := hreads
    by_cases hlast : items = []
    · subst hlast
      exact Nat.le_of_lt (hitem.grows tail)
    · have hgrows := hitem.grows (',' :: renderItems items tail)
      have hrest := ih hitems
      rw [List.length_cons] at hgrows
      rw [renderItems_cons item hlast]
      omega

/-- Items cannot be taken for the end of an array. -/
theorem renderItems_opens {item : Json} (h : Reads item) (items : List Json) (tail : List Char) :
    ∃ c cs, renderItems (item :: items) tail = c :: cs ∧ skipBlanks (c :: cs) = c :: cs ∧
      c ≠ ']' := by
  by_cases hlast : items = []
  · subst hlast
    exact h.opens tail
  · rw [renderItems_cons item hlast]
    exact h.opens _

/-- **An array is read back** if its items are. -/
theorem reads_arr {items : List Json} (h : ∀ item ∈ items, Reads item) : Reads (arr items) where
  grows tail := by
    have := length_le_renderItems h (']' :: tail)
    rw [List.length_cons] at this
    rw [renderOnto, List.length_cons]
    omega
  opens tail := ⟨'[', _, rfl, rfl, by decide⟩
  reads fuel tail _ hfuel := by
    rw [renderOnto, List.length_cons] at hfuel
    rw [renderOnto, readValue, skipBlanks_cons (c := '[') (by decide)]
    cases items with
    | nil => rfl
    | cons item items =>
      obtain ⟨c, cs, htext, hblank, hc⟩ := renderItems_opens (h item List.mem_cons_self) items
        (']' :: tail)
      obtain ⟨fuel, rfl⟩ := Nat.exists_eq_add_of_le' (show 2 ≤ fuel by omega)
      have hitems := readItems_render (List.cons_ne_nil item items) h tail
        (show 2 * (renderItems (item :: items) (']' :: tail)).length ≤ fuel by omega)
      rw [htext] at hitems ⊢
      simp only [hblank]
      split
      · next heq => exact absurd (List.cons.inj heq).1 hc
      · rw [hitems]

/-! ### Objects -/

theorem renderMembers_cons (key : String) (value : Json) {members : List (String × Json)}
    (h : members ≠ []) (tail : List Char) :
    renderMembers ((key, value) :: members) tail =
      quote key ++ ':' :: value.renderOnto (',' :: renderMembers members tail) := by
  cases members with
  | nil => exact absurd rfl h
  | cons next members => rfl

/-- Members are read one by one, up to the brace that closes the object. -/
theorem readMembers_render {members : List (String × Json)} (h : members ≠ [])
    (hreads : ∀ member ∈ members, Reads member.2) (tail : List Char) {fuel : Nat}
    (hfuel : 2 * (renderMembers members ('}' :: tail)).length ≤ fuel) :
    readMembers (fuel + 2) (renderMembers members ('}' :: tail)) = (members, some tail) := by
  induction members generalizing fuel with
  | nil => exact absurd rfl h
  | cons member members ih =>
    obtain ⟨key, value⟩ := member
    rw [List.forall_mem_cons] at hreads
    have hvalue : Reads value := hreads.1
    have hmembers := hreads.2
    by_cases hlast : members = []
    · subst hlast
      rw [renderMembers, List.length_append, List.length_cons] at hfuel
      rw [renderMembers, quote_append, readMembers, skipBlanks_cons (c := '"') (by decide)]
      simp only [readString_quote, member, skipBlanks_cons (c := ':') (by decide)]
      rw [hvalue.reads _ _ (closes_brace tail) (by omega)]
      rfl
    · rw [renderMembers_cons key value hlast, List.length_append, List.length_cons] at hfuel
      rw [renderMembers_cons key value hlast, quote_append]
      have hgrows := hvalue.grows (',' :: renderMembers members ('}' :: tail))
      rw [List.length_cons] at hgrows
      obtain ⟨fuel, rfl⟩ := Nat.exists_eq_add_of_le' (show 1 ≤ fuel by omega)
      rw [readMembers, skipBlanks_cons (c := '"') (by decide)]
      simp only [readString_quote, member, skipBlanks_cons (c := ':') (by decide)]
      rw [hvalue.reads _ _ (closes_comma _) (by omega)]
      simp only [(closes_comma _).skipBlanks_eq]
      rw [ih hlast hmembers (by omega)]

theorem length_le_renderMembers {members : List (String × Json)}
    (hreads : ∀ member ∈ members, Reads member.2) (tail : List Char) :
    tail.length ≤ (renderMembers members tail).length := by
  induction members with
  | nil => exact Nat.le_refl _
  | cons member members ih =>
    obtain ⟨key, value⟩ := member
    rw [List.forall_mem_cons] at hreads
    have hvalue : Reads value := hreads.1
    have hmembers := hreads.2
    by_cases hlast : members = []
    · subst hlast
      have hgrows := hvalue.grows tail
      rw [renderMembers, List.length_append, List.length_cons]
      omega
    · have hgrows := hvalue.grows (',' :: renderMembers members tail)
      have hrest := ih hmembers
      rw [List.length_cons] at hgrows
      rw [renderMembers_cons key value hlast, List.length_append, List.length_cons]
      omega

/-- Members start with a quote. -/
theorem renderMembers_opens (key : String) (value : Json) (members : List (String × Json))
    (tail : List Char) :
    ∃ cs, renderMembers ((key, value) :: members) tail = '"' :: cs := by
  by_cases hlast : members = []
  · subst hlast
    exact ⟨_, quote_append key _⟩
  · rw [renderMembers_cons key value hlast]
    exact ⟨_, quote_append key _⟩

/-- **An object is read back** if the values of its members are. -/
theorem reads_obj {members : List (String × Json)} (h : ∀ member ∈ members, Reads member.2) :
    Reads (obj members) where
  grows tail := by
    have := length_le_renderMembers h ('}' :: tail)
    rw [List.length_cons] at this
    rw [renderOnto, List.length_cons]
    omega
  opens tail := ⟨'{', _, rfl, rfl, by decide⟩
  reads fuel tail _ hfuel := by
    rw [renderOnto, List.length_cons] at hfuel
    rw [renderOnto, readValue, skipBlanks_cons (c := '{') (by decide)]
    cases members with
    | nil => rfl
    | cons member members =>
      obtain ⟨cs, htext⟩ := renderMembers_opens member.1 member.2 members ('}' :: tail)
      obtain ⟨fuel, rfl⟩ := Nat.exists_eq_add_of_le' (show 2 ≤ fuel by omega)
      have hmembers := readMembers_render (List.cons_ne_nil member members) h tail
        (show 2 * (renderMembers (member :: members) ('}' :: tail)).length ≤ fuel by omega)
      rw [htext] at hmembers ⊢
      simp only [skipBlanks_cons (c := '"') (by decide)]
      change (obj (readMembers _ _).1, (readMembers _ _).2) = _
      rw [hmembers]

/-! ### Whole texts -/

/-- A value without doubles, whose whole numbers have at most 64 bits. -/
inductive Plain : Json → Prop
  | null : Plain null
  | bool (b : Bool) : Plain (bool b)
  | int {n : Int} (low : -2 ^ 63 ≤ n) (high : n < 2 ^ 64) : Plain (int n)
  | str (s : String) : Plain (str s)
  | arr {items : List Json} (h : ∀ item ∈ items, Plain item) : Plain (arr items)
  | obj {members : List (String × Json)} (h : ∀ member ∈ members, Plain member.2) :
    Plain (obj members)

theorem Plain.nil : Plain (.obj []) :=
  .obj fun _ h => absurd h List.not_mem_nil

/-- An object is plain when its first value is, and the object of the other members. -/
theorem Plain.cons {key : String} {value : Json} {members : List (String × Json)}
    (hvalue : Plain value) (hmembers : Plain (.obj members)) :
    Plain (.obj ((key, value) :: members)) := by
  cases hmembers with
  | obj h => exact .obj (List.forall_mem_cons.mpr ⟨hvalue, h⟩)

theorem Plain.reads {value : Json} (h : Plain value) : Reads value := by
  induction h with
  | null => exact reads_null
  | bool b => exact reads_bool b
  | int low high => exact reads_int low high
  | str s => exact reads_str s
  | arr _ ih => exact reads_arr ih
  | obj _ ih => exact reads_obj ih

/-- **The text of a plain value is read back**, to its end. -/
theorem parse_render {value : Json} (h : Plain value) : parse value.render = (value, true) := by
  have hread := h.reads.reads (2 * (value.renderOnto []).length + 1) [] closes_nil (by omega)
  simp only [parse, render, String.toList_ofList, hread]
  rfl

end Json

/-- What is read from the text of a plain value is what is read from the value. -/
theorem Decoder.ofText_render {α : Type} (decode : Decoder α) {value : Json} (h : value.Plain) :
    ofText decode value.render = decode value := by
  rw [ofText, Json.parse_render h]
  change decode value >>= pure = decode value
  exact bind_pure (decode value)

end Availability
