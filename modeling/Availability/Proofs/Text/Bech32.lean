import Availability.Proofs.Checked
import Availability.Proofs.Text.Bech32Checksum
import Availability.Proofs.Text.Bits

/-!
# Bech32 texts are told apart

A reader of Bech32 text is more liberal than a writer in three ways. It takes either form of the
checksum; it takes either case, as long as the cases are not mixed; and it drops what is left of the
symbols after the last whole byte. Under a word in lower case the second of these is no freedom,
since the word itself has already settled the case. What is left is that some bytes have a text for
each form of the checksum and each row of symbols that has the bytes.

* `Bech32.bytesOf_eq_iff` – the symbols that have some bytes are **those of the bytes**, with at
  most one more;
* `Bech32.decode_eq_ok_iff` – what a text is checked for;
* `Bech32.text`, `Bech32.decode_text` – the text of some symbols with a checksum of either form is
  read as the bytes of the symbols;
* `Bech32.exists_text_of_decode_eq_ok` – **nothing else** is read under a word in lower case;
* `Bech32.text_inj` – and such texts differ when their symbols or forms do.
-/

namespace Availability.Bech32

/-! ### Symbols and bytes -/

theorem symbolsOf_spec {bs : Bytes} (hwhole : 5 ∣ bs.length) :
    (symbolsOf bs).flatMap (Bits.ofNat 5) = Bits.ofBytes bs ∧ ∀ v ∈ symbolsOf bs, v < 32 :=
  (Bits.digits_eq_iff (by decide) (hwhole.mul_left 8)).mp rfl

theorem length_symbolsOf {bs : Bytes} (hwhole : 5 ∣ bs.length) :
    5 * (symbolsOf bs).length = 8 * bs.length := by
  have hlength := congrArg List.length (symbolsOf_spec hwhole).1
  rwa [Bits.length_flatMap_ofNat, Bits.length_ofBytes] at hlength

/-- Bits that are left over after whole bytes are those of no symbol or of one. -/
theorem exists_surplus {rest : List Bool} (hsymbols : 5 ∣ rest.length) (hlt : rest.length < 8) :
    ∃ surplus : Option Nat, surplus.toList.flatMap (Bits.ofNat 5) = rest ∧
      ∀ v ∈ surplus.toList, v < 32 := by
  obtain hnone | hone : rest.length = 0 ∨ rest.length = 5 := by omega
  · obtain rfl := List.length_eq_zero_iff.mp hnone
    exact ⟨none, rfl, List.forall_mem_nil _⟩
  · have hbits := Bits.ofNat_toNat rest
    have hnumber := Bits.toNat_lt rest
    rw [hone] at hbits hnumber
    refine ⟨some (Bits.toNat rest), ?_, List.forall_mem_singleton.mpr hnumber⟩
    rw [Option.toList_some, List.flatMap_singleton, hbits]

/-- **The symbols that have some bytes** are those of the bytes, with at most one more, of which no
bit is needed. -/
theorem bytesOf_eq_iff {bs : Bytes} (hwhole : 5 ∣ bs.length) {symbols : List Nat}
    (hlt : ∀ v ∈ symbols, v < 32) :
    bytesOf symbols = bs ↔ ∃ surplus : Option Nat, symbols = symbolsOf bs ++ surplus.toList := by
  obtain ⟨hbits, hsymbols⟩ := symbolsOf_spec hwhole
  constructor
  · rintro rfl
    obtain ⟨rest, hbytes⟩ : ∃ rest, Bits.bytes 5 symbols = (bytesOf symbols, rest) := ⟨_, rfl⟩
    obtain ⟨hall, hrest⟩ := Bits.bytes_eq_iff.mp hbytes
    have hlength := congrArg List.length hall
    rw [Bits.length_flatMap_ofNat, List.length_append, Bits.length_ofBytes] at hlength
    have hdvd : 5 ∣ rest.length := by omega
    obtain ⟨surplus, hsurplus, hsurplusLt⟩ := exists_surplus hdvd hrest
    refine ⟨surplus, Bits.flatMap_ofNat_inj (show 0 < 5 by decide) hlt
      (List.forall_mem_append.mpr ⟨hsymbols, hsurplusLt⟩) ?_⟩
    rw [hall, List.flatMap_append, hbits, hsurplus]
  · rintro ⟨surplus, rfl⟩
    have hone : surplus.toList.length ≤ 1 := Option.length_toList_le
    have hrest : (surplus.toList.flatMap (Bits.ofNat 5)).length < 8 := by
      rw [Bits.length_flatMap_ofNat]
      omega
    have hall : (symbolsOf bs ++ surplus.toList).flatMap (Bits.ofNat 5) =
        Bits.ofBytes bs ++ surplus.toList.flatMap (Bits.ofNat 5) := by
      rw [List.flatMap_append, hbits]
    rw [bytesOf, Bits.bytes_eq_iff.mpr ⟨hall, hrest⟩]

/-! ### Characters -/

/-- The character of a symbol. -/
def char (v : Nat) : Char :=
  alphabet.getD v 'q'

section Characters

variable {v : Nat} (h : v < 32)
include h

theorem value?_char : value? (char v) = some v := by
  revert v
  decide

theorem char_ne_separator : char v ≠ '1' := by
  revert v
  decide

theorem isUpper_char : (char v).isUpper = false := by
  revert v
  decide

end Characters

theorem toLower_of_isUpper_eq_false {c : Char} (h : c.isUpper = false) : c.toLower = c :=
  dif_neg (of_decide_eq_false h)

/-- A character that is not in upper case is the one of its symbol. -/
theorem of_value?_eq_some {c : Char} {v : Nat} (hcase : c.isUpper = false)
    (h : value? c = some v) : v < 32 ∧ char v = c := by
  rw [value?, toLower_of_isUpper_eq_false hcase, List.idxOf?_eq_some_iff] at h
  obtain ⟨hlength, hat, -⟩ := h
  refine ⟨hlength, ?_⟩
  rw [char, List.getD_eq_getElem _ _ hlength, hat]

theorem mapM_value?_char {symbols : List Nat} (h : ∀ v ∈ symbols, v < 32) :
    (symbols.map char).mapM value? = some symbols := by
  induction symbols with
  | nil => rfl
  | cons v symbols ih =>
    rw [List.forall_mem_cons] at h
    rw [List.map_cons, List.mapM_cons, value?_char h.1, ih h.2]
    rfl

/-- Characters that are not in upper case are those of their symbols. -/
theorem of_mapM_value?_eq_some {cs : List Char} {symbols : List Nat}
    (hcase : ∀ c ∈ cs, c.isUpper = false) (h : cs.mapM value? = some symbols) :
    (∀ v ∈ symbols, v < 32) ∧ symbols.map char = cs := by
  induction cs generalizing symbols with
  | nil =>
    obtain rfl := Option.some.inj h
    exact ⟨fun v hv => absurd hv List.not_mem_nil, rfl⟩
  | cons c cs ih =>
    rw [List.forall_mem_cons] at hcase
    rw [List.mapM_cons] at h
    obtain ⟨v, hv, h⟩ := Option.bind_eq_some_iff.mp h
    obtain ⟨others, hothers, h⟩ := Option.bind_eq_some_iff.mp h
    obtain rfl := Option.some.inj h
    obtain ⟨hlt, hchar⟩ := of_value?_eq_some hcase.1 hv
    obtain ⟨hothersLt, hothersEq⟩ := ih hcase.2 hothers
    exact ⟨List.forall_mem_cons.mpr ⟨hlt, hothersLt⟩, by rw [List.map_cons, hchar, hothersEq]⟩

/-! ### The word -/

/-- A text is split at its last separator. -/
theorem splitWord_append (word : List Char) {symbols : List Char} (h : '1' ∉ symbols) :
    splitWord (word ++ '1' :: symbols) = some (word, symbols) := by
  have hlast : (word ++ '1' :: symbols).reverse.takeWhile (· ≠ '1') = symbols.reverse := by
    have hsymbols : ∀ c ∈ symbols.reverse, decide (c ≠ '1') = true := by
      rintro c hc
      refine decide_eq_true ?_
      rintro rfl
      exact h (List.mem_reverse.mp hc)
    rw [List.reverse_append, List.reverse_cons, List.append_assoc,
      List.takeWhile_append_of_pos hsymbols]
    exact List.append_nil _
  have hlength : (word ++ '1' :: symbols).length = word.length + 1 + symbols.length := by
    rw [List.length_append, List.length_cons]
    omega
  rw [splitWord, hlast, List.reverse_reverse, if_neg (by omega), hlength,
    show word.length + 1 + symbols.length - symbols.length - 1 = word.length by omega,
    List.take_left]

theorem of_splitWord_eq_some {cs word symbols : List Char}
    (h : splitWord cs = some (word, symbols)) : cs = word ++ '1' :: symbols := by
  rw [splitWord] at h
  split_ifs at h with hnone
  obtain ⟨rfl, rfl⟩ := Prod.mk.inj (Option.some.inj h)
  have hcs : cs = (cs.reverse.dropWhile (· ≠ '1')).reverse ++
      (cs.reverse.takeWhile (· ≠ '1')).reverse := by
    rw [← List.reverse_append, List.takeWhile_append_dropWhile, List.reverse_reverse]
  cases hrest : cs.reverse.dropWhile (· ≠ '1') with
  | nil =>
    rw [hrest] at hcs
    exact absurd (congrArg List.length hcs).symm hnone
  | cons c rest =>
    -- what stopped the search for the symbols is a separator
    have hstop := List.head?_dropWhile_not (· ≠ '1') cs.reverse
    rw [hrest] at hstop hcs
    obtain rfl : c = '1' := not_not.mp (of_decide_eq_false hstop)
    generalize (cs.reverse.takeWhile (· ≠ '1')).reverse = symbols at hcs ⊢
    rw [List.reverse_cons, List.append_assoc, List.singleton_append] at hcs
    have hlength : cs.length - symbols.length - 1 = rest.reverse.length := by
      have := congrArg List.length hcs
      rw [List.length_append, List.length_cons] at this
      omega
    rw [hlength, hcs, List.take_left]

/-! ### Checks -/

/-- **What a text is checked for.** -/
theorem decode_eq_ok_iff {s word : String} {bs : Bytes} :
    decode s = .ok (word, bs) ↔
      ¬(s.toList.any Char.isUpper = true ∧ s.toList.any Char.isLower = true) ∧
      ∃ cs values, splitWord s.toList = some (word.toList, cs) ∧ cs.mapM value? = some values ∧
        isWord word.toList = true ∧ s.toList.length ≤ 1023 ∧ 6 ≤ values.length ∧
        checksum word.toList values ∈ [first, second] ∧
        bytesOf (values.take (values.length - 6)) = bs := by
  simp only [decode, Checked.throw_bind, Checked.ite_throw_eq_ok_iff, Bool.and_eq_true]
  refine and_congr_right fun _ => ?_
  cases hsplit : splitWord s.toList with
  | none => simp
  | some parts =>
    obtain ⟨w, cs⟩ := parts
    cases hvalues : cs.mapM value? with
    | none => simp [hvalues]
    | some values =>
      have hsum : ¬(checksum w values ≠ first ∧ checksum w values ≠ second) ↔
          checksum w values ∈ [first, second] := by
        rw [List.mem_pair, ne_eq, ne_eq, ← not_or, not_not]
      simp only [hvalues, Checked.ite_throw_eq_ok_iff, Checked.pure_eq_ok_iff, Prod.mk.injEq,
        Option.some.injEq, hsum, Bool.or_eq_true, decide_eq_true_eq, not_or, not_lt,
        Bool.not_eq_true', Bool.not_eq_false]
      constructor
      · rintro ⟨hword, ⟨hlong, hshort⟩, hform, rfl, hbytes⟩
        rw [String.toList_ofList]
        exact ⟨cs, values, ⟨rfl, rfl⟩, hvalues, hword, hlong, hshort, hform, hbytes⟩
      · rintro ⟨_, _, ⟨rfl, rfl⟩, hread, hword, hlong, hshort, hform, hbytes⟩
        obtain rfl := Option.some.inj (hvalues.symm.trans hread)
        exact ⟨hword, ⟨hlong, hshort⟩, hform, String.ofList_toList, hbytes⟩

/-! ### Texts -/

/-- The text of some symbols under a word, with a checksum of the given form. -/
def text (word : String) (symbols : List Nat) (form : Nat) : String :=
  String.ofList
    (word.toList ++ '1' :: (symbols ++ tailOf word.toList symbols form).map char)

/-- The text of some bytes is that of their symbols, with the first form of the checksum. -/
theorem encode_eq (word : String) (bs : Bytes) : encode word bs = text word (symbolsOf bs) first :=
  rfl

theorem toList_text (word : String) (symbols : List Nat) (form : Nat) :
    (text word symbols form).toList =
      word.toList ++ '1' :: (symbols ++ tailOf word.toList symbols form).map char :=
  String.toList_ofList

/-- A word in lower case that may stand before symbols. -/
structure IsLowerWord (word : String) : Prop where
  /-- Each character is a letter in lower case. -/
  isLower : ∀ c ∈ word.toList, c.isLower = true
  /-- There is a letter. -/
  length_pos : 0 < word.toList.length
  /-- There are not too many of them. -/
  length_le : word.toList.length ≤ 83

theorem isLower_iff {c : Char} : c.isLower = true ↔ 97 ≤ c.toNat ∧ c.toNat ≤ 122 := by
  change (decide _ && decide _) = true ↔ _
  rw [Bool.and_eq_true, decide_eq_true_eq, decide_eq_true_eq]
  exact Iff.rfl

theorem isUpper_of_isLower {c : Char} (h : c.isLower = true) : c.isUpper = false := by
  have hlow := (isLower_iff.mp h).1
  refine decide_eq_false ?_
  rintro ⟨-, hhigh⟩
  have hhigh : c.toNat ≤ 90 := hhigh
  omega

theorem IsLowerWord.isWord {word : String} (h : IsLowerWord word) : isWord word.toList = true := by
  have hall : ∀ c ∈ word.toList, 33 ≤ c.toNat ∧ c.toNat ≤ 126 := by
    intro c hc
    have := isLower_iff.mp (h.isLower c hc)
    omega
  simp only [Bech32.isWord, Bool.and_eq_true, decide_eq_true_eq, List.all_eq_true]
  exact ⟨⟨h.length_pos, h.length_le⟩, hall⟩

theorem form_lt {form : Nat} (h : form ∈ [first, second]) : form < 2 ^ 30 := by
  rw [List.mem_pair] at h
  rcases h with rfl | rfl <;> decide

section Decode

variable {word : String} (hword : IsLowerWord word) {symbols : List Nat} {form : Nat}
include hword

/-- **The text of symbols is read** as their bytes. -/
theorem decode_text (hform : form ∈ [first, second]) (hlt : ∀ v ∈ symbols, v < 32)
    (hlength : word.toList.length + symbols.length ≤ 1016) :
    decode (text word symbols form) = .ok (word, bytesOf symbols) := by
  have hall := lt_of_mem_append_tailOf word.toList form hlt
  have hcount : (symbols ++ tailOf word.toList symbols form).length = symbols.length + 6 := by
    rw [List.length_append, length_tailOf]
  have hupper : (text word symbols form).toList.any Char.isUpper = false := by
    rw [toList_text, List.any_eq_false]
    intro c hc
    rw [Bool.not_eq_true]
    rcases List.mem_append.mp hc with hc | hc
    · exact isUpper_of_isLower (hword.isLower c hc)
    rcases List.mem_cons.mp hc with rfl | hc
    · rfl
    · obtain ⟨v, hv, rfl⟩ := List.mem_map.mp hc
      exact isUpper_char (hall v hv)
  have hsplit : splitWord (text word symbols form).toList =
      some (word.toList, (symbols ++ tailOf word.toList symbols form).map char) := by
    rw [toList_text]
    refine splitWord_append _ fun hmem => ?_
    obtain ⟨v, hv, heq⟩ := List.mem_map.mp hmem
    exact char_ne_separator (hall v hv) heq
  have hsum : checksum word.toList (symbols ++ tailOf word.toList symbols form) = form :=
    (checksum_append_eq_iff _ _ (form_lt hform) (length_tailOf ..)
      fun _ => lt_of_mem_lastSymbols).mpr rfl
  refine decode_eq_ok_iff.mpr ⟨fun hcase => ?_, _, _, hsplit, mapM_value?_char hall, hword.isWord,
    ?_, ?_, ?_, ?_⟩
  · rw [hupper] at hcase
    exact Bool.false_ne_true hcase.1
  · rw [toList_text, List.length_append, List.length_cons, List.length_map, hcount]
    omega
  · omega
  · rwa [hsum]
  · rw [hcount, Nat.add_sub_cancel, List.take_left]

/-- **Nothing else is read** under the word. -/
theorem exists_text_of_decode_eq_ok {s : String} {bs : Bytes} (h : decode s = .ok (word, bs)) :
    ∃ symbols, ∃ form ∈ [first, second],
      (∀ v ∈ symbols, v < 32) ∧ bytesOf symbols = bs ∧ s = text word symbols form := by
  obtain ⟨hcase, cs, values, hsplit, hvalues, -, -, hshort, hsum, hbytes⟩ := decode_eq_ok_iff.mp h
  have hs := of_splitWord_eq_some hsplit
  have hcs : ∀ c ∈ cs, c.isUpper = false := by
    -- the word has a letter in lower case, so there is none in upper case
    have hlower : s.toList.any Char.isLower = true := by
      obtain ⟨c, hc⟩ := List.exists_mem_of_length_pos hword.length_pos
      rw [hs, List.any_eq_true]
      exact ⟨c, List.mem_append_left _ hc, hword.isLower c hc⟩
    intro c hc
    rw [← Bool.not_eq_true]
    intro hupper
    refine hcase ⟨List.any_eq_true.mpr ⟨c, ?_, hupper⟩, hlower⟩
    rw [hs]
    exact List.mem_append_right _ (List.mem_cons_of_mem _ hc)
  obtain ⟨hlt, hchars⟩ := of_mapM_value?_eq_some hcs hvalues
  have hparts := List.take_append_drop (values.length - 6) values
  have hcount : (values.drop (values.length - 6)).length = 6 := by
    rw [List.length_drop]
    omega
  have htail := (checksum_append_eq_iff word.toList (values.take (values.length - 6))
    (form_lt hsum) hcount fun v hv => hlt v (List.mem_of_mem_drop hv)).mp (by rw [hparts])
  refine ⟨_, _, hsum, fun v hv => hlt v (List.mem_of_mem_take hv), hbytes, ?_⟩
  rw [text, ← htail, hparts, hchars, ← hs, String.ofList_toList]

end Decode

/-- **Texts differ** when their symbols or their checksums do. -/
theorem text_inj {word : String} {symbols symbols' : List Nat} {form form' : Nat}
    (hform : form ∈ [first, second]) (hform' : form' ∈ [first, second])
    (hlt : ∀ v ∈ symbols, v < 32) (hlt' : ∀ v ∈ symbols', v < 32)
    (h : text word symbols form = text word symbols' form') :
    symbols = symbols' ∧ form = form' := by
  have hvalues : symbols ++ tailOf word.toList symbols form =
      symbols' ++ tailOf word.toList symbols' form' := by
    have hchars := congrArg String.toList h
    rw [toList_text, toList_text, List.append_cancel_left_eq, List.cons_inj_right] at hchars
    have hread := congrArg (List.mapM value?) hchars
    rw [mapM_value?_char (lt_of_mem_append_tailOf _ _ hlt),
      mapM_value?_char (lt_of_mem_append_tailOf _ _ hlt')] at hread
    exact Option.some.inj hread
  obtain ⟨rfl, htail⟩ := List.append_inj' hvalues
    ((length_tailOf ..).trans (length_tailOf ..).symm)
  exact ⟨rfl, tailOf_inj _ _ (form_lt hform) (form_lt hform') htail⟩

end Availability.Bech32
