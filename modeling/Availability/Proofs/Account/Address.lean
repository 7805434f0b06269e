import Availability.Account.Address
import Availability.Proofs.Text.Bech32
import Mathlib.Data.List.Nodup
import Mathlib.Data.List.ProdSigma

/-!
# Which texts an address has

The text of an address is checked for its word and for the number of bytes under it, and for nothing
else that a reader of Bech32 text lets pass. The 160 bits of an id fill 32 symbols, so that one more
symbol goes unnoticed, while two more would make up a byte. With two forms of the checksum, an
address has 66 texts, **one** of which is ever written.

* `Address.spelling`, `Address.spellings` – the texts of an address;
* `Address.parse_eq_ok_iff`, `AddressAs.parse_eq_ok_iff` – what an address is read from;
* `Address.parse_eq_ok_iff_mem_spellings` – these are **all** the texts it is read from, and so the
  one that is written is among them, `Address.parse_toText`;
* `Address.nodup_spellings` – no two of them are the same;
* `Address.accepted_texts` – all of this, for addresses of any role and of a given one.
-/

namespace Availability

/-! ### Words and ids -/

namespace AccountRole

theorem ofWord_eq_ok_iff {word : String} {role : AccountRole} :
    ofWord word = .ok role ↔ word = role.word := by
  constructor
  · intro h
    rw [ofWord] at h
    split_ifs at h with haccount hvalidator hconsensus
    all_goals
      obtain rfl := Except.ok.inj h
      assumption
  · rintro rfl
    cases role with
    | account => rfl
    | validator => rfl
    | consensus => rfl

theorem length_word_le (role : AccountRole) : role.word.toList.length ≤ 15 := by
  cases role with
  | account => decide
  | validator => decide
  | consensus => decide

/-- The words of addresses are in lower case. -/
theorem isLowerWord (role : AccountRole) : Bech32.IsLowerWord role.word := by
  have hlower : role.word.toList.all Char.isLower = true := by
    cases role with
    | account => rfl
    | validator => rfl
    | consensus => rfl
  have hpos : 0 < role.word.toList.length := by
    cases role with
    | account => decide
    | validator => decide
    | consensus => decide
  exact ⟨List.all_eq_true.mp hlower, hpos, role.length_word_le.trans (by decide)⟩

end AccountRole

namespace AccountId

theorem ofBytes_eq_ok_iff {bs : Bytes} {id : AccountId} : ofBytes bs = .ok id ↔ bs = id.bytes := by
  rw [ofBytes]
  constructor
  · intro h
    split_ifs at h
    obtain rfl := Except.ok.inj h
    rfl
  · rintro rfl
    exact dif_pos id.length_bytes

end AccountId

/-! ### Texts -/

namespace Address

/-- A text of an address, with or without a symbol that is not needed, and with the given form of
the checksum. -/
def spelling (a : Address) (surplus : Option Nat) (form : Nat) : String :=
  Bech32.text a.role.word (Bech32.symbolsOf a.id.bytes ++ surplus.toList) form

/-- What may follow the symbols of an id: nothing, or one symbol. -/
def surpluses : List (Option Nat) :=
  none :: (List.range 32).map some

/-- The texts of an address, of which the first one is the one that is written. -/
def spellings (a : Address) : List String :=
  ([Bech32.first, Bech32.second] ×ˢ surpluses).map fun (form, surplus) => a.spelling surplus form

theorem mem_surpluses_iff {surplus : Option Nat} :
    surplus ∈ surpluses ↔ ∀ v ∈ surplus, v < 32 := by
  cases surplus with
  | none => simp [surpluses]
  | some v => simp [surpluses]

theorem nodup_surpluses : surpluses.Nodup := by
  have hsome : ((List.range 32).map some).Nodup :=
    (List.nodup_map_iff (Option.some_injective Nat)).mpr List.nodup_range
  refine List.nodup_cons.mpr ⟨fun hmem => ?_, hsome⟩
  obtain ⟨v, -, heq⟩ := List.mem_map.mp hmem
  cases heq

theorem mem_spellings_iff {a : Address} {text : String} :
    text ∈ a.spellings ↔ ∃ form ∈ [Bech32.first, Bech32.second], ∃ surplus ∈ surpluses,
      text = a.spelling surplus form := by
  simp only [spellings, List.mem_map, Prod.exists, List.mem_product]
  constructor
  · rintro ⟨form, surplus, ⟨hform, hsurplus⟩, rfl⟩
    exact ⟨form, hform, surplus, hsurplus, rfl⟩
  · rintro ⟨form, hform, surplus, hsurplus, rfl⟩
    exact ⟨form, surplus, ⟨hform, hsurplus⟩, rfl⟩

theorem length_spellings (a : Address) : a.spellings.length = 66 := by
  rw [spellings, List.length_map, List.length_product]
  rfl

/-- The text that is written has no symbol that is not needed, and the first form of the
checksum. -/
theorem spelling_none_first (a : Address) : a.spelling none Bech32.first = a.toText := by
  rw [spelling, Option.toList_none, List.append_nil]
  exact (Bech32.encode_eq ..).symm

theorem five_dvd_length (id : AccountId) : 5 ∣ id.bytes.length := by
  rw [id.length_bytes]
  decide

theorem lt_of_mem_symbols (a : Address) {surplus : Option Nat} (h : surplus ∈ surpluses) :
    ∀ v ∈ Bech32.symbolsOf a.id.bytes ++ surplus.toList, v < 32 := by
  have hsymbols := (Bech32.symbolsOf_spec (five_dvd_length a.id)).2
  refine List.forall_mem_append.mpr ⟨hsymbols, fun v hv => ?_⟩
  exact mem_surpluses_iff.mp h v (Option.mem_toList.mp hv)

/-- **No two texts of an address** are the same. -/
theorem spelling_inj {a : Address} {form form' : Nat} {surplus surplus' : Option Nat}
    (hform : form ∈ [Bech32.first, Bech32.second]) (hform' : form' ∈ [Bech32.first, Bech32.second])
    (hsurplus : surplus ∈ surpluses) (hsurplus' : surplus' ∈ surpluses)
    (h : a.spelling surplus form = a.spelling surplus' form') :
    surplus = surplus' ∧ form = form' := by
  obtain ⟨hsymbols, rfl⟩ := Bech32.text_inj hform hform' (lt_of_mem_symbols a hsurplus)
    (lt_of_mem_symbols a hsurplus') h
  refine ⟨?_, rfl⟩
  have hlists := List.append_cancel_left hsymbols
  cases surplus with
  | none => exact (Option.toList_eq_nil_iff.mp hlists.symm).symm
  | some v =>
    cases surplus' with
    | none => cases hlists
    | some v' => exact congrArg some (List.singleton_inj.mp hlists)

theorem nodup_spellings (a : Address) : a.spellings.Nodup := by
  have hforms : [Bech32.first, Bech32.second].Nodup := by decide
  refine List.Nodup.map_on ?_ (hforms.product nodup_surpluses)
  rintro ⟨form, surplus⟩ hmem ⟨form', surplus'⟩ hmem' heq
  obtain ⟨hform, hsurplus⟩ := List.mem_product.mp hmem
  obtain ⟨hform', hsurplus'⟩ := List.mem_product.mp hmem'
  obtain ⟨rfl, rfl⟩ := spelling_inj hform hform' hsurplus hsurplus' heq
  rfl

/-! ### Reading -/

/-- A text is that of an address if it has the word of the role and the bytes of the id. -/
theorem parse_eq_ok_iff {a : Address} {text : String} :
    parse text = .ok a ↔ Bech32.decode text = .ok (a.role.word, a.id.bytes) := by
  simp only [parse, Checked.bind_eq_ok_iff, Checked.mapError_eq_ok_iff, Checked.pure_eq_ok_iff,
    AccountRole.ofWord_eq_ok_iff, AccountId.ofBytes_eq_ok_iff, Prod.exists]
  constructor
  · rintro ⟨_, _, hdecode, role, rfl, id, rfl, rfl⟩
    exact hdecode
  · intro hdecode
    exact ⟨_, _, hdecode, _, rfl, _, rfl, rfl⟩

/-- **The texts of an address** are those that it is read from. -/
theorem parse_eq_ok_iff_mem_spellings {a : Address} {text : String} :
    parse text = .ok a ↔ text ∈ a.spellings := by
  rw [parse_eq_ok_iff, mem_spellings_iff]
  constructor
  · intro hdecode
    obtain ⟨symbols, form, hform, hlt, hbytes, rfl⟩ :=
      Bech32.exists_text_of_decode_eq_ok a.role.isLowerWord hdecode
    obtain ⟨surplus, rfl⟩ := (Bech32.bytesOf_eq_iff (five_dvd_length a.id) hlt).mp hbytes
    refine ⟨form, hform, surplus, mem_surpluses_iff.mpr fun v hv => hlt v ?_, rfl⟩
    exact List.mem_append_right _ (Option.mem_toList.mpr hv)
  · rintro ⟨form, hform, surplus, hsurplus, rfl⟩
    have hlt := lt_of_mem_symbols a hsurplus
    have hbytes := (Bech32.bytesOf_eq_iff (five_dvd_length a.id) hlt).mpr ⟨surplus, rfl⟩
    have hlength : a.role.word.toList.length +
        (Bech32.symbolsOf a.id.bytes ++ surplus.toList).length ≤ 1016 := by
      have := a.role.length_word_le
      have := Bech32.length_symbolsOf (five_dvd_length a.id)
      have := a.id.length_bytes
      have : surplus.toList.length ≤ 1 := Option.length_toList_le
      rw [List.length_append]
      omega
    have hdecode := Bech32.decode_text a.role.isLowerWord hform hlt hlength
    rwa [hbytes] at hdecode

/-- An address is read back from the text that is written. -/
theorem parse_toText (a : Address) : parse a.toText = .ok a := by
  rw [parse_eq_ok_iff_mem_spellings, mem_spellings_iff]
  exact ⟨_, List.mem_cons_self .., none, List.mem_cons_self .., a.spelling_none_first.symm⟩

end Address

/-- An address of a given role is read as any other one, if it is of the role. -/
theorem AddressAs.parse_eq_ok_iff {role : AccountRole} {a : AddressAs role} {text : String} :
    AddressAs.parse role text = .ok a ↔ Address.parse text = .ok a.address := by
  simp only [AddressAs.parse, Address.inRole, Checked.bind_eq_ok_iff, Checked.pure_eq_ok_iff]
  constructor
  · rintro ⟨any, hany, _, hrole, rfl⟩
    split_ifs at hrole with heq
    obtain rfl := Except.ok.inj hrole
    subst heq
    exact hany
  · intro h
    exact ⟨_, h, _, if_pos rfl, rfl⟩

/-- **An address has 66 texts**, all of them different and the first of them the one that is
written. They are those of the symbols of the id, with or without one more symbol, and with either
form of the checksum; the one that is written has no other symbol and the first form. -/
theorem Address.accepted_texts :
    (∀ (a : Address) (text : String), parse text = .ok a ↔ text ∈ a.spellings) ∧
    (∀ (role : AccountRole) (a : AddressAs role) (text : String),
      AddressAs.parse role text = .ok a ↔ text ∈ a.address.spellings) ∧
    (∀ a : Address, a.spellings.Nodup ∧ a.spellings.length = 66 ∧
      a.spellings.head? = some a.toText) ∧
    ∀ (a : Address) (text : String), parse text = .ok a →
      ∃ form ∈ [Bech32.first, Bech32.second], ∃ surplus ∈ surpluses,
        text = a.spelling surplus form ∧
          (text = a.toText ↔ surplus = none ∧ form = Bech32.first) := by
  refine ⟨fun a text => parse_eq_ok_iff_mem_spellings, fun role a text => ?_,
    fun a => ⟨a.nodup_spellings, a.length_spellings, ?_⟩, fun a text h => ?_⟩
  · exact AddressAs.parse_eq_ok_iff.trans parse_eq_ok_iff_mem_spellings
  · exact congrArg some a.spelling_none_first
  · obtain ⟨form, hform, surplus, hsurplus, rfl⟩ :=
      mem_spellings_iff.mp (parse_eq_ok_iff_mem_spellings.mp h)
    refine ⟨form, hform, surplus, hsurplus, rfl, ?_⟩
    rw [← spelling_none_first]
    constructor
    · exact spelling_inj hform (List.mem_cons_self ..) hsurplus (List.mem_cons_self ..)
    · rintro ⟨rfl, rfl⟩
      rfl

/-- The account of zeros. -/
def Address.zeros : Address :=
  { role := .account, id := ⟨List.replicate 20 0, rfl⟩ }

theorem Address.spelling_zeros :
    zeros.spelling none Bech32.second = "celestia1qqqqqqqqqqqqqqqqqqqqqqqqqqqqqqqqh4prcj" := by
  decide +kernel

/-- The text with the second form of the checksum is read, and is one of the 66. -/
theorem Address.accepted_texts_zeros :
    parse "celestia1qqqqqqqqqqqqqqqqqqqqqqqqqqqqqqqqh4prcj" = .ok zeros ∧
      ∃ form ∈ [Bech32.first, Bech32.second], ∃ surplus ∈ surpluses,
        "celestia1qqqqqqqqqqqqqqqqqqqqqqqqqqqqqqqqh4prcj" = zeros.spelling surplus form := by
  obtain ⟨hread, -, -, hspelled⟩ := accepted_texts
  have hmem : zeros.spelling none Bech32.second ∈ zeros.spellings :=
    mem_spellings_iff.mpr ⟨_, List.mem_pair.mpr (.inr rfl), _, List.mem_cons_self .., rfl⟩
  have hparse := (hread _ _).mpr hmem
  obtain ⟨form, hform, surplus, hsurplus, heq, -⟩ := hspelled _ _ hparse
  rw [spelling_zeros] at hparse heq
  exact ⟨hparse, form, hform, surplus, hsurplus, heq⟩

/-- **Two texts that are read and never written**: one with the second form of the checksum, and one
with a symbol that is not needed. -/
theorem Address.exists_unwritten_texts :
    parse "celestia1qqqqqqqqqqqqqqqqqqqqqqqqqqqqqqqqh4prcj" = .ok zeros ∧
      zeros.toText ≠ "celestia1qqqqqqqqqqqqqqqqqqqqqqqqqqqqqqqqh4prcj" ∧
    parse "celestia1qqqqqqqqqqqqqqqqqqqqqqqqqqqqqqqqq65w7zv" = .ok zeros ∧
      zeros.toText ≠ "celestia1qqqqqqqqqqqqqqqqqqqqqqqqqqqqqqqqq65w7zv" := by
  have hsurplus : zeros.spelling (some 0) Bech32.first =
      "celestia1qqqqqqqqqqqqqqqqqqqqqqqqqqqqqqqqq65w7zv" := by
    decide +kernel
  have hmem : some 0 ∈ surpluses := mem_surpluses_iff.mpr (by simp)
  have hfirst : Bech32.first ∈ [Bech32.first, Bech32.second] := List.mem_cons_self ..
  have hsecond : Bech32.second ∈ [Bech32.first, Bech32.second] := List.mem_pair.mpr (.inr rfl)
  have hnone : none ∈ surpluses := List.mem_cons_self ..
  rw [← spelling_zeros, ← hsurplus, ← spelling_none_first, parse_eq_ok_iff_mem_spellings,
    parse_eq_ok_iff_mem_spellings]
  refine ⟨mem_spellings_iff.mpr ⟨_, hsecond, _, hnone, rfl⟩, fun heq => ?_,
    mem_spellings_iff.mpr ⟨_, hfirst, _, hmem, rfl⟩, fun heq => ?_⟩
  · cases (spelling_inj hfirst hsecond hnone hnone heq).2
  · cases (spelling_inj hfirst hfirst hnone hmem heq).1

end Availability
