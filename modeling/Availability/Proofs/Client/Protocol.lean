import Availability.Client.Protocol
import Mathlib.Data.List.Basic
import Mathlib.Tactic.Common

/-!
# Addresses and their protocols

The protocol of an address is found by what stands before its first colon, and the address is made
one for websockets by other means: a known beginning is taken off, colon and all, and another one
put before what is left. Nothing ties the two together but the colon. Here they are compared on
**every text**, with colons anywhere or none at all.

* `Splits` – an address, its scheme, and what follows the first colon;
* `scheme?_eq_some_iff` – the scheme of an address, as the first part of it;
* `ofUrl?_eq_none_iff` – the addresses that have **no protocol**, those without a colon among them;
* `websocketUrl_of_splits` – **only the scheme changes**, and what follows the first colon stays;
* `ofUrl?_websocketUrl` – so an address with a protocol becomes one for websockets, and one without
  any stays without.
-/

namespace Availability.Protocol

/-- The schemes of the addresses that a node can be reached at. -/
def schemes : List String :=
  ["http", "https", "ws", "wss"]

/-- The scheme by which the same node is reached over a websocket. -/
def websocketScheme (scheme : String) : String :=
  if scheme = "http" then "ws" else if scheme = "https" then "wss" else scheme

/-- The protocol of a scheme. -/
def ofScheme? (scheme : String) : Option Protocol :=
  if scheme = "http" ∨ scheme = "https" then some http
  else if scheme = "ws" ∨ scheme = "wss" then some websocket
  else none

theorem ofScheme?_eq_none_iff {scheme : String} : ofScheme? scheme = none ↔ scheme ∉ schemes := by
  rw [ofScheme?, schemes]
  grind

/-- The scheme for websockets is one of the schemes of that protocol. -/
theorem ofScheme?_websocketScheme (scheme : String) :
    ofScheme? (websocketScheme scheme) = (ofScheme? scheme).map fun _ => .websocket := by
  rw [ofScheme?, ofScheme?, websocketScheme]
  grind

/-- An address that is cut at its first colon. -/
structure Splits (url scheme rest : String) : Prop where
  /-- The colon stands between the two parts. -/
  eq_append : url = scheme ++ ":" ++ rest
  /-- There is no colon before it. -/
  not_mem : ':' ∉ scheme.toList

/-! ### The first colon -/

section Colon

variable {word other after : List Char}

/-- What stands before the first colon. -/
theorem takeWhile_append_colon (h : ':' ∉ word) :
    (word ++ ':' :: after).takeWhile (· ≠ ':') = word := by
  have hword : ∀ c ∈ word, decide (c ≠ ':') = true := by
    intro c hc
    rw [decide_eq_true_eq]
    rintro rfl
    exact h hc
  rw [List.takeWhile_append_of_pos hword]
  simp

/-- **A word and a colon are the beginning of a text** when the word is all that stands before its
first colon. -/
theorem isPrefixOf?_append_colon (hword : ':' ∉ word) (hother : ':' ∉ other) :
    (word ++ [':']).isPrefixOf? (other ++ ':' :: after) =
      if other = word then some after else none := by
  split
  case isTrue h =>
    rw [List.isPrefixOf?_eq_some_iff_append_eq, h, List.append_assoc, List.singleton_append]
  case isFalse h =>
    refine Option.eq_none_iff_forall_ne_some.mpr ?_
    intro rest hrest
    rw [List.isPrefixOf?_eq_some_iff_append_eq, List.append_assoc, List.singleton_append] at hrest
    have hsame := congrArg (List.takeWhile (· ≠ ':')) hrest
    rw [takeWhile_append_colon hword, takeWhile_append_colon hother] at hsame
    exact h hsame.symm

end Colon

/-! ### Schemes and protocols -/

section Url

variable {url scheme rest : String}

theorem toList_append_colon (scheme rest : String) :
    (scheme ++ ":" ++ rest).toList = scheme.toList ++ ':' :: rest.toList := by
  simp

/-- **The scheme of an address** is all of it up to the first colon. -/
theorem scheme?_eq_some_iff : scheme? url = some scheme ↔ ∃ rest, Splits url scheme rest := by
  rw [scheme?]
  constructor
  · intro h
    by_cases hcolon : ':' ∈ url.toList
    · obtain ⟨before, after, hparts, hbefore⟩ := List.eq_append_cons_of_mem hcolon
      rw [if_pos hcolon, hparts, takeWhile_append_colon hbefore] at h
      obtain rfl := Option.some.inj h
      refine ⟨String.ofList after, ?_, ?_⟩
      · rw [← String.toList_inj, toList_append_colon, String.toList_ofList, String.toList_ofList,
          hparts]
      · rwa [String.toList_ofList]
    · rw [if_neg hcolon] at h
      cases h
  · rintro ⟨rest, rfl, hscheme⟩
    rw [toList_append_colon, if_pos (by simp), takeWhile_append_colon hscheme, String.ofList_toList]

/-- A known scheme and a colon are the beginning of an address when the scheme is that of it. -/
theorem isPrefixOf?_splits (known : String) (hknown : ':' ∉ known.toList)
    (h : Splits url scheme rest) :
    (known.toList ++ [':']).isPrefixOf? url.toList =
      if scheme = known then some rest.toList else none := by
  rw [h.eq_append, toList_append_colon, isPrefixOf?_append_colon hknown h.not_mem]
  exact if_congr String.toList_inj rfl rfl

/-- **Only the scheme changes** when an address is made one for websockets. -/
theorem websocketUrl_of_splits (h : Splits url scheme rest) :
    websocketUrl url = websocketScheme scheme ++ ":" ++ rest := by
  have hsecure : "https:".toList.isPrefixOf? url.toList = _ :=
    isPrefixOf?_splits "https" (by decide) h
  have hplain : "http:".toList.isPrefixOf? url.toList = _ :=
    isPrefixOf?_splits "http" (by decide) h
  rw [websocketUrl, websocketScheme]
  simp only [hsecure, hplain]
  by_cases hhttps : scheme = "https"
  · subst hhttps
    rw [← String.toList_inj]
    simp
  by_cases hhttp : scheme = "http"
  · subst hhttp
    rw [← String.toList_inj]
    simp
  · simpa [hhttps, hhttp] using h.eq_append

/-- An address without a colon is left alone. -/
theorem websocketUrl_of_not_mem (h : ':' ∉ url.toList) : websocketUrl url = url := by
  have hnone (known : List Char) : (known ++ [':']).isPrefixOf? url.toList = none := by
    refine Option.eq_none_iff_forall_ne_some.mpr ?_
    intro rest hrest
    rw [List.isPrefixOf?_eq_some_iff_append_eq] at hrest
    exact h (hrest ▸ by simp)
  have hsecure : "https:".toList.isPrefixOf? url.toList = none := hnone "https".toList
  have hplain : "http:".toList.isPrefixOf? url.toList = none := hnone "http".toList
  rw [websocketUrl]
  simp only [hsecure, hplain]

/-- The scheme for websockets has no colon either. -/
theorem not_mem_websocketScheme (h : ':' ∉ scheme.toList) :
    ':' ∉ (websocketScheme scheme).toList := by
  rw [websocketScheme]
  split
  · decide
  · split
    · decide
    · exact h

theorem scheme?_eq_none_iff : scheme? url = none ↔ ':' ∉ url.toList := by
  rw [scheme?]
  simp

/-- **The scheme of the changed address** is the changed scheme. -/
theorem scheme?_websocketUrl (url : String) :
    scheme? (websocketUrl url) = (scheme? url).map websocketScheme := by
  cases h : scheme? url with
  | none => rw [websocketUrl_of_not_mem (scheme?_eq_none_iff.mp h), h, Option.map_none]
  | some scheme =>
    obtain ⟨rest, hsplits⟩ := scheme?_eq_some_iff.mp h
    rw [Option.map_some, scheme?_eq_some_iff]
    exact ⟨rest, websocketUrl_of_splits hsplits, not_mem_websocketScheme hsplits.not_mem⟩

/-- The scheme is all that the protocol of an address depends on. -/
theorem ofUrl?_eq_bind (url : String) : ofUrl? url = (scheme? url).bind ofScheme? := by
  rw [ofUrl?]
  split
  case h_1 h => rw [h]; decide
  case h_2 h => rw [h]; decide
  case h_3 h => rw [h]; decide
  case h_4 h => rw [h]; decide
  case h_5 hhttp hhttps hws hwss =>
    cases h : scheme? url with
    | none => rfl
    | some scheme =>
      rw [h] at hhttp hhttps hws hwss
      simp only [Option.some.injEq] at hhttp hhttps hws hwss
      have hnone : ofScheme? scheme = none :=
        ofScheme?_eq_none_iff.mpr (by simpa [schemes] using ⟨hhttp, hhttps, hws, hwss⟩)
      exact hnone.symm

/-- **An address has no protocol** when its scheme is none of those that a node can be reached
by, or when it has no scheme at all. -/
theorem ofUrl?_eq_none_iff :
    ofUrl? url = none ↔ ∀ scheme rest, Splits url scheme rest → scheme ∉ schemes := by
  rw [ofUrl?_eq_bind, Option.bind_eq_none_iff]
  constructor
  · intro h scheme rest hsplits
    exact ofScheme?_eq_none_iff.mp (h scheme (scheme?_eq_some_iff.mpr ⟨rest, hsplits⟩))
  · intro h scheme hscheme
    obtain ⟨rest, hsplits⟩ := scheme?_eq_some_iff.mp hscheme
    exact ofScheme?_eq_none_iff.mpr (h scheme rest hsplits)

/-- **An address with a protocol becomes one for websockets**, and one without stays without. -/
theorem ofUrl?_websocketUrl (url : String) :
    ofUrl? (websocketUrl url) = (ofUrl? url).map fun _ => .websocket := by
  rw [ofUrl?_eq_bind, ofUrl?_eq_bind, scheme?_websocketUrl]
  cases scheme? url with
  | none => rfl
  | some scheme => exact ofScheme?_websocketScheme scheme

end Url

/-- A colon further on is not looked at. -/
example : websocketUrl "https://node:26658/http:" = "wss://node:26658/http:" := by decide +kernel

end Availability.Protocol
