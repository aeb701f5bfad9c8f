/-
# The text of JSON, as substring scanners see it

A JSON text is a sequence of tokens with any whitespace between them.  A scanner that
searches the text for a quoted key and a colon behind it does not know the tokens: it
also looks into the strings.  The characters of a string hold no quote but behind a
backslash, so what looks like the key inside a string reaches up to its end
(`findKey_inside`).

A position in the text is what is left of it from there on, and the end of the search is
the number of bytes that are left behind it.
-/

import Mathlib.Data.List.Basic
import Mathlib.Data.Nat.Notation

namespace Json

/-- `'"'`. -/
def quote : UInt8 := 34

/-- `'\\'`. -/
def backslash : UInt8 := 92

/-- `':'`. -/
def colon : UInt8 := 58

/-- `' '`, `'\t'`, `'\r'` or `'\n'`. -/
def isSpace (b : UInt8) : Bool := b = 32 || b = 9 || b = 13 || b = 10

/-- What a string is made of: bytes that stand for themselves, and escapes. -/
inductive StringChar
  | plain (b : UInt8) (h : b ≠ quote ∧ b ≠ backslash)
  | escape (b : UInt8)

/-- The bytes of a part of a string. -/
def StringChar.bytes : StringChar → List UInt8
  | .plain b _ => [b]
  | .escape b => [backslash, b]

/-- What stands between the quotes. -/
def rawBytes (cs : List StringChar) : List UInt8 := cs.flatMap StringChar.bytes

/-- A string, or a byte that stands for itself: a brace, a bracket, a comma, a colon. -/
inductive Token
  | string (cs : List StringChar)
  | mark (b : UInt8) (h : b ≠ quote ∧ isSpace b = false)

/-- The bytes of a token. -/
def Token.bytes : Token → List UInt8
  | .string cs => quote :: (rawBytes cs ++ [quote])
  | .mark b _ => [b]

/-- The token with which a value is given to a key. -/
def Token.colon : Token := .mark Json.colon (by decide)

/-- A text of some tokens, with any whitespace in front of, between and behind them. -/
inductive Renders : List Token → List UInt8 → Prop
  | nil {ws : List UInt8} (hws : ∀ b ∈ ws, isSpace b = true) : Renders [] ws
  | cons {ws : List UInt8} {t : Token} {ts : List Token} {rest : List UInt8}
      (hws : ∀ b ∈ ws, isSpace b = true) (h : Renders ts rest) :
      Renders (t :: ts) (ws ++ (t.bytes ++ rest))

/-! ### Scanners -/

/-- Skips whitespace, at most up to the end. -/
def skipSpace (stop : ℕ) : List UInt8 → List UInt8
  | [] => []
  | c :: s => if stop < (c :: s).length ∧ isSpace c = true then skipSpace stop s else c :: s

/-- The colon that comes next, after whitespace, if it does. -/
def colonAfter (stop : ℕ) (s : List UInt8) : Option (List UInt8) :=
  let after := skipSpace stop s
  if stop < after.length ∧ after.head? = some colon then some after else none

/-- The colon of a key that stands here. -/
def keyAt (key : List UInt8) (stop : ℕ) (s : List UInt8) : Option (List UInt8) :=
  if quote :: (key ++ [quote]) <+: s then colonAfter stop (s.drop (key.length + 2)) else none

/-- The colon of the first key. -/
def findKey (key : List UInt8) (stop : ℕ) : List UInt8 → Option (List UInt8)
  | [] => none
  | c :: s =>
    if stop < (c :: s).length then (keyAt key stop (c :: s)).or (findKey key stop s) else none

/-- No key is found where the text has reached its end: the bytes behind the end are not looked at.
-/
theorem findKey_short {key : List UInt8} {stop : ℕ} {s : List UInt8} (h : s.length ≤ stop) :
    findKey key stop s = none := by
  cases s with
  | nil => rfl
  | cons c s => rw [findKey, if_neg (by omega)]

/-- No white space is skipped at the end of the text or behind it. -/
theorem skipSpace_short {stop : ℕ} {s : List UInt8} (h : s.length ≤ stop) :
    skipSpace stop s = s := by
  cases s with
  | nil => rfl
  | cons c s => rw [skipSpace, if_neg (by omega)]

/-- White space in front of a text is skipped as a whole, as long as the end of the text is not in
it. -/
theorem skipSpace_spaces {stop : ℕ} {ws s : List UInt8} (hws : ∀ b ∈ ws, isSpace b = true)
    (hstop : stop ≤ s.length) : skipSpace stop (ws ++ s) = skipSpace stop s := by
  induction ws with
  | nil => rfl
  | cons c ws ih =>
    rw [List.forall_mem_cons] at hws
    rw [List.cons_append, skipSpace, if_pos, ih hws.2]
    exact ⟨by simp only [List.length_cons, List.length_append]; omega, hws.1⟩

/-- Nothing is skipped in front of a byte that is no white space. -/
theorem skipSpace_mark {stop : ℕ} {c : UInt8} (s : List UInt8) (hc : isSpace c = false) :
    skipSpace stop (c :: s) = c :: s := by
  rw [skipSpace, if_neg (by simp [hc])]

/-- Skipping white space only moves forward in the text. -/
theorem skipSpace_suffix (stop : ℕ) (s : List UInt8) : skipSpace stop s <:+ s := by
  induction s with
  | nil => exact List.suffix_refl _
  | cons c s ih =>
    rw [skipSpace]
    split_ifs
    · exact ih.trans (List.suffix_cons c s)
    · exact List.suffix_refl _

/-- No colon is found at the end of the text or behind it. -/
theorem colonAfter_short {stop : ℕ} {s : List UInt8} (h : s.length ≤ stop) :
    colonAfter stop s = none := by
  unfold colonAfter
  have hlen := (skipSpace_suffix stop s).length_le
  rw [if_neg (by omega)]

/-! ### One string -/

/-- A key without quotes and backslashes stands at the begin of a string if and only if it
is all of it. -/
theorem prefix_string_iff {key : List UInt8} (hkey : quote ∉ key ∧ backslash ∉ key)
    (cs : List StringChar) (rest : List UInt8) :
    key ++ [quote] <+: rawBytes cs ++ quote :: rest ↔ rawBytes cs = key := by
  induction cs generalizing key with
  | nil =>
    cases key with
    | nil => simp [rawBytes]
    | cons k key =>
      simp only [List.mem_cons, not_or] at hkey
      simp [rawBytes, Ne.symm hkey.1.1]
  | cons c cs ih =>
    cases c with
    | plain b hb =>
      cases key with
      | nil => simp [rawBytes, StringChar.bytes, Ne.symm hb.1]
      | cons k key =>
        simp only [List.mem_cons, not_or] at hkey
        have h := ih ⟨hkey.1.2, hkey.2.2⟩
        simp only [rawBytes, List.flatMap_cons, StringChar.bytes, List.cons_append,
          List.nil_append, List.cons_prefix_cons, List.cons.injEq] at h ⊢
        rw [h, eq_comm]
    | escape b =>
      cases key with
      | nil =>
        have hq : quote ≠ backslash := by decide
        simp [rawBytes, StringChar.bytes, hq]
      | cons k key =>
        simp only [List.mem_cons, not_or] at hkey
        simp [rawBytes, StringChar.bytes, hkey.2.1, Ne.symm hkey.2.1]

/-- What a search sees at a quote inside a string, or at its begin. -/
theorem keyAt_string {key : List UInt8} (hkey : quote ∉ key ∧ backslash ∉ key) (stop : ℕ)
    (cs : List StringChar) (rest : List UInt8) :
    keyAt key stop (quote :: (rawBytes cs ++ quote :: rest)) =
      if rawBytes cs = key then colonAfter stop rest else none := by
  have hstarts : quote :: (key ++ [quote]) <+: quote :: (rawBytes cs ++ quote :: rest) ↔
      rawBytes cs = key := by
    rw [List.cons_prefix_cons, prefix_string_iff hkey, and_iff_right rfl]
  unfold keyAt
  by_cases h : rawBytes cs = key
  · have hdrop : (quote :: (rawBytes cs ++ quote :: rest)).drop (key.length + 2) = rest := by
      rw [← h, List.drop_succ_cons, List.drop_append, List.drop_of_length_le (by omega)]
      simp
    rw [if_pos (hstarts.mpr h), if_pos h, hdrop]
  · rw [if_neg (mt hstarts.mp h), if_neg h]

/-- A quote where a string ends does not begin a key. -/
theorem keyAt_close {key : List UInt8} {stop : ℕ} {rest : List UInt8}
    (h : rest.length ≤ stop ∨ ∃ c rest', rest = c :: rest' ∧ ∀ k ∈ key.head?, k ≠ c)
    (hkey : key ≠ []) : keyAt key stop (quote :: rest) = none := by
  unfold keyAt
  split_ifs with hstarts
  · rcases h with hshort | ⟨c, rest', rfl, hc⟩
    · refine colonAfter_short ?_
      rw [List.length_drop, List.length_cons]
      omega
    · obtain ⟨k, key, rfl⟩ := List.exists_cons_of_ne_nil hkey
      rw [List.cons_prefix_cons, List.cons_append, List.cons_prefix_cons] at hstarts
      exact absurd hstarts.2.1 (hc k rfl)
  · rfl

/-- The search for a quoted key goes past each byte that is no quote. -/
theorem findKey_skip {key : List UInt8} {stop : ℕ} {c : UInt8} (hc : c ≠ quote) (s : List UInt8) :
    findKey key stop (c :: s) = findKey key stop s := by
  have hnone : keyAt key stop (c :: s) = none := by
    unfold keyAt
    rw [if_neg]
    intro h
    exact hc (List.cons_prefix_cons.mp h).1.symm
  rw [findKey, hnone, Option.none_or]
  split_ifs with hstop
  · rfl
  · rw [findKey_short (by rw [List.length_cons] at hstop; omega)]

/-- The search for a quoted key goes past white space in front of the text. -/
theorem findKey_spaces {key ws : List UInt8} {stop : ℕ} (hws : ∀ b ∈ ws, isSpace b = true)
    (s : List UInt8) : findKey key stop (ws ++ s) = findKey key stop s := by
  induction ws with
  | nil => rfl
  | cons c ws ih =>
    rw [List.forall_mem_cons] at hws
    have hc : c ≠ quote := fun h => absurd hws.1 (by rw [h]; decide)
    rw [List.cons_append, findKey_skip hc, ih hws.2]

/-- At a quote the search goes on if no key begins there. -/
theorem findKey_quote {key : List UInt8} {stop : ℕ} {s : List UInt8}
    (h : keyAt key stop (quote :: s) = none) :
    findKey key stop (quote :: s) = findKey key stop s := by
  rw [findKey, h, Option.none_or]
  split_ifs with hstop
  · rfl
  · rw [findKey_short (by rw [List.length_cons] at hstop; omega)]

/-- **A search passes over a string** that is no key, or holds no escape. -/
theorem findKey_inside {key : List UInt8} (hkey : quote ∉ key ∧ backslash ∉ key) {stop : ℕ}
    {cs : List StringChar} {rest : List UInt8}
    (hvalue : colonAfter stop rest = none ∨ ∀ c ∈ cs, ∃ b h, c = .plain b h)
    (hclose : keyAt key stop (quote :: rest) = none) :
    findKey key stop (rawBytes cs ++ quote :: rest) = findKey key stop rest := by
  induction cs with
  | nil => exact findKey_quote hclose
  | cons c cs ih =>
    have hvalue' : colonAfter stop rest = none ∨ ∀ c ∈ cs, ∃ b h, c = .plain b h :=
      hvalue.imp_right fun h c hc => h c (List.mem_cons_of_mem _ hc)
    have hrest := ih hvalue'
    cases c with
    | plain b hb =>
      show findKey key stop (b :: (rawBytes cs ++ quote :: rest)) = _
      rw [findKey_skip hb.1, hrest]
    | escape b =>
      show findKey key stop (backslash :: b :: (rawBytes cs ++ quote :: rest)) = _
      rw [findKey_skip (by decide)]
      by_cases hb : b = quote
      · have hcolon : colonAfter stop rest = none := by
          refine hvalue.resolve_right fun h => ?_
          obtain ⟨b', h', hc⟩ := h (.escape b) List.mem_cons_self
          cases hc
        rw [hb, findKey_quote, hrest]
        rw [keyAt_string hkey, hcolon, ite_self]
      · rw [findKey_skip hb, hrest]

end Json
