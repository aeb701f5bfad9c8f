/-
# The grammar of JSON

Which sequences of tokens are values: strings, scalars, arrays and objects of values, however
deep they are nested.  What holds of all tokens but braces, of sequences one behind the other
and of what stands in braces holds of every value (`IsValue.closed`).
-/

import RrLauncher.Lib.Json.Tokens

namespace Json

/-- `'['`. -/
def Token.leftBracket : Token := .mark 91 (by decide)

/-- `']'`. -/
def Token.rightBracket : Token := .mark 93 (by decide)

/-- `'{'`. -/
def Token.leftBrace : Token := .mark 123 (by decide)

/-- `'}'`. -/
def Token.rightBrace : Token := .mark 125 (by decide)

/-- A byte of a number, of `true`, of `false` or of `null`. -/
def Token.IsScalar : Token → Prop
  | .string _ => False
  | .mark b _ => b ∉ [91, 93, 123, 125, Token.comma.first, Json.colon]

instance : DecidablePred Token.IsScalar
  | .string _ => inferInstanceAs (Decidable False)
  | .mark b _ => inferInstanceAs (Decidable (b ∉ [91, 93, 123, 125, Token.comma.first, Json.colon]))

/-- The tokens of a member of an object. -/
def memberTokens (member : List StringChar × List Token) : List Token :=
  .string member.1 :: Token.colon :: member.2

/-- What stands between the braces of an object. -/
def objectBody (members : List (List StringChar × List Token)) : List Token :=
  commaSeparated (members.map memberTokens)

/-- The tokens of a value. -/
inductive IsValue : List Token → Prop
  | string (cs : List StringChar) : IsValue [.string cs]
  | scalar {ts : List Token} (hne : ts ≠ []) (hts : ∀ t ∈ ts, t.IsScalar) : IsValue ts
  | array {items : List (List Token)} (hitems : ∀ item ∈ items, IsValue item) :
      IsValue (.leftBracket :: (commaSeparated items ++ [.rightBracket]))
  | object {members : List (List StringChar × List Token)}
      (hmembers : ∀ member ∈ members, IsValue member.2) :
      IsValue (.leftBrace :: (objectBody members ++ [.rightBrace]))

/-- A token that is no brace. -/
def Token.IsFlat (t : Token) : Prop := t.first ≠ 123 ∧ t.first ≠ 125

/-- A token of a scalar value, which is no brace, is flat. -/
theorem Token.isFlat_of_isScalar {t : Token} (h : t.IsScalar) : t.IsFlat := by
  cases t with
  | string cs => exact h.elim
  | mark b hb =>
    refine ⟨?_, ?_⟩ <;> rintro (rfl : b = _) <;> exact h (by decide)

/-- A string is flat, whatever characters it has: a brace in it is no token. -/
theorem Token.isFlat_string (cs : List StringChar) : (Token.string cs).IsFlat := by
  have hquote : quote ≠ 123 ∧ quote ≠ 125 := by decide
  exact hquote

section Closed

variable {P : List Token → Prop} (nil : P [])
  (append : ∀ ts us : List Token, P ts → P us → P (ts ++ us))
  (flat : ∀ t : Token, t.IsFlat → P [t])

include nil append flat in
/-- What each flat token has, and what tokens one after the other keep, every list of flat tokens
has. -/
theorem closed_flat {ts : List Token} (h : ∀ t ∈ ts, t.IsFlat) : P ts := by
  induction ts with
  | nil => exact nil
  | cons t ts ih =>
    rw [List.forall_mem_cons] at h
    exact append [t] ts (flat t h.1) (ih h.2)

include nil append flat in
/-- If all parts have it then so have the parts with commas between them, since a comma is flat. -/
theorem closed_commaSeparated {parts : List (List Token)} (h : ∀ part ∈ parts, P part) :
    P (commaSeparated parts) := by
  induction parts with
  | nil => exact nil
  | cons part parts ih =>
    rw [List.forall_mem_cons] at h
    cases parts with
    | nil => exact h.1
    | cons next parts =>
      exact append part _ h.1 (append [Token.comma] _ (flat _ ⟨by decide, by decide⟩) (ih h.2))

include nil append flat in
/-- If the values of all members have it then so has the body of the object, since names, colons and
commas are flat. -/
theorem closed_objectBody {members : List (List StringChar × List Token)}
    (h : ∀ member ∈ members, P member.2) : P (objectBody members) := by
  refine closed_commaSeparated nil append flat fun part hpart => ?_
  obtain ⟨member, hmember, rfl⟩ := List.mem_map.mp hpart
  refine append [.string member.1, Token.colon] _ ?_ (h member hmember)
  exact append [_] [_] (flat _ (Token.isFlat_string _)) (flat _ ⟨by decide, by decide⟩)

include nil append flat in
/-- **What the braces and the other tokens keep, every value has.** -/
theorem IsValue.closed (braces : ∀ ts : List Token, P ts → P (.leftBrace :: (ts ++ [.rightBrace])))
    {ts : List Token} (h : IsValue ts) : P ts := by
  induction h with
  | string cs => exact flat _ (Token.isFlat_string cs)
  | scalar _ hts =>
    exact closed_flat nil append flat fun t ht => Token.isFlat_of_isScalar (hts t ht)
  | array _ ih =>
    refine append [_] _ (flat _ ⟨by decide, by decide⟩) (append _ [_] ?_ (flat _ ⟨by decide, by decide⟩))
    exact closed_commaSeparated nil append flat ih
  | object _ ih => exact braces _ (closed_objectBody nil append flat ih)

end Closed

end Json
