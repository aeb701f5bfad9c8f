/-
# Searching for a quoted key

A search that takes the first place of a quoted key for a member's name.  The key in quotes is also
found at the end of a longer string, behind a quote that is escaped, and a string that is a value
looks the same as one that is a name.  So of an object whose values are strings the first string
that looks like the key counts: if it is a name, the value behind it is found, and if it is a value,
nothing is (`valueBehind_object`).
-/

import RrLauncher.Lib.Json.Decode
import RrLauncher.Lib.Json.Grammar
import RrLauncher.Lib.Search

namespace Json

/-- A key in quotes, which is the text that the search for the key looks for. -/
def quoted (key : List UInt8) : List UInt8 := quote :: (key ++ [quote])

/-- A string with the key at its end, behind its own quote or one in it. -/
def LooksLike (key : List UInt8) (cs : List StringChar) : Prop := quote :: key <:+ quote :: rawBytes cs

instance (key : List UInt8) : DecidablePred (LooksLike key) := fun cs =>
  inferInstanceAs (Decidable (quote :: key <:+ quote :: rawBytes cs))

/-- The string behind a quoted key and a colon. -/
def stringBehind (key s : List UInt8) : Option (List UInt8) :=
  let s := (s.drop (quoted key).length).dropWhile isSpace
  if s.head? ≠ some colon then none
  else
    let s := (s.drop 1).dropWhile isSpace
    if s.head? ≠ some quote then none else some (s.drop 1)

/-- The string behind the first place of a quoted key. -/
def valueBehind (key s : List UInt8) : Option (List UInt8) :=
  (Search.firstAt (quoted key) s).bind (stringBehind key)

/-- An object whose values are strings. -/
def flatObject (members : List (List StringChar × List StringChar)) : List Token :=
  .leftBrace :: (objectBody (members.map fun member => (member.1, [.string member.2])) ++
    [.rightBrace])

/-- The value of the member whose name is the first string that looks like the key. -/
def seenValue (key : List UInt8) : List (List StringChar × List StringChar) → Option (List StringChar)
  | [] => none
  | (name, value) :: members =>
    if LooksLike key name then some value
    else if LooksLike key value then none
    else seenValue key members

/-- A string looks like a key where it is the key, or where it ends with a quote and the key: then
the search finds the key up to the closing quote of the string. -/
theorem looksLike_iff {key : List UInt8} {cs : List StringChar} :
    LooksLike key cs ↔ rawBytes cs = key ∨ quote :: key <:+ rawBytes cs := by
  rw [LooksLike, List.suffix_cons_iff, List.cons.injEq, and_iff_right rfl, eq_comm]

/-- The bytes of a quoted key in front of a text, one by one: quote, key, quote, text. -/
theorem quoted_append (key rest : List UInt8) :
    quoted key ++ rest = quote :: (key ++ quote :: rest) := by
  rw [quoted, List.cons_append, List.append_assoc, List.singleton_append]

/-- Bytes without a quote and a backslash stand for themselves. -/
theorem decodes_ofBytes_iff {bytes value : List UInt8} (h : quote ∉ bytes ∧ backslash ∉ bytes) :
    Decodes (ofBytes bytes) value ↔ value = bytes := by
  obtain ⟨hplain, hraw⟩ := ofBytes_plain h
  rw [decodes_plain_iff hplain, hraw]

/-! ### The search -/

/-- The search for a quoted key goes past each byte that is no quote. -/
theorem firstAt_skip {key : List UInt8} {c : UInt8} (hc : c ≠ quote) (s : List UInt8) :
    Search.firstAt (quoted key) (c :: s) = Search.firstAt (quoted key) s := by
  have hstarts : ¬ quoted key <+: c :: s := fun h => hc (List.cons_prefix_cons.mp h).1.symm
  rw [Search.firstAt_cons, if_neg hstarts]

/-- The search for a quoted key goes past white space. -/
theorem firstAt_spaces {key ws : List UInt8} (hws : ∀ b ∈ ws, isSpace b = true) (s : List UInt8) :
    Search.firstAt (quoted key) (ws ++ s) = Search.firstAt (quoted key) s := by
  refine Search.firstAt_append (Search.clear_of_head (fun h => ?_) s)
  exact absurd (hws quote h) (by decide)

section Key

variable {key : List UInt8} (hkey : quote ∉ key ∧ backslash ∉ key)

include hkey in
/-- At a quote a string begins, or what is left of one. -/
theorem firstAt_quote (cs : List StringChar) (rest : List UInt8) :
    Search.firstAt (quoted key) (quote :: (rawBytes cs ++ quote :: rest)) =
      if rawBytes cs = key then some (quoted key ++ rest)
      else Search.firstAt (quoted key) (rawBytes cs ++ quote :: rest) := by
  have hstarts : quoted key <+: quote :: (rawBytes cs ++ quote :: rest) ↔ rawBytes cs = key := by
    rw [quoted, List.cons_prefix_cons, prefix_string_iff hkey, and_iff_right rfl]
  rw [Search.firstAt_cons]
  by_cases h : rawBytes cs = key
  · rw [if_pos (hstarts.mpr h), if_pos h, quoted_append, h]
  · rw [if_neg (mt hstarts.mp h), if_neg h]

include hkey in
/-- In a string the key is found at its end. -/
theorem firstAt_inside {cs : List StringChar} {rest : List UInt8}
    (hclose : ¬ quoted key <+: quote :: rest) :
    Search.firstAt (quoted key) (rawBytes cs ++ quote :: rest) =
      if quote :: key <:+ rawBytes cs then some (quoted key ++ rest)
      else Search.firstAt (quoted key) rest := by
  induction cs with
  | nil =>
    have hnil : ¬ quote :: key <:+ rawBytes [] := fun h => by cases List.suffix_nil.mp h
    rw [if_neg hnil]
    show Search.firstAt _ (quote :: rest) = _
    rw [Search.firstAt_cons, if_neg hclose]
  | cons c cs ih =>
    have hskip : ∀ (b : UInt8) (s : List UInt8), b ≠ quote → (quote :: key <:+ b :: s ↔
        quote :: key <:+ s) := fun b s hb => by
      rw [List.suffix_cons_iff, or_iff_right]
      exact fun h => hb (List.cons.inj h).1.symm
    cases c with
    | plain b hb =>
      show Search.firstAt _ (b :: (rawBytes cs ++ quote :: rest)) =
        if _ <:+ b :: rawBytes cs then _ else _
      rw [firstAt_skip hb.1, ih]
      simp only [hskip b _ hb.1]
    | escape b =>
      show Search.firstAt _ (backslash :: b :: (rawBytes cs ++ quote :: rest)) =
        if _ <:+ backslash :: b :: rawBytes cs then _ else _
      rw [firstAt_skip (by decide)]
      simp only [hskip backslash _ (by decide)]
      by_cases hb : b = quote
      · rw [hb, firstAt_quote hkey, ih]
        by_cases hall : rawBytes cs = key
        · rw [if_pos hall, if_pos (by rw [hall])]
        · rw [if_neg hall]
          congr 1
          rw [List.suffix_cons_iff, eq_iff_iff, or_iff_right]
          exact fun h => hall (List.cons.inj h).2.symm
      · rw [firstAt_skip hb, ih]
        simp only [hskip b _ hb]

include hkey in
/-- **The search stops at a string** that looks like the key. -/
theorem firstAt_string {cs : List StringChar} {rest : List UInt8}
    (hclose : ¬ quoted key <+: quote :: rest) :
    Search.firstAt (quoted key) (quote :: (rawBytes cs ++ quote :: rest)) =
      if LooksLike key cs then some (quoted key ++ rest)
      else Search.firstAt (quoted key) rest := by
  rw [firstAt_quote hkey, firstAt_inside hkey hclose]
  by_cases hall : rawBytes cs = key
  · rw [if_pos hall, if_pos (looksLike_iff.mpr (Or.inl hall))]
  · rw [if_neg hall]
    congr 1
    rw [looksLike_iff, eq_iff_iff, or_iff_right hall]

/-- Behind the end of a string no quoted key begins. -/
theorem not_prefix_close (hkey : IsKey key) {ts : List Token} {rest : List UInt8}
    (h : Renders ts rest) (hnext : ∀ t ∈ ts.head?, key.head? ≠ some t.first) :
    ¬ quoted key <+: quote :: rest := by
  intro hstarts
  obtain ⟨k, key', rfl⟩ := List.exists_cons_of_ne_nil hkey.ne_nil
  have hrest := (List.cons_prefix_cons.mp hstarts).2
  rcases h.head with rfl | ⟨c, s', rfl, hc⟩
  · cases List.prefix_nil.mp hrest
  · obtain rfl : k = c := (List.cons_prefix_cons.mp hrest).1
    rcases hc with hspace | ⟨t, ht, hfirst⟩
    · rw [hkey.first k rfl] at hspace
      cases hspace
    · exact hnext t ht (congrArg some hfirst)

end Key

/-! ### The tokens of an object -/

/-- Whitespace is passed over up to the next token, of which all bytes are still there. -/
theorem Renders.dropSpaces {t : Token} {ts : List Token} {s : List UInt8} (h : Renders (t :: ts) s) :
    ∃ rest, Renders ts rest ∧ s.dropWhile isSpace = t.bytes ++ rest := by
  cases h with
  | cons hws h =>
    rename_i ws rest
    refine ⟨rest, h, ?_⟩
    obtain ⟨more, hmore⟩ := t.bytes_eq
    rw [List.dropWhile_append_of_pos hws, hmore, List.cons_append, List.dropWhile_cons_of_neg]
    rw [t.isSpace_first]
    exact Bool.false_ne_true

/-- A quoted key in front of a colon and a string. -/
theorem stringBehind_name (key : List UInt8) {value : List StringChar} {ts : List Token}
    {s : List UInt8} (h : Renders (Token.colon :: .string value :: ts) s) :
    ∃ rest, stringBehind key (quoted key ++ s) = some (rawBytes value ++ quote :: rest) := by
  obtain ⟨s', hs', hcolon⟩ := h.dropSpaces
  obtain ⟨rest, -, hquote⟩ := hs'.dropSpaces
  refine ⟨rest, ?_⟩
  have hstring : (Token.string value).bytes ++ rest = quote :: (rawBytes value ++ quote :: rest) := by
    simp [Token.bytes]
  rw [hstring] at hquote
  unfold stringBehind
  rw [List.drop_left, hcolon]
  show (if (colon :: s').head? ≠ some colon then none
    else if (s'.dropWhile isSpace).head? ≠ some quote then none
    else some ((s'.dropWhile isSpace).drop 1)) = _
  rw [if_neg fun h => h rfl, hquote]
  exact if_neg fun h => h rfl

/-- A quoted key with no colon behind it, as a value that looks like one, has no string behind it.
-/
theorem stringBehind_value {key : List UInt8} {t : Token} {ts : List Token} {s : List UInt8}
    (h : Renders (t :: ts) s) (hcolon : t.first ≠ colon) :
    stringBehind key (quoted key ++ s) = none := by
  obtain ⟨rest, -, hspaces⟩ := h.dropSpaces
  obtain ⟨more, hmore⟩ := t.bytes_eq
  unfold stringBehind
  rw [List.drop_left, hspaces, hmore]
  exact if_pos fun h => hcolon (Option.some.inj h)

/-- The search for the value of a key goes past a mark, such as a brace or a comma, to the tokens
behind it. -/
theorem valueBehind_mark (key : List UInt8) {b : UInt8} {hb : b ≠ quote ∧ isSpace b = false}
    {ts : List Token} {s : List UInt8} (h : Renders (.mark b hb :: ts) s) :
    ∃ rest, Renders ts rest ∧ valueBehind key s = valueBehind key rest := by
  cases h with
  | cons hws h =>
    rename_i ws rest
    refine ⟨rest, h, ?_⟩
    rw [valueBehind, firstAt_spaces hws]
    show (Search.firstAt _ (b :: rest)).bind _ = _
    rw [firstAt_skip hb.1, valueBehind]

/-- **The search stops at a string** that looks like the key. -/
theorem valueBehind_string {key : List UInt8} (hkey : IsKey key) {cs : List StringChar}
    {ts : List Token} {s : List UInt8} (h : Renders (.string cs :: ts) s)
    (hnext : ∀ t ∈ ts.head?, key.head? ≠ some t.first) :
    ∃ rest, Renders ts rest ∧ valueBehind key s =
      if LooksLike key cs then stringBehind key (quoted key ++ rest) else valueBehind key rest := by
  cases h with
  | cons hws h =>
    rename_i ws rest
    refine ⟨rest, h, ?_⟩
    have hstring : (Token.string cs).bytes ++ rest = quote :: (rawBytes cs ++ quote :: rest) := by
      simp [Token.bytes]
    rw [valueBehind, firstAt_spaces hws, hstring, firstAt_string
      ⟨hkey.quote_notMem, hkey.backslash_notMem⟩ (not_prefix_close hkey h hnext)]
    split_ifs
    · rfl
    · rfl

/-- **A member**: the search ends at its name or its value, or goes on behind it. -/
theorem valueBehind_member {key : List UInt8} (hkey : IsKey key)
    (hcolon : key.head? ≠ some colon) {name value : List StringChar} {t : Token}
    (ht : t.first ≠ colon ∧ key.head? ≠ some t.first) {ts : List Token} {s : List UInt8}
    (h : Renders (memberTokens (name, [.string value]) ++ t :: ts) s) :
    ∃ rest, Renders (t :: ts) rest ∧ (valueBehind key s).bind stringAt =
      if LooksLike key name then some value
      else if LooksLike key value then none
      else (valueBehind key rest).bind stringAt := by
  have hname : Renders (.string name :: Token.colon :: .string value :: t :: ts) s := h
  obtain ⟨s₁, h₁, hfind₁⟩ := valueBehind_string hkey hname fun t' ht' => by
    cases ht'
    exact hcolon
  obtain ⟨s₂, h₂, hfind₂⟩ := valueBehind_mark key h₁
  obtain ⟨s₃, h₃, hfind₃⟩ := valueBehind_string hkey h₂ fun t' ht' => by
    cases ht'
    exact ht.2
  refine ⟨s₃, h₃, ?_⟩
  rw [hfind₁, hfind₂, hfind₃]
  obtain ⟨rest, hbehind⟩ := stringBehind_name key h₁
  rw [hbehind, stringBehind_value h₃ ht.1]
  split_ifs
  · exact stringAt_eq_some_iff.mpr ⟨rest, rfl⟩
  · rfl
  · rfl

/-- **What the search takes for the value**, in every text of an object whose values are
strings. -/
theorem valueBehind_object {key : List UInt8} (hkey : IsKey key)
    (hmark : ∀ t ∈ [Token.colon, Token.comma, .leftBrace, .rightBrace], key.head? ≠ some t.first)
    {members : List (List StringChar × List StringChar)} {s : List UInt8}
    (h : Renders (flatObject members) s) :
    (valueBehind key s).bind stringAt = seenValue key members := by
  have hcolon : key.head? ≠ some colon := hmark Token.colon (by simp)
  have hcomma : Token.comma.first ≠ colon ∧ key.head? ≠ some Token.comma.first :=
    ⟨by decide, hmark Token.comma (by simp)⟩
  have hbrace : Token.rightBrace.first ≠ colon ∧ key.head? ≠ some Token.rightBrace.first :=
    ⟨by decide, hmark Token.rightBrace (by simp)⟩
  have hempty : ∀ s, Renders [Token.rightBrace] s → (valueBehind key s).bind stringAt = none := by
    intro s h
    obtain ⟨rest, hrest, hfind⟩ := valueBehind_mark key h
    cases hrest with
    | nil hws =>
      rw [hfind, valueBehind, ← List.append_nil rest, firstAt_spaces hws]
      rfl
  obtain ⟨s, hbody, hfind⟩ := valueBehind_mark key h
  rw [hfind]
  clear h hfind
  induction members generalizing s with
  | nil => exact hempty s hbody
  | cons member members ih =>
    obtain ⟨name, value⟩ := member
    rw [seenValue]
    cases members with
    | nil =>
      obtain ⟨rest, hrest, hmember⟩ := valueBehind_member hkey hcolon hbrace hbody
      rw [hmember, hempty rest hrest, seenValue]
    | cons next members =>
      have hbody' : Renders (memberTokens (name, [.string value]) ++ Token.comma ::
          (objectBody ((next :: members).map fun m => (m.1, [.string m.2])) ++ [.rightBrace])) s := by
        rw [← List.cons_append, ← List.append_assoc]
        exact hbody
      obtain ⟨rest, hrest, hmember⟩ := valueBehind_member hkey hcolon hcomma hbody'
      obtain ⟨rest', hrest', hskip⟩ := valueBehind_mark key hrest
      rw [hmember, hskip, ih rest' hrest']

end Json
