/-
# Searching the tokens of a JSON text

A scanner that searches a text for a key is not fooled by what else is there
(`findKey_pass`, `findKey_found`): what looks like the key inside a string has no colon
behind it, and neither has a value.
-/

import RrLauncher.Lib.Json

namespace Json

/-- A text of some tokens and a text of others behind it are a text of all of these tokens. -/
theorem Renders.append {ts us : List Token} {s t : List UInt8} (hs : Renders ts s)
    (ht : Renders us t) : Renders (ts ++ us) (s ++ t) := by
  induction hs with
  | nil hws =>
    cases ht with
    | nil hws' =>
      refine .nil fun b hb => ?_
      exact (List.mem_append.mp hb).elim (hws b) (hws' b)
    | cons hws' h =>
      rw [← List.append_assoc]
      refine .cons (fun b hb => ?_) h
      exact (List.mem_append.mp hb).elim (hws b) (hws' b)
  | cons hws _ ih =>
    rw [List.append_assoc, List.append_assoc]
    exact .cons hws ih

/-- The text without whitespace is one of the texts of its tokens: none has to stand between them.
-/
theorem Renders.compact (ts : List Token) : Renders ts (ts.flatMap Token.bytes) := by
  induction ts with
  | nil => exact .nil (by simp)
  | cons t ts ih => exact @Renders.cons [] _ _ _ (by simp) ih

/-- The text of some tokens and more of them is the text of the ones and that of the
others. -/
theorem Renders.of_append {ts us : List Token} {s : List UInt8} (h : Renders (ts ++ us) s) :
    ∃ s₁ s₂, s = s₁ ++ s₂ ∧ Renders ts s₁ ∧ Renders us s₂ := by
  induction ts generalizing s with
  | nil => exact ⟨[], s, rfl, .nil (by simp), h⟩
  | cons t ts ih =>
    cases h with
    | cons hws h =>
      obtain ⟨s₁, s₂, rfl, h₁, h₂⟩ := ih h
      exact ⟨_, s₂, by simp only [List.append_assoc], .cons hws h₁, h₂⟩

/-- What a token begins with. -/
def Token.first : Token → UInt8
  | .string _ => quote
  | .mark b _ => b

/-- A token has one byte at least, so it can be told by its first one. -/
theorem Token.bytes_eq (t : Token) : ∃ more, t.bytes = t.first :: more := by
  cases t with
  | string cs => exact ⟨_, rfl⟩
  | mark b h => exact ⟨[], rfl⟩

/-- No token starts with white space, so all white space in front of it can be skipped. -/
theorem Token.isSpace_first (t : Token) : isSpace t.first = false := by
  cases t with
  | string cs => rfl
  | mark b h => exact h.2

/-- A text begins with whitespace or the first token, or is over. -/
theorem Renders.head {ts : List Token} {s : List UInt8} (h : Renders ts s) :
    s = [] ∨ ∃ c s', s = c :: s' ∧ (isSpace c = true ∨ ∃ t ∈ ts.head?, c = t.first) := by
  cases h with
  | nil hws =>
    cases s with
    | nil => exact .inl rfl
    | cons c s => exact .inr ⟨c, s, rfl, .inl (hws c List.mem_cons_self)⟩
  | cons hws h =>
    rename_i ws t ts rest
    cases ws with
    | nil =>
      obtain ⟨more, hmore⟩ := t.bytes_eq
      refine .inr ⟨t.first, more ++ rest, ?_, .inr ⟨t, rfl, rfl⟩⟩
      rw [List.nil_append, hmore, List.cons_append]
    | cons c ws => exact .inr ⟨c, _, rfl, .inl (hws c List.mem_cons_self)⟩

/-- Whitespace is skipped up to the next token, or to the end. -/
theorem Renders.skipSpace {t : Token} {ts : List Token} {s : List UInt8}
    (h : Renders (t :: ts) s) (tail : List UInt8) :
    ∃ rest, Renders ts rest ∧
      skipSpace tail.length (s ++ tail) = t.bytes ++ (rest ++ tail) := by
  cases h with
  | cons hws h =>
    rename_i ws rest
    refine ⟨rest, h, ?_⟩
    obtain ⟨more, hmore⟩ := t.bytes_eq
    rw [List.append_assoc, skipSpace_spaces hws (by simp only [List.length_append]; omega),
      List.append_assoc, hmore, List.cons_append, skipSpace_mark _ t.isSpace_first]

/-- There is a colon behind a text that goes on with one. -/
theorem Renders.colonAfter_colon {ts : List Token} {s : List UInt8}
    (h : Renders (Token.colon :: ts) s) (tail : List UInt8) :
    ∃ rest, Renders ts rest ∧ colonAfter tail.length (s ++ tail) = some (colon :: (rest ++ tail)) := by
  obtain ⟨rest, hrest, hskip⟩ := h.skipSpace tail
  refine ⟨rest, hrest, ?_⟩
  unfold colonAfter
  rw [hskip]
  refine if_pos ⟨?_, rfl⟩
  simp only [Token.colon, Token.bytes, List.length_append, List.length_cons, List.length_nil]
  omega

/-- There is none behind a text that goes on with something else, or is over. -/
theorem Renders.colonAfter_none {ts : List Token} {s : List UInt8} (h : Renders ts s)
    (hcolon : ∀ t ∈ ts.head?, t.first ≠ colon) (tail : List UInt8) :
    colonAfter tail.length (s ++ tail) = none := by
  cases ts with
  | nil =>
    cases h with
    | nil hws =>
      unfold colonAfter
      rw [skipSpace_spaces hws (Nat.le_refl _), skipSpace_short (Nat.le_refl _),
        if_neg (by omega)]
  | cons t ts =>
    obtain ⟨rest, -, hskip⟩ := h.skipSpace tail
    obtain ⟨more, hmore⟩ := t.bytes_eq
    unfold colonAfter
    rw [hskip, hmore]
    refine if_neg fun h' => hcolon t rfl ?_
    exact Option.some.inj h'.2

/-- What can be searched for: a key that no part of the text but a string can begin
with. -/
structure IsKey (key : List UInt8) : Prop where
  ne_nil : key ≠ []
  quote_notMem : quote ∉ key
  backslash_notMem : backslash ∉ key
  first : ∀ b ∈ key.head?, isSpace b = false

/-- Nothing among the tokens is the key: a string in front of a colon is another key, and
the key does not begin with a mark. -/
def KeyFree (key : List UInt8) : List Token → Prop
  | [] => True
  | .string cs :: ts =>
    ((∀ t ∈ ts.head?, t.first ≠ colon) ∨
      (∀ c ∈ cs, ∃ b h, c = .plain b h) ∧ rawBytes cs ≠ key) ∧ KeyFree key ts
  | .mark b _ :: ts => key.head? ≠ some b ∧ KeyFree key ts

/-- Two lists of tokens in which a key is not found can stand one after the other, if the second one
does not start with a colon: that could make a key of a string at the end of the first. -/
theorem KeyFree.append {key : List UInt8} {ts us : List Token} (hts : KeyFree key ts)
    (hus : KeyFree key us) (hcolon : ∀ t ∈ us.head?, t.first ≠ colon) :
    KeyFree key (ts ++ us) := by
  induction ts with
  | nil => exact hus
  | cons t ts ih =>
    cases t with
    | string cs =>
      refine ⟨hts.1.imp_left fun h => ?_, ih hts.2⟩
      cases ts with
      | nil => exact hcolon
      | cons t' ts => exact h
    | mark b hb => exact ⟨hts.1, ih hts.2⟩

/-- **A search passes over tokens that are not the key.** -/
theorem findKey_pass {key : List UInt8} (hkey : IsKey key) {ts us : List Token}
    (hfree : KeyFree key ts) (hnext : ∀ t ∈ us.head?, t.first ≠ colon ∧ key.head? ≠ some t.first)
    {s : List UInt8} (h : Renders (ts ++ us) s) (tail : List UInt8) :
    ∃ rest, Renders us rest ∧
      findKey key tail.length (s ++ tail) = findKey key tail.length (rest ++ tail) := by
  induction ts generalizing s with
  | nil => exact ⟨s, h, rfl⟩
  | cons t ts ih =>
    cases h with
    | cons hws h =>
      rename_i ws rest
      cases t with
      | mark b hb =>
        obtain ⟨rest', hrest, hfind⟩ := ih hfree.2 h
        refine ⟨rest', hrest, ?_⟩
        rw [List.append_assoc, findKey_spaces hws, ← hfind]
        exact findKey_skip hb.1 _
      | string cs =>
        obtain ⟨rest', hrest, hfind⟩ := ih hfree.2 h
        refine ⟨rest', hrest, ?_⟩
        have hvalue : colonAfter tail.length (rest ++ tail) = none ∨
            (∀ c ∈ cs, ∃ b h, c = .plain b h) ∧ rawBytes cs ≠ key := by
          refine hfree.1.imp_left fun hcolon => h.colonAfter_none (fun t ht => ?_) tail
          cases ts with
          | nil => exact (hnext t ht).1
          | cons t' ts => exact hcolon t ht
        have hclose : keyAt key tail.length (quote :: (rest ++ tail)) = none := by
          refine keyAt_close ?_ hkey.ne_nil
          rcases h.head with rfl | ⟨c, s', rfl, hc⟩
          · exact .inl (Nat.le_refl _)
          · refine .inr ⟨c, s' ++ tail, rfl, fun k hk hkc => ?_⟩
            rcases hc with hspace | ⟨t, ht, rfl⟩
            · rw [← hkc, hkey.first k hk] at hspace
              cases hspace
            · have hkt : key.head? = some t.first := hkc ▸ hk
              cases ts with
              | nil => exact (hnext t ht).2 hkt
              | cons t' ts =>
                cases ht
                cases t with
                | string cs' => exact hkey.quote_notMem (List.mem_of_mem_head? hkt)
                | mark b hb => exact hfree.2.1 hkt
        have hopen : keyAt key tail.length (quote :: (rawBytes cs ++ quote :: (rest ++ tail))) =
            none := by
          rw [keyAt_string ⟨hkey.quote_notMem, hkey.backslash_notMem⟩]
          rcases hvalue with hnone | ⟨-, hne⟩
          · rw [hnone, ite_self]
          · rw [if_neg hne]
        have htext : ws ++ ((Token.string cs).bytes ++ rest) ++ tail =
            ws ++ quote :: (rawBytes cs ++ quote :: (rest ++ tail)) := by
          simp [Token.bytes]
        rw [htext, findKey_spaces hws, findKey_quote hopen,
          findKey_inside ⟨hkey.quote_notMem, hkey.backslash_notMem⟩ (hvalue.imp_right And.left)
            hclose, hfind]

/-- A search over tokens that are not the key finds nothing. -/
theorem findKey_none {key : List UInt8} (hkey : IsKey key) {ts : List Token}
    (hfree : KeyFree key ts) {s : List UInt8} (h : Renders ts s) (tail : List UInt8) :
    findKey key tail.length (s ++ tail) = none := by
  rw [← List.append_nil ts] at h
  obtain ⟨rest, hrest, hfind⟩ := findKey_pass hkey hfree (by simp) h tail
  cases hrest with
  | nil hws => rw [hfind, findKey_spaces hws, findKey_short (Nat.le_refl _)]

/-- **A search finds the key** that comes next in the text, and goes on behind its colon. -/
theorem findKey_found {key : List UInt8} (hkey : IsKey key) {cs : List StringChar}
    (hcs : rawBytes cs = key) {ts : List Token} {s : List UInt8}
    (h : Renders (.string cs :: Token.colon :: ts) s) (tail : List UInt8) :
    ∃ rest, Renders ts rest ∧
      findKey key tail.length (s ++ tail) = some (colon :: (rest ++ tail)) := by
  cases h with
  | cons hws h =>
    rename_i ws rest
    obtain ⟨rest', hrest, hcolon⟩ := h.colonAfter_colon tail
    refine ⟨rest', hrest, ?_⟩
    have htext : ws ++ ((Token.string cs).bytes ++ rest) ++ tail =
        ws ++ quote :: (rawBytes cs ++ quote :: (rest ++ tail)) := by
      simp [Token.bytes]
    rw [htext, findKey_spaces hws, findKey, if_pos, keyAt_string
      ⟨hkey.quote_notMem, hkey.backslash_notMem⟩, if_pos hcs, hcolon]
    · rfl
    · simp only [List.length_cons, List.length_append]
      omega

/-! ### Objects -/

/-- A string of bytes none of which needs an escape. -/
def ofBytes (bytes : List UInt8) : List StringChar :=
  bytes.map fun b => if h : b ≠ quote ∧ b ≠ backslash then .plain b h else .escape b

/-- Only quotes and backslashes are escaped, so what stands behind a backslash is one of them. -/
theorem escape_mem_ofBytes {bytes : List UInt8} {b : UInt8} (h : .escape b ∈ ofBytes bytes) :
    b = quote ∨ b = backslash := by
  obtain ⟨c, -, hc⟩ := List.mem_map.mp h
  split at hc
  · cases hc
  · rename_i hplain
    cases hc
    rwa [not_and_or, not_ne_iff, not_ne_iff] at hplain

/-- Bytes without a quote and a backslash make a string of plain characters, which is written as
those bytes. -/
theorem ofBytes_plain {bytes : List UInt8} (h : quote ∉ bytes ∧ backslash ∉ bytes) :
    (∀ c ∈ ofBytes bytes, ∃ b hb, c = .plain b hb) ∧ rawBytes (ofBytes bytes) = bytes := by
  induction bytes with
  | nil => exact ⟨by simp [ofBytes], rfl⟩
  | cons b bytes ih =>
    simp only [List.mem_cons, not_or] at h
    obtain ⟨hplain, hraw⟩ := ih ⟨h.1.2, h.2.2⟩
    have hb : b ≠ quote ∧ b ≠ backslash := ⟨Ne.symm h.1.1, Ne.symm h.2.1⟩
    have hcons : ofBytes (b :: bytes) = .plain b hb :: ofBytes bytes := by
      rw [ofBytes, List.map_cons, dif_pos hb]
      rfl
    rw [hcons]
    refine ⟨fun c hc => ?_, ?_⟩
    · rcases List.mem_cons.mp hc with rfl | hc
      · exact ⟨b, hb, rfl⟩
      · exact hplain c hc
    · exact congrArg (b :: ·) hraw

/-- `','`. -/
def Token.comma : Token := .mark 44 (by decide)

/-- Parts with commas between them. -/
def commaSeparated : List (List Token) → List Token
  | [] => []
  | [part] => part
  | part :: parts => part ++ Token.comma :: commaSeparated parts

/-- The parts in front of one of them end with a comma, and those behind it begin with one. -/
theorem commaSeparated_split (before after : List (List Token)) (part : List Token) :
    commaSeparated (before ++ part :: after) =
      before.flatMap (· ++ [Token.comma]) ++ (part ++ after.flatMap (Token.comma :: ·)) := by
  have hbehind : ∀ part : List Token, commaSeparated (part :: after) =
      part ++ after.flatMap (Token.comma :: ·) := by
    induction after with
    | nil => exact fun part => (List.append_nil part).symm
    | cons next after ih =>
      intro part
      rw [commaSeparated, ih next]
      · rfl
      · exact List.cons_ne_nil _ _
  induction before with
  | nil => exact hbehind part
  | cons first before ih =>
    rw [List.cons_append, commaSeparated, ih, List.flatMap_cons]
    · simp only [List.append_assoc, List.cons_append, List.nil_append]
    · simp

/-- A member is not the key if its own key is another one. -/
theorem keyFree_member {key : List UInt8} {bytes : List UInt8} (hne : bytes ≠ key)
    (hbytes : quote ∉ bytes ∧ backslash ∉ bytes) (hcolon : key.head? ≠ some colon)
    {value : List Token} (hvalue : KeyFree key value) :
    KeyFree key (.string (ofBytes bytes) :: Token.colon :: value) := by
  obtain ⟨hplain, hraw⟩ := ofBytes_plain hbytes
  exact ⟨.inr ⟨hplain, hraw.symm ▸ hne⟩, hcolon, hvalue⟩

/-- A key that is found in none of the parts is not found in all of them with a comma behind each.
-/
theorem keyFree_flatMap {key : List UInt8} {parts : List (List Token)}
    (hparts : ∀ part ∈ parts, KeyFree key part ∧ ∀ t ∈ part.head?, t.first ≠ colon)
    (hcomma : key.head? ≠ some Token.comma.first) :
    KeyFree key (parts.flatMap (· ++ [Token.comma])) := by
  induction parts with
  | nil => trivial
  | cons part parts ih =>
    rw [List.forall_mem_cons] at hparts
    have hrest : KeyFree key ([Token.comma] ++ parts.flatMap (· ++ [Token.comma])) :=
      ⟨hcomma, ih hparts.2⟩
    rw [List.flatMap_cons, List.append_assoc]
    refine hparts.1.1.append hrest fun t ht => ?_
    obtain rfl : Token.comma = t := by simpa using ht
    decide

/-- A key that is found in none of the parts is not found in all of them with commas between them.
-/
theorem keyFree_commaSeparated {key : List UInt8} {parts : List (List Token)}
    (hparts : ∀ part ∈ parts, KeyFree key part ∧ ∀ t ∈ part.head?, t.first ≠ colon)
    (hcomma : key.head? ≠ some Token.comma.first) : KeyFree key (commaSeparated parts) := by
  induction parts with
  | nil => trivial
  | cons part parts ih =>
    rw [List.forall_mem_cons] at hparts
    have hrest := ih hparts.2
    cases parts with
    | nil => exact hparts.1.1
    | cons next parts =>
      refine hparts.1.1.append ⟨hcomma, hrest⟩ fun t ht => ?_
      cases ht
      decide

/-- What is in a list of parts is in one of them, or a comma. -/
theorem mem_commaSeparated {t : Token} {parts : List (List Token)} (h : t ∈ commaSeparated parts) :
    t = Token.comma ∨ ∃ part ∈ parts, t ∈ part := by
  induction parts with
  | nil => cases h
  | cons part parts ih =>
    cases parts with
    | nil => exact .inr ⟨part, List.mem_cons_self, h⟩
    | cons next parts =>
      rcases List.mem_append.mp h with h | h
      · exact .inr ⟨part, List.mem_cons_self, h⟩
      · rcases List.mem_cons.mp h with rfl | h
        · exact .inl rfl
        · refine (ih h).imp_right ?_
          rintro ⟨part', hpart, ht⟩
          exact ⟨part', List.mem_cons_of_mem _ hpart, ht⟩

end Json
