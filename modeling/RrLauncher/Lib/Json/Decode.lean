/-
# What a JSON string stands for

The escapes of JSON: those of one byte, and `\u` with four hexadecimal digits, which stands for a
character or, with another one behind it, for one beyond the first 65536.  A string stands for the
bytes of its characters in UTF-8.
-/

import RrLauncher.Lib.Hex
import RrLauncher.Lib.Json

namespace Json

/-- The escapes of one byte, and what they stand for. -/
def simpleEscapes : List (UInt8 × UInt8) :=
  [(34, 34), (92, 92), (47, 47), (98, 8), (102, 12), (110, 10), (114, 13), (116, 9)]

/-- `'u'`. -/
def unicodeMark : UInt8 := 117

/-- The number of hexadecimal digits behind `n`. -/
def unitValue : List StringChar → ℕ → Option ℕ
  | [], n => some n
  | .plain b _ :: digits, n => (Hex.digit? b).bind fun d => unitValue digits (16 * n + d)
  | .escape _ :: _, _ => none

/-- Four digits and their number. -/
def IsUnit (digits : List StringChar) (n : ℕ) : Prop :=
  digits.length = 4 ∧ unitValue digits 0 = some n

/-- A character of a string, and what it stands for. -/
inductive Piece : List StringChar → List UInt8 → Prop
  | plain (b : UInt8) (hb : b ≠ quote ∧ b ≠ backslash) : Piece [.plain b hb] [b]
  | simple {e x : UInt8} (he : (e, x) ∈ simpleEscapes) : Piece [.escape e] [x]
  | unicode {digits : List StringChar} (char : Char) (hdigits : IsUnit digits char.toNat) :
      Piece (.escape unicodeMark :: digits) (String.utf8EncodeChar char)
  | pair {high low : List StringChar} (char : Char) {m n : ℕ} (hhigh : IsUnit high (0xD800 + m))
      (hlow : IsUnit low (0xDC00 + n)) (hm : m < 0x400) (hn : n < 0x400)
      (hchar : char.toNat = 0x10000 + m * 0x400 + n) :
      Piece (.escape unicodeMark :: (high ++ .escape unicodeMark :: low)) (String.utf8EncodeChar char)

/-- What a string stands for; half of a surrogate pair stands for nothing. -/
inductive Decodes : List StringChar → List UInt8 → Prop
  | nil : Decodes [] []
  | cons {piece cs : List StringChar} {v value : List UInt8} (hpiece : Piece piece v)
      (h : Decodes cs value) : Decodes (piece ++ cs) (v ++ value)

/-- The digits of a `\u` escape are hexadecimal digits that stand for themselves: none of them is an
escape in turn. -/
theorem digits_of_unitValue {digits : List StringChar} {m n : ℕ} (h : unitValue digits m = some n) :
    ∀ c ∈ digits, ∃ b hb, c = .plain b hb ∧ (Hex.digit? b).isSome := by
  induction digits generalizing m with
  | nil => exact fun c hc => by cases hc
  | cons c digits ih =>
    cases c with
    | escape e => cases h
    | plain b hb =>
      obtain ⟨d, hd, hrest⟩ := Option.bind_eq_some_iff.mp h
      exact List.forall_mem_cons.mpr ⟨⟨b, hb, rfl, by rw [hd]; rfl⟩, ih hrest⟩

/-- The four digits of a unit end with a plain character, so a `\u` escape does not run into what
follows it. -/
theorem IsUnit.getLast? {digits : List StringChar} {n : ℕ} (h : IsUnit digits n) :
    ∃ b hb, digits.getLast? = some (.plain b hb) := by
  have hne : digits ≠ [] := fun hnil => by
    have := h.1
    rw [hnil] at this
    cases this
  obtain ⟨b, hb, hlast, -⟩ := digits_of_unitValue h.2 _ (List.getLast_mem hne)
  exact ⟨b, hb, by rw [List.getLast?_eq_getLast_of_ne_nil hne, hlast]⟩

/-- A character is one escape, or ends with a byte that stands for itself. -/
theorem Piece.getLast? {piece : List StringChar} {v : List UInt8} (h : Piece piece v) :
    (∃ e x, piece = [.escape e] ∧ v = [x] ∧ (e, x) ∈ simpleEscapes) ∨
      ∃ b hb, piece.getLast? = some (.plain b hb) := by
  cases h with
  | plain b hb => exact Or.inr ⟨b, hb, rfl⟩
  | simple he => exact Or.inl ⟨_, _, rfl, rfl, he⟩
  | unicode char hdigits =>
    obtain ⟨b, hb, hlast⟩ := hdigits.getLast?
    refine Or.inr ⟨b, hb, ?_⟩
    rw [List.getLast?_cons, hlast]
    rfl
  | pair char hhigh hlow hm hn hchar =>
    obtain ⟨b, hb, hlast⟩ := hlow.getLast?
    refine Or.inr ⟨b, hb, ?_⟩
    rw [List.getLast?_cons, List.getLast?_append, List.getLast?_cons, hlast]
    rfl

/-- Where there are escapes only, each stands for one byte. -/
theorem Decodes.of_escapes {cs : List StringChar} {value : List UInt8} (h : Decodes cs value)
    (hcs : ∀ c ∈ cs, ∃ e, c = .escape e) :
    value.length = cs.length ∧ ∀ x ∈ value, x ∈ simpleEscapes.map Prod.snd := by
  induction h with
  | nil => exact ⟨rfl, fun x hx => by cases hx⟩
  | cons hpiece h ih =>
    rw [List.forall_mem_append] at hcs
    obtain ⟨hlen, hvalue⟩ := ih hcs.2
    rcases hpiece.getLast? with ⟨e, x, rfl, rfl, he⟩ | ⟨b, hb, hlast⟩
    · exact ⟨congrArg Nat.succ hlen,
        List.forall_mem_cons.mpr ⟨List.mem_map.mpr ⟨_, he, rfl⟩, hvalue⟩⟩
    · obtain ⟨e, he⟩ := hcs.1 _ (List.mem_of_getLast? hlast)
      cases he

/-- **Escapes at the end** are decoded apart from what stands in front of them. -/
theorem Decodes.split {kept dropped : List StringChar} {value : List UInt8}
    (h : Decodes (kept ++ dropped) value) (hdropped : ∀ c ∈ dropped, ∃ e, c = .escape e) :
    ∃ front back, value = front ++ back ∧ Decodes kept front ∧ Decodes dropped back := by
  generalize hcs : kept ++ dropped = cs at h
  induction h generalizing kept with
  | nil =>
    obtain ⟨rfl, rfl⟩ := List.append_eq_nil_iff.mp hcs
    exact ⟨[], [], rfl, .nil, .nil⟩
  | cons hpiece h ih =>
    rename_i piece cs v value
    by_cases hkept : kept = []
    · rw [hkept, List.nil_append] at hcs
      subst hkept hcs
      exact ⟨[], v ++ value, rfl, .nil, .cons hpiece h⟩
    rcases List.append_eq_append_iff.mp hcs with ⟨beyond, rfl, rfl⟩ | ⟨kept', rfl, rfl⟩
    · cases beyond with
      | nil =>
        rw [List.append_nil] at hpiece
        exact ⟨v, value, rfl, List.append_nil kept ▸ List.append_nil v ▸ .cons hpiece .nil, h⟩
      | cons c beyond =>
        -- no piece ends with an escape behind something else
        have hpos := List.length_pos_of_ne_nil hkept
        rcases hpiece.getLast? with ⟨e, x, hsingle, -, -⟩ | ⟨b, hb, hlast⟩
        · have hlen := congrArg List.length hsingle
          rw [List.length_append, List.length_cons, List.length_singleton] at hlen
          omega
        · rw [List.getLast?_append_of_ne_nil _ (List.cons_ne_nil _ _)] at hlast
          obtain ⟨e, he⟩ := hdropped _ (List.mem_append_left _ (List.mem_of_getLast? hlast))
          cases he
    · obtain ⟨front, back, rfl, hfront, hback⟩ := ih rfl
      exact ⟨v ++ front, back, (List.append_assoc _ _ _).symm, .cons hpiece hfront, hback⟩

/-- A string without escapes stands for its own bytes, and for nothing else. -/
theorem decodes_plain_iff {cs : List StringChar} (hcs : ∀ c ∈ cs, ∃ b hb, c = .plain b hb)
    {value : List UInt8} : Decodes cs value ↔ value = rawBytes cs := by
  constructor
  · intro h
    induction h with
    | nil => rfl
    | cons hpiece h ih =>
      rw [List.forall_mem_append] at hcs
      rw [ih hcs.2, rawBytes, rawBytes, List.flatMap_append]
      have hescape : ∀ e more, ¬ ∀ c ∈ StringChar.escape e :: more, ∃ b hb, c = .plain b hb := by
        intro e more h
        obtain ⟨b, hb, hc⟩ := h _ List.mem_cons_self
        cases hc
      cases hpiece with
      | plain b hb => rfl
      | simple he => exact absurd hcs.1 (hescape _ _)
      | unicode char hdigits => exact absurd hcs.1 (hescape _ _)
      | pair char hhigh hlow hm hn hchar => exact absurd hcs.1 (hescape _ _)
  · rintro rfl
    induction cs with
    | nil => exact .nil
    | cons c cs ih =>
      rw [List.forall_mem_cons] at hcs
      obtain ⟨b, hb, rfl⟩ := hcs.1
      exact .cons (.plain b hb) (ih hcs.2)

/-! ### Where a string ends -/

/-- The string that stands here, behind its first quote. -/
def stringAt : List UInt8 → Option (List StringChar)
  | [] => none
  | [c] => if c = quote then some [] else none
  | c :: d :: s =>
    if hplain : c ≠ quote ∧ c ≠ backslash then (stringAt (d :: s)).map (.plain c hplain :: ·)
    else if c = quote then some []
    else (stringAt s).map (.escape d :: ·)

/-- A quote that is not escaped ends the string, whatever stands behind it. -/
theorem stringAt_quote (rest : List UInt8) : stringAt (quote :: rest) = some [] := by
  cases rest <;> rfl

/-- A byte that is neither a quote nor a backslash is a character of the string. -/
theorem stringAt_plain {b : UInt8} (hb : b ≠ quote ∧ b ≠ backslash) (s : List UInt8) :
    stringAt (b :: s) = (stringAt s).map (.plain b hb :: ·) := by
  cases s with
  | nil => exact if_neg hb.1
  | cons d s => rw [stringAt, dif_pos hb]

/-- A backslash and the byte behind it are one character of the string, whatever that byte is. -/
theorem stringAt_escape (e : UInt8) (s : List UInt8) :
    stringAt (backslash :: e :: s) = (stringAt s).map (.escape e :: ·) := by
  have hne : ¬ (backslash ≠ quote ∧ backslash ≠ backslash) := fun h => h.2 rfl
  rw [stringAt, dif_neg hne, if_neg (by decide)]

/-- **A string ends at its first quote** that no backslash stands in front of. -/
theorem stringAt_eq_some_iff {s : List UInt8} {cs : List StringChar} :
    stringAt s = some cs ↔ ∃ rest, s = rawBytes cs ++ quote :: rest := by
  constructor
  · intro h
    induction hn : s.length using Nat.strong_induction_on generalizing s cs with
    | _ n ih =>
      subst hn
      cases s with
      | nil => cases h
      | cons c s =>
        by_cases hplain : c ≠ quote ∧ c ≠ backslash
        · rw [stringAt_plain hplain] at h
          obtain ⟨cs', hcs, rfl⟩ := Option.map_eq_some_iff.mp h
          obtain ⟨rest, rfl⟩ := ih s.length (Nat.lt_succ_self _) hcs rfl
          exact ⟨rest, rfl⟩
        by_cases hquote : c = quote
        · rw [hquote, stringAt_quote] at h
          cases h
          exact ⟨s, by rw [hquote]; rfl⟩
        · have hbackslash : c = backslash := by
            by_contra hne
            exact hplain ⟨hquote, hne⟩
          rw [hbackslash] at h ⊢
          cases s with
          | nil => cases h
          | cons e s =>
            rw [stringAt_escape] at h
            obtain ⟨cs', hcs, rfl⟩ := Option.map_eq_some_iff.mp h
            obtain ⟨rest, rfl⟩ := ih s.length (by simp only [List.length_cons]; omega) hcs rfl
            exact ⟨rest, rfl⟩
  · rintro ⟨rest, rfl⟩
    induction cs with
    | nil => exact stringAt_quote rest
    | cons c cs ih =>
      cases c with
      | plain b hb =>
        show stringAt (b :: (rawBytes cs ++ quote :: rest)) = _
        rw [stringAt_plain hb, ih]
        rfl
      | escape e =>
        show stringAt (backslash :: e :: (rawBytes cs ++ quote :: rest)) = _
        rw [stringAt_escape, ih]
        rfl

end Json
