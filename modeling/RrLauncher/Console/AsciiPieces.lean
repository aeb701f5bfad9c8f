/-
# ASCII text piece by piece

What `rrc_con_ascii_safe` makes of a text that fits: one replacement after the other.  A text falls
into two wherever a byte is no continuation byte (`asciiAll_append`), so ASCII bytes and characters
in UTF-8 are replaced on their own.
-/

import RrLauncher.Console.AsciiInPlace

namespace RrLauncher

/-- The replacements of all pieces. -/
def asciiAll (s : List UInt8) : List UInt8 :=
  if _h : s ≠ [] then (asciiPiece s).2 ++ asciiAll (s.drop (asciiPiece s).1) else []
  termination_by s.length
  decreasing_by exact length_drop_asciiPiece _h

/-- A text that fits is not cut off: the result is that of an unbounded buffer. -/
theorem asciiText_eq_all {outSize used : ℕ} {s : List UInt8} (hs : 0 ∉ s)
    (hfits : used + s.length < outSize) : asciiText outSize s used = asciiAll s := by
  induction hn : s.length using Nat.strong_induction_on generalizing s used with
  | _ n ih =>
    subst hn
    rw [asciiText, asciiAll]
    by_cases hne : s ≠ []
    · obtain ⟨-, hlen, hthere⟩ := asciiPiece_spec hne hs
      have hpos := List.length_pos_of_ne_nil hne
      have htake : (asciiPiece s).2.take (outSize - 1 - used) = (asciiPiece s).2 :=
        List.take_of_length_le (by omega)
      rw [dif_pos ⟨hne, by omega⟩, dif_pos hne]
      dsimp only
      rw [htake, ih _ (length_drop_asciiPiece hne) (fun h => hs (List.mem_of_mem_drop h)) _ rfl]
      rw [List.length_drop]
      omega
    · rw [dif_neg fun h => hne h.1, dif_neg hne]

/-- A byte that begins a piece, whatever stands in front of it. -/
def Begins (s : List UInt8) : Prop := ∀ c ∈ s.head?, c &&& 0xC0 ≠ 0x80

/-- A piece does not reach into what begins on its own. -/
theorem asciiPiece_append_begins {s t : List UInt8} (hs : s ≠ []) (ht : Begins t) :
    asciiPiece (s ++ t) = asciiPiece s := by
  cases t with
  | nil => rw [List.append_nil]
  | cons c t =>
    have hc : ¬ c &&& 0xC0 = 0x80 := ht c rfl
    rcases s with _ | ⟨c₀, _ | ⟨c₁, _ | ⟨c₂, _ | ⟨c₃, s⟩⟩⟩⟩
    · exact absurd rfl hs
    all_goals simp [asciiPiece, isContinuation, hc]

/-- A piece is never longer than what is left of the string, since continuation bytes are looked at
one by one and the NUL is none. -/
theorem asciiPiece_le_length {s : List UInt8} (hs : s ≠ []) : (asciiPiece s).1 ≤ s.length := by
  have hpos := List.length_pos_of_ne_nil hs
  unfold asciiPiece
  dsimp only
  split_ifs with hascii htwo hthree hfour
  · exact hpos
  · exact lt_length_of_isContinuation htwo.2
  · exact lt_length_of_isContinuation hthree.2.2
  · exact lt_length_of_isContinuation hfour.2.2.2
  · exact hpos

/-- **A text falls into two** where a byte is no continuation byte. -/
theorem asciiAll_append {s t : List UInt8} (ht : Begins t) :
    asciiAll (s ++ t) = asciiAll s ++ asciiAll t := by
  induction hn : s.length using Nat.strong_induction_on generalizing s with
  | _ n ih =>
    subst hn
    by_cases hs : s = []
    · subst hs
      rw [List.nil_append, asciiAll.eq_def [], dif_neg (not_not.mpr rfl), List.nil_append]
    · have hst : s ++ t ≠ [] := fun h => hs (List.append_eq_nil_iff.mp h).1
      rw [asciiAll, dif_pos hst, asciiPiece_append_begins hs ht, asciiAll.eq_def s, dif_pos hs,
        List.drop_append_of_le_length (asciiPiece_le_length hs), ih _ (length_drop_asciiPiece hs) rfl,
        List.append_assoc]

/-- A piece that is all of its bytes is replaced by what stands for it, and what follows is
converted on its own. -/
theorem asciiAll_piece {s t repl : List UInt8} (hs : s ≠ [])
    (hpiece : asciiPiece (s ++ t) = (s.length, repl)) :
    asciiAll (s ++ t) = repl ++ asciiAll t := by
  have hst : s ++ t ≠ [] := fun h => hs (List.append_eq_nil_iff.mp h).1
  rw [asciiAll, dif_pos hst, hpiece, List.drop_left]

/-- An ASCII character stands for itself, and the rest is reduced by itself. -/
theorem asciiAll_ascii {c : UInt8} (hc : c < 0x80) (s : List UInt8) :
    asciiAll (c :: s) = c :: asciiAll s :=
  asciiAll_piece (s := [c]) (List.cons_ne_nil _ _) (if_pos hc)

/-- A string that starts with an ASCII character starts with a piece of its own. -/
theorem begins_ascii {c : UInt8} (hc : c < 0x80) (s : List UInt8) : Begins (c :: s) := by
  intro d hd hcont
  obtain rfl := Option.some.inj hd
  have hand := congrArg UInt8.toNat hcont
  rw [UInt8.toNat_and] at hand
  have hle : (c.toNat &&& 192) ≤ c.toNat := Nat.and_le_left
  have hlt : c.toNat < 128 := hc
  have heq : (c.toNat &&& 192) = 128 := hand
  omega

/-- ASCII bytes stand for themselves, wherever they are: also behind a character that was cut off,
as they are never taken for the rest of it. -/
theorem asciiAll_append_ascii {front bytes rest : List UInt8} (hne : bytes ≠ [])
    (hbytes : ∀ b ∈ bytes, b < 0x80) :
    asciiAll (front ++ (bytes ++ rest)) = asciiAll front ++ (bytes ++ asciiAll rest) := by
  have hascii : asciiAll (bytes ++ rest) = bytes ++ asciiAll rest := by
    clear hne
    induction bytes with
    | nil => rfl
    | cons c bytes ih =>
      rw [List.forall_mem_cons] at hbytes
      rw [List.cons_append, asciiAll_ascii hbytes.1, ih hbytes.2]
      rfl
  have hbegins : Begins (bytes ++ rest) := by
    obtain ⟨c, bytes, rfl⟩ := List.exists_cons_of_ne_nil hne
    exact begins_ascii (hbytes c List.mem_cons_self) _
  rw [asciiAll_append hbegins, hascii]

/-! ### Characters in UTF-8 -/

/-- The bytes behind the first one of a character pass the test for these, whatever bits they carry.
-/
theorem continuation_byte (n : ℕ) : UInt8.ofNat (n % 0x40 + 0x80) &&& 0xC0 = 0x80 := by
  have hall : ∀ m < 0x40, UInt8.ofNat (m + 0x80) &&& 0xC0 = 0x80 := by decide
  exact hall _ (Nat.mod_lt _ (by decide))

/-- A byte that no shorter character begins with. -/
def LeadByte (c mask lead : UInt8) : Prop := ¬ c < 0x80 ∧ c &&& 0xC0 ≠ 0x80 ∧ c &&& mask = lead

/-- The first byte of a character of two passes the test for that length, whatever bits of the
character it carries. -/
theorem lead_two (n : ℕ) : LeadByte (UInt8.ofNat (n % 0x20 + 0xC0)) 0xE0 0xC0 := by
  have hall : ∀ m < 0x20, ¬ UInt8.ofNat (m + 0xC0) < 0x80 ∧
      UInt8.ofNat (m + 0xC0) &&& 0xC0 ≠ 0x80 ∧ UInt8.ofNat (m + 0xC0) &&& 0xE0 = 0xC0 := by decide
  exact hall _ (Nat.mod_lt _ (by decide))

/-- The first byte of a character of three passes the test for that length, and not the one for two,
which the source makes first. -/
theorem lead_three (n : ℕ) : LeadByte (UInt8.ofNat (n % 0x10 + 0xE0)) 0xF0 0xE0 ∧
    UInt8.ofNat (n % 0x10 + 0xE0) &&& 0xE0 ≠ 0xC0 := by
  have hall : ∀ m < 0x10, (¬ UInt8.ofNat (m + 0xE0) < 0x80 ∧
      UInt8.ofNat (m + 0xE0) &&& 0xC0 ≠ 0x80 ∧ UInt8.ofNat (m + 0xE0) &&& 0xF0 = 0xE0) ∧
        UInt8.ofNat (m + 0xE0) &&& 0xE0 ≠ 0xC0 := by decide
  exact hall _ (Nat.mod_lt _ (by decide))

/-- The first byte of a character of four passes the test for that length, and neither of the two
tests that the source makes before. -/
theorem lead_four (n : ℕ) : LeadByte (UInt8.ofNat (n % 0x08 + 0xF0)) 0xF8 0xF0 ∧
    UInt8.ofNat (n % 0x08 + 0xF0) &&& 0xE0 ≠ 0xC0 ∧
      UInt8.ofNat (n % 0x08 + 0xF0) &&& 0xF0 ≠ 0xE0 := by
  have hall : ∀ m < 0x08, (¬ UInt8.ofNat (m + 0xF0) < 0x80 ∧
      UInt8.ofNat (m + 0xF0) &&& 0xC0 ≠ 0x80 ∧ UInt8.ofNat (m + 0xF0) &&& 0xF8 = 0xF0) ∧
        UInt8.ofNat (m + 0xF0) &&& 0xE0 ≠ 0xC0 ∧ UInt8.ofNat (m + 0xF0) &&& 0xF0 ≠ 0xE0 := by decide
  exact hall _ (Nat.mod_lt _ (by decide))

/-- Bytes that are one piece wherever they stand, with a replacement of three bytes at most. -/
def OnePiece (bytes : List UInt8) : Prop :=
  ∃ repl : List UInt8, repl.length ≤ 3 ∧ ∀ rest,
    Begins (bytes ++ rest) ∧ asciiPiece (bytes ++ rest) = (bytes.length, repl)

/-- A byte with the two high bits `10` is taken for a continuation byte. -/
theorem isContinuation_of_getElem? {p : List UInt8} {i : ℕ} {b : UInt8} (hget : p[i]? = some b)
    (hb : b &&& 0xC0 = 0x80) : isContinuation p i = true := by
  rw [isContinuation, List.getD_eq_getElem?_getD, hget]
  exact decide_eq_true hb

/-- A string that starts with a lead byte starts with a piece of its own, too: it is no continuation
byte. -/
theorem begins_of_leadByte {c mask lead : UInt8} (h : LeadByte c mask lead) (s : List UInt8) :
    Begins (c :: s) := by
  intro d hd
  obtain rfl := Option.some.inj hd
  exact h.2.1

/-- The lead byte of two and one continuation byte are one piece. -/
theorem onePiece_two {c₀ c₁ : UInt8} (h₀ : LeadByte c₀ 0xE0 0xC0) (h₁ : c₁ &&& 0xC0 = 0x80) :
    OnePiece [c₀, c₁] := by
  refine ⟨asciiReplacement (lowBits c₀ 0x1F * 2 ^ 6 + lowBits c₁ 0x3F),
    (asciiReplacement_spec _).2.1, fun rest => ⟨begins_of_leadByte h₀ _, ?_⟩⟩
  have hcont : isContinuation (c₀ :: c₁ :: rest) 1 = true := isContinuation_of_getElem? rfl h₁
  exact (if_neg h₀.1).trans (if_pos ⟨h₀.2.2, hcont⟩)

/-- The lead byte of three and two continuation bytes are one piece; the test for a lead byte of two
comes first and has to fail. -/
theorem onePiece_three {c₀ c₁ c₂ : UInt8} (h₀ : LeadByte c₀ 0xF0 0xE0) (htwo : c₀ &&& 0xE0 ≠ 0xC0)
    (h₁ : c₁ &&& 0xC0 = 0x80) (h₂ : c₂ &&& 0xC0 = 0x80) : OnePiece [c₀, c₁, c₂] := by
  refine ⟨asciiReplacement (lowBits c₀ 0x0F * 2 ^ 12 + lowBits c₁ 0x3F * 2 ^ 6 + lowBits c₂ 0x3F),
    (asciiReplacement_spec _).2.1, fun rest => ⟨begins_of_leadByte h₀ _, ?_⟩⟩
  have hcont₁ : isContinuation (c₀ :: c₁ :: c₂ :: rest) 1 = true := isContinuation_of_getElem? rfl h₁
  have hcont₂ : isContinuation (c₀ :: c₁ :: c₂ :: rest) 2 = true := isContinuation_of_getElem? rfl h₂
  exact (if_neg h₀.1).trans ((if_neg fun h => htwo h.1).trans (if_pos ⟨h₀.2.2, hcont₁, hcont₂⟩))

/-- The lead byte of four and three continuation bytes are one piece; the tests for lead bytes of
two and three come first and have to fail. -/
theorem onePiece_four {c₀ c₁ c₂ c₃ : UInt8} (h₀ : LeadByte c₀ 0xF8 0xF0)
    (htwo : c₀ &&& 0xE0 ≠ 0xC0) (hthree : c₀ &&& 0xF0 ≠ 0xE0) (h₁ : c₁ &&& 0xC0 = 0x80)
    (h₂ : c₂ &&& 0xC0 = 0x80) (h₃ : c₃ &&& 0xC0 = 0x80) : OnePiece [c₀, c₁, c₂, c₃] := by
  refine ⟨asciiReplacement (lowBits c₀ 0x07 * 2 ^ 18 + lowBits c₁ 0x3F * 2 ^ 12 +
    lowBits c₂ 0x3F * 2 ^ 6 + lowBits c₃ 0x3F),
    (asciiReplacement_spec _).2.1, fun rest => ⟨begins_of_leadByte h₀ _, ?_⟩⟩
  have hcont₁ : isContinuation (c₀ :: c₁ :: c₂ :: c₃ :: rest) 1 = true :=
    isContinuation_of_getElem? rfl h₁
  have hcont₂ : isContinuation (c₀ :: c₁ :: c₂ :: c₃ :: rest) 2 = true :=
    isContinuation_of_getElem? rfl h₂
  have hcont₃ : isContinuation (c₀ :: c₁ :: c₂ :: c₃ :: rest) 3 = true :=
    isContinuation_of_getElem? rfl h₃
  exact (if_neg h₀.1).trans ((if_neg fun h => htwo h.1).trans
    ((if_neg fun h => hthree h.1).trans (if_pos ⟨h₀.2.2, hcont₁, hcont₂, hcont₃⟩)))

/-- **A character in UTF-8 is one piece** of the text, whichever of the four lengths it has: the
loop takes all of its bytes in one turn. -/
theorem onePiece_utf8 (char : Char) : OnePiece (String.utf8EncodeChar char) := by
  fun_cases String.utf8EncodeChar char with
  | case1 v hv =>
    have hall : ∀ m ≤ 0x7F, UInt8.ofNat m < 0x80 := by decide
    have hone : [UInt8.ofNat v].length ≤ 3 := (by decide : 1 ≤ 3)
    exact ⟨_, hone, fun rest => ⟨begins_ascii (hall v hv) rest, if_pos (hall v hv)⟩⟩
  | case2 v => exact onePiece_two (lead_two _) (continuation_byte _)
  | case3 v =>
    exact onePiece_three (lead_three _).1 (lead_three _).2 (continuation_byte _)
      (continuation_byte _)
  | case4 v =>
    exact onePiece_four (lead_four _).1 (lead_four _).2.1 (lead_four _).2.2 (continuation_byte _)
      (continuation_byte _) (continuation_byte _)

/-- A character in UTF-8 is replaced on its own, wherever it is. -/
theorem asciiAll_append_utf8 (char : Char) :
    ∃ repl : List UInt8, repl.length ≤ 3 ∧ ∀ front rest,
      asciiAll (front ++ (String.utf8EncodeChar char ++ rest)) =
        asciiAll front ++ (repl ++ asciiAll rest) := by
  obtain ⟨repl, hlen, hpiece⟩ := onePiece_utf8 char
  refine ⟨repl, hlen, fun front rest => ?_⟩
  rw [asciiAll_append (hpiece rest).1, asciiAll_piece String.utf8EncodeChar_ne_nil (hpiece rest).2]

end RrLauncher
