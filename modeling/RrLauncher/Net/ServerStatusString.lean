/-
# Reading a string of the server status

`rr_server_status_read_string` knows the escapes of one byte but `\b` and `\f`, and takes the letter
behind any other backslash for the character itself.  Where the buffer is full it gives up at a byte
that stands for itself, but leaves an escape out.

Both losses show in the result: of the bytes that only an escape can bring about there are too few,
or there is too much text (`decodes_measure`).  So what is read is the string if and only if it has
no such escape and fits (`read_string_whole_iff`).
-/

import RrLauncher.Console.AsciiPieces
import RrLauncher.Lib.Json.Decode
import RrLauncher.Net.ServerStatus
import RrLauncher.Net.UpnpRegistry

namespace RrLauncher

open CStr (lit)
open Json (StringChar Decodes Piece)

/-- The bytes behind a backslash that are understood: `"`, `\`, `/`, `n`, `r` and `t`. -/
def statusEscapes : List UInt8 := [34, 92, 47, 110, 114, 116]

/-- A string without any other escape. -/
def Understood (cs : List StringChar) : Prop := ∀ e, .escape e ∈ cs → e ∈ statusEscapes

/-- The string has escapes only, which are what a full buffer leaves out. -/
def AllEscapes (cs : List StringChar) : Prop := ∀ c ∈ cs, ∃ e, c = .escape e

/-- What is left of a string in a buffer. -/
def statusBytes (outSize : ℕ) (cs : List StringChar) : List UInt8 :=
  (cs.map decodeChar).take (outSize - 1)

/-- What an escape is decoded to is no NUL, unless a NUL stands behind the backslash. So the text
that is read cannot end early because of an escape. -/
theorem decodeEscape_ne_zero {e : UInt8} (he : e ≠ 0) : decodeEscape e ≠ 0 := by
  unfold decodeEscape
  split
  · decide
  · decide
  · decide
  · exact he

/-! ### The loop -/

/-- Reading a plain byte of a string: it is stored and the reading goes on if there is still room
for it and the NUL, and otherwise the reading stops and reports that the string was cut. -/
theorem readStatusChars_byte (outSize : ℕ) {b : UInt8} (hb : b ≠ Json.quote ∧ b ≠ Json.backslash)
    (cs : List StringChar) (rest out : List UInt8) :
    readStatusChars outSize (Json.rawBytes (.plain b hb :: cs) ++ Json.quote :: rest) out =
      if outSize ≤ out.length + 1 then (out, false)
      else readStatusChars outSize (Json.rawBytes cs ++ Json.quote :: rest) (out ++ [b]) := by
  show readStatusChars outSize (b :: (Json.rawBytes cs ++ Json.quote :: rest)) out = _
  rw [readStatusChars_cons, if_neg hb.1, if_neg fun h => hb.2 h.1]

/-- Reading a backslash and the byte behind it, whatever that one is: both are passed over, and the
decoded byte is stored only if there is room. Nothing is reported where there is none. -/
theorem readStatusChars_backslash (outSize : ℕ) (d : UInt8) (s out : List UInt8) :
    readStatusChars outSize (Json.backslash :: d :: s) out =
      readStatusChars outSize s
        (if out.length + 1 < outSize then out ++ [decodeEscape d] else out) := by
  rw [readStatusChars_cons, if_neg (by decide), if_pos ⟨rfl, List.cons_ne_nil _ _⟩]

/-- The same for an escape of a string of the grammar, with the rest of that string and its closing
quote behind it. -/
theorem readStatusChars_escape (outSize : ℕ) (e : UInt8) (cs : List StringChar)
    (rest out : List UInt8) :
    readStatusChars outSize (Json.rawBytes (.escape e :: cs) ++ Json.quote :: rest) out =
      readStatusChars outSize (Json.rawBytes cs ++ Json.quote :: rest)
        (if out.length + 1 < outSize then out ++ [decodeEscape e] else out) := by
  exact readStatusChars_backslash outSize e _ out

/-- Where there is room for another byte, storing it takes one byte of the room. -/
theorem room_succ {outSize : ℕ} {out : List UInt8} (hroom : out.length + 1 < outSize) (b : UInt8) :
    outSize - 1 - out.length = outSize - 1 - (out ++ [b]).length + 1 ∧
      (out ++ [b]).length < outSize := by
  rw [List.length_append, List.length_singleton]
  omega

/-- A string of which only escapes are left out is read. -/
theorem readStatusChars_escapes {outSize : ℕ} {cs : List StringChar} (rest : List UInt8)
    {out : List UInt8} (hout : out.length < outSize)
    (h : AllEscapes (cs.drop (outSize - 1 - out.length))) :
    readStatusChars outSize (Json.rawBytes cs ++ Json.quote :: rest) out =
      (out ++ (cs.map decodeChar).take (outSize - 1 - out.length), true) := by
  induction cs generalizing out with
  | nil =>
    rw [Json.rawBytes, List.flatMap_nil, List.nil_append, readStatusChars_cons, if_pos rfl,
      List.map_nil, List.take_nil, List.append_nil]
  | cons c cs ih =>
    by_cases hroom : out.length + 1 < outSize
    · obtain ⟨hsub, hlt⟩ := room_succ hroom (decodeChar c)
      rw [hsub, List.drop_succ_cons] at h
      have hrest := ih hlt h
      rw [List.append_assoc, List.singleton_append] at hrest
      rw [hsub, List.map_cons, List.take_succ_cons]
      cases c with
      | plain b hb =>
        rw [readStatusChars_byte, if_neg (by omega)]
        exact hrest
      | escape e =>
        rw [readStatusChars_escape, if_pos hroom]
        exact hrest
    · have hzero : outSize - 1 - out.length = 0 := by omega
      rw [hzero, List.drop_zero, AllEscapes, List.forall_mem_cons] at h
      obtain ⟨⟨e, rfl⟩, hcs⟩ := h
      rw [readStatusChars_escape, if_neg hroom, ih hout fun c hc => hcs c (List.mem_of_mem_drop hc),
        hzero, List.take_zero, List.take_zero]

/-- A byte that stands for itself is not left out. -/
theorem readStatusChars_plain {outSize : ℕ} {cs : List StringChar} (rest : List UInt8)
    {out : List UInt8} (hout : out.length < outSize)
    (h : ¬ AllEscapes (cs.drop (outSize - 1 - out.length))) :
    (readStatusChars outSize (Json.rawBytes cs ++ Json.quote :: rest) out).2 = false := by
  induction cs generalizing out with
  | nil =>
    refine absurd (fun c hc => ?_) h
    rw [List.drop_nil] at hc
    cases hc
  | cons c cs ih =>
    by_cases hroom : out.length + 1 < outSize
    · obtain ⟨hsub, hlt⟩ := room_succ hroom (decodeChar c)
      rw [hsub, List.drop_succ_cons] at h
      have hrest := ih hlt h
      cases c with
      | plain b hb =>
        rw [readStatusChars_byte, if_neg (by omega)]
        exact hrest
      | escape e =>
        rw [readStatusChars_escape, if_pos hroom]
        exact hrest
    · cases c with
      | plain b hb => rw [readStatusChars_byte, if_pos (by omega)]
      | escape e =>
        have hzero : outSize - 1 - out.length = 0 := by omega
        rw [hzero, List.drop_zero] at h
        rw [readStatusChars_escape, if_neg hroom]
        refine ih hout fun hcs => h ?_
        rw [hzero, List.drop_zero] at hcs
        exact List.forall_mem_cons.mpr ⟨⟨e, rfl⟩, hcs⟩

/-- Only a string that ends is read: the call returns true at a closing quote alone. -/
theorem stringAt_of_readStatusChars {outSize : ℕ} {s out : List UInt8}
    (h : (readStatusChars outSize s out).2 = true) : ∃ cs, Json.stringAt s = some cs := by
  induction hn : s.length using Nat.strong_induction_on generalizing s out with
  | _ n ih =>
    subst hn
    cases s with
    | nil => cases h
    | cons c s =>
      by_cases hescape : c = Json.backslash ∧ s ≠ []
      · obtain ⟨rfl, hne⟩ := hescape
        obtain ⟨d, s, rfl⟩ := List.exists_cons_of_ne_nil hne
        rw [readStatusChars_backslash] at h
        obtain ⟨cs, hcs⟩ := ih s.length (by simp only [List.length_cons]; omega) h rfl
        exact ⟨.escape d :: cs, by rw [Json.stringAt_escape, hcs]; rfl⟩
      · rw [readStatusChars_cons, if_neg hescape] at h
        split_ifs at h with hquote hfull
        · exact ⟨[], by rw [hquote, Json.stringAt_quote]⟩
        · obtain ⟨cs, hcs⟩ := ih s.length (Nat.lt_succ_self _) h rfl
          have hplain : c ≠ Json.quote ∧ c ≠ Json.backslash := by
            refine ⟨hquote, fun hbackslash => hescape ⟨hbackslash, ?_⟩⟩
            rintro rfl
            cases hcs
          exact ⟨.plain c hplain :: cs, by rw [Json.stringAt_plain hplain, hcs]; rfl⟩

/-- What is written has room for a NUL behind it, and holds none. -/
theorem readStatusChars_written {outSize : ℕ} {s out : List UInt8} (hs : 0 ∉ s) (hnul : 0 ∉ out)
    (hout : out.length < outSize) :
    0 ∉ (readStatusChars outSize s out).1 ∧ (readStatusChars outSize s out).1.length < outSize := by
  induction hn : s.length using Nat.strong_induction_on generalizing s out with
  | _ n ih =>
    subst hn
    have hone : ∀ b : UInt8, b ≠ 0 → 0 ∉ out ++ [b] := fun b hb h => by
      rcases List.mem_append.mp h with h | h
      · exact hnul h
      · exact hb (List.mem_singleton.mp h).symm
    cases s with
    | nil => exact ⟨hnul, hout⟩
    | cons c s =>
      rw [List.mem_cons, not_or] at hs
      by_cases hescape : c = Json.backslash ∧ s ≠ []
      · obtain ⟨rfl, hne⟩ := hescape
        obtain ⟨d, s, rfl⟩ := List.exists_cons_of_ne_nil hne
        rw [List.mem_cons, not_or] at hs
        have hlt : s.length < (Json.backslash :: d :: s).length := by
          simp only [List.length_cons]
          omega
        rw [readStatusChars_backslash]
        split
        · rename_i hroom
          exact ih s.length hlt hs.2.2 (hone _ (decodeEscape_ne_zero (Ne.symm hs.2.1)))
            (room_succ hroom _).2 rfl
        · exact ih s.length hlt hs.2.2 hnul hout rfl
      · rw [readStatusChars_cons, if_neg hescape]
        split_ifs with hquote hfull
        · exact ⟨hnul, hout⟩
        · exact ⟨hnul, hout⟩
        · exact ih s.length (Nat.lt_succ_self _) hs.2 (hone c (Ne.symm hs.1))
            (room_succ (Nat.lt_of_not_le hfull) c).2 rfl

/-! ### The buffer -/

/-- What a call leaves in the buffer if it returns true. -/
theorem readString_closed {json key p : CStr} {out : List UInt8} {outSize : ℕ}
    (hfind : rrServerStatusFindString json key = some p) (hsize : 0 < outSize)
    (hout : outSize ≤ out.length) (hread : (readStatusChars outSize p.bytes []).2 = true) :
    (rrServerStatusReadString json key out outSize).2 = true ∧
      CStr.ofBuffer (rrServerStatusReadString json key out outSize).1 =
        asciiSafeInPlace (readStatusChars outSize p.bytes []).1 outSize ∧
      (rrServerStatusReadString json key out outSize).1.drop outSize = out.drop outSize := by
  obtain ⟨hnul, hlen⟩ := readStatusChars_written p.noNul List.not_mem_nil hsize
  rw [rrServerStatusReadString, hfind]
  dsimp only
  rw [if_neg (Nat.pos_iff_ne_zero.mp hsize), if_pos hread]
  generalize (readStatusChars outSize p.bytes []).1 = written at hnul hlen
  obtain ⟨hascii, hfits, hshort⟩ := asciiText_spec hnul hsize
  rw [Nat.zero_add] at hfits
  have hroom : 0 + (written ++ [0]).length ≤ out.length := by
    rw [List.length_append, List.length_singleton]
    omega
  have hmem : written ++ [0] <+: (writeBytes out 0 (written ++ [0])).drop 0 := by
    rw [writeBytes_eq hroom]
    exact List.prefix_append _ _
  refine ⟨rfl, ?_, ?_⟩
  · ext1
    rw [rrcConAsciiSafe_eq hsize hnul hmem (Or.inl (Nat.le_refl 0))
      (by rw [length_writeBytes]; omega), asciiSafeInPlace_bytes hnul hsize]
    exact takeWhile_of_isPrefix (fun h => (hascii 0 h).2 rfl)
      ((List.prefix_append_right_inj _).mpr (List.cons_prefix_cons.mpr ⟨rfl, List.nil_prefix⟩))
  · rw [rrcConAsciiSafe, if_neg (Nat.pos_iff_ne_zero.mp hsize),
      asciiSafeLoop_eq ⟨hnul, hmem, Or.inl (Nat.le_refl _)⟩, drop_writeBytes, drop_writeBytes]
    · rw [List.length_append, List.length_singleton]
      omega
    · rw [List.length_append, List.length_singleton]
      omega

/-- **At most `out_size` bytes are written**: behind these the caller's memory is as it was,
whatever the string is. -/
theorem readString_bounded (json key : CStr) {out : List UInt8} {outSize : ℕ}
    (hout : outSize ≤ out.length) :
    (rrServerStatusReadString json key out outSize).1.drop outSize = out.drop outSize := by
  cases hfind : rrServerStatusFindString json key with
  | none => rw [rrServerStatusReadString, hfind]
  | some p =>
    rcases Nat.eq_zero_or_pos outSize with rfl | hsize
    · rw [rrServerStatusReadString, hfind]
      rfl
    · cases hread : (readStatusChars outSize p.bytes []).2 with
      | true => exact (readString_closed hfind hsize hout hread).2.2
      | false =>
        have hlen := (readStatusChars_written p.noNul List.not_mem_nil hsize).2
        rw [rrServerStatusReadString, hfind]
        dsimp only
        rw [if_neg (Nat.pos_iff_ne_zero.mp hsize), if_neg (by rw [hread]; exact Bool.false_ne_true)]
        exact drop_writeBytes (by omega)

/-! ### What is lost -/

/-- The bytes that escapes stand for. -/
def shownEscapes : List UInt8 := Json.simpleEscapes.map Prod.snd

/-- How many bytes of a text an escape may stand for. -/
def escapeCount (s : List UInt8) : ℕ := s.countP (· ∈ shownEscapes)

/-- The bytes in two texts that escapes may stand for add up when the texts are put together. -/
theorem escapeCount_append (s t : List UInt8) : escapeCount (s ++ t) = escapeCount s + escapeCount t :=
  List.countP_append

/-- An escape of one byte is read as it is, or is read as a letter. -/
theorem simpleEscapes_spec : ∀ p ∈ Json.simpleEscapes, decodeEscape p.1 < 0x80 ∧ p.2 < 0x80 ∧
    (p.1 ∈ statusEscapes ∧ decodeEscape p.1 = p.2 ∨
      p.1 ∉ statusEscapes ∧ escapeCount [decodeEscape p.1] = 0 ∧ escapeCount [p.2] = 1) :=
  List.forall_iff_forall_mem.mp (by decide)

/-- A digit is ASCII and no escape stands for it. -/
theorem digit_spec {b : UInt8} (h : (Hex.digit? b).isSome) : b < 0x80 ∧ b ∉ shownEscapes := by
  have hnone : ∀ x ∈ shownEscapes, Hex.digit? x = none := List.forall_iff_forall_mem.mp (by decide)
  refine ⟨?_, fun hmem => ?_⟩
  · unfold Hex.digit? at h
    split_ifs at h with h₁ h₂ h₃
    · exact Nat.lt_of_le_of_lt h₁.2 (by decide)
    · exact Nat.lt_of_le_of_lt h₂.2 (by decide)
    · exact Nat.lt_of_le_of_lt h₃.2 (by decide)
    · cases h
  · rw [hnone b hmem] at h
    cases h

/-- A `\u` and its four digits are read as text, as five characters without a special one among
them. -/
theorem unit_spec {digits : List StringChar} {n : ℕ} (h : Json.IsUnit digits n) :
    let bytes := (.escape Json.unicodeMark :: digits).map decodeChar
    (∀ b ∈ bytes, b < 0x80) ∧ escapeCount bytes = 0 ∧ bytes.length = 5 := by
  have hdigits : ∀ b ∈ digits.map decodeChar, b < 0x80 ∧ b ∉ shownEscapes := by
    intro b hb
    obtain ⟨c, hc, rfl⟩ := List.mem_map.mp hb
    obtain ⟨b, hb, rfl, hdigit⟩ := Json.digits_of_unitValue h.2 c hc
    exact digit_spec hdigit
  have hmark : decodeEscape Json.unicodeMark < 0x80 ∧ decodeEscape Json.unicodeMark ∉ shownEscapes :=
    by decide
  have hall : ∀ b ∈ (StringChar.escape Json.unicodeMark :: digits).map decodeChar,
      b < 0x80 ∧ b ∉ shownEscapes := List.forall_mem_cons.mpr ⟨hmark, hdigits⟩
  refine ⟨fun b hb => (hall b hb).1, List.countP_eq_zero.mpr fun b hb hmem => ?_, ?_⟩
  · exact (hall b hb).2 (of_decide_eq_true hmem)
  · rw [List.length_map, List.length_cons, h.1]

/-- What is read, and what should be: too few of the bytes that escapes stand for, or too much
text, and one of it where something is lost. -/
structure Measured (read shown : List UInt8) (lost : Prop) : Prop where
  count : escapeCount read ≤ escapeCount shown
  length : shown.length ≤ read.length
  strict : lost → escapeCount read < escapeCount shown ∨ shown.length < read.length

/-- A text that is read as it should be: as many such bytes, as much text, and nothing is lost. -/
theorem Measured.refl (text : List UInt8) : Measured text text False :=
  ⟨Nat.le_refl _, Nat.le_refl _, False.elim⟩

/-- Two texts one after the other: what is missing in one of them is not made up for by the other,
so the whole loses something if one of the parts does. -/
theorem Measured.append {read shown read' shown' : List UInt8} {lost lost' : Prop}
    (h : Measured read shown lost) (h' : Measured read' shown' lost') :
    Measured (read ++ read') (shown ++ shown') (lost ∨ lost') := by
  obtain ⟨hcount, hlength, hstrict⟩ := h
  obtain ⟨hcount', hlength', hstrict'⟩ := h'
  refine ⟨?_, ?_, fun hlost => ?_⟩
  · rw [escapeCount_append, escapeCount_append]
    omega
  · rw [List.length_append, List.length_append]
    omega
  · rw [escapeCount_append, escapeCount_append, List.length_append, List.length_append]
    rcases hlost with hlost | hlost
    · have := hstrict hlost
      omega
    · have := hstrict' hlost
      omega

/-- The measures only promise a difference where something is lost, so they hold as well for a
condition under which less is lost. -/
theorem Measured.imp {read shown : List UInt8} {lost lost' : Prop} (h : Measured read shown lost)
    (himp : lost' → lost) : Measured read shown lost' :=
  ⟨h.count, h.length, fun hlost => h.strict (himp hlost)⟩

/-- Nothing is lost where nothing is lost in front and behind. -/
theorem understood_append {cs ds : List StringChar} (hcs : Understood cs) (hds : Understood ds) :
    Understood (cs ++ ds) :=
  fun e he => (List.mem_append.mp he).elim (hcs e) (hds e)

/-- An escape of one byte, such as `\n`: it is read as what it stands for, or as its letter, and
then something is lost. -/
theorem measured_simple {e x : UInt8} (he : (e, x) ∈ Json.simpleEscapes) :
    Measured [decodeEscape e] [x] (¬ Understood [.escape e]) := by
  rcases simpleEscapes_spec _ he with ⟨-, -, ⟨hknown, hsame⟩ | ⟨-, hread, hshown⟩⟩
  · have hsame' : decodeEscape e = x := hsame
    rw [hsame']
    refine (Measured.refl [x]).imp fun hlost => hlost fun d hd => ?_
    cases List.mem_singleton.mp hd
    exact hknown
  · have hread' : escapeCount [decodeEscape e] = 0 := hread
    have hshown' : escapeCount [x] = 1 := hshown
    exact ⟨by omega, Nat.le_refl 1, fun _ => Or.inl (by omega)⟩

/-- A character that is written with `\u` and read as text: five characters at least stand where the
converted one has three at most. -/
theorem measured_unicode {bytes repl : List UInt8} (hcount : escapeCount bytes = 0)
    (hlen : 5 ≤ bytes.length) (hrepl : repl.length ≤ 3) (lost : Prop) : Measured bytes repl lost :=
  ⟨by omega, by omega, fun _ => Or.inr (by omega)⟩

/-- A character that is read as ASCII, and what comes behind it. -/
theorem measured_block {piece cs : List StringChar} {front bytes repl v value : List UInt8}
    (hmeasured : Measured bytes repl (¬ Understood piece)) (hne : bytes ≠ [])
    (hascii : ∀ b ∈ bytes, b < 0x80) (hbytes : piece.map decodeChar = bytes)
    (hvalue : asciiAll (front ++ (v ++ value)) = asciiAll front ++ (repl ++ asciiAll value))
    (hrest : Measured (asciiAll (cs.map decodeChar)) (asciiAll value) (¬ Understood cs)) :
    Measured (asciiAll (front ++ (piece ++ cs).map decodeChar)) (asciiAll (front ++ (v ++ value)))
      (¬ Understood (piece ++ cs)) := by
  have hread : asciiAll (front ++ (piece ++ cs).map decodeChar) =
      asciiAll front ++ (bytes ++ asciiAll (cs.map decodeChar)) := by
    rw [List.map_append, hbytes, asciiAll_append_ascii hne hascii]
  rw [hread, hvalue]
  refine ((Measured.refl (asciiAll front)).append (hmeasured.append hrest)).imp fun hlost => ?_
  by_contra hnone
  refine hlost (understood_append ?_ ?_)
  · exact not_not.mp fun hp => hnone (Or.inr (Or.inl hp))
  · exact not_not.mp fun hc => hnone (Or.inr (Or.inr hc))

/-- **What is lost shows**: a string that has an escape that is not understood is not read as the
text that it stands for, by a measure that grows with each of them. -/
theorem decodes_measure {cs : List StringChar} {value : List UInt8} (h : Decodes cs value)
    (front : List UInt8) :
    Measured (asciiAll (front ++ cs.map decodeChar)) (asciiAll (front ++ value))
      (¬ Understood cs) := by
  induction h generalizing front with
  | nil => exact (Measured.refl _).imp fun hlost => hlost fun e he => by cases he
  | cons hpiece h ih =>
    rename_i piece cs v value
    have hrest : Measured (asciiAll (cs.map decodeChar)) (asciiAll value) (¬ Understood cs) := ih []
    cases hpiece with
    | plain b hb =>
      have hnext := ih (front ++ [b])
      rw [List.append_assoc, List.append_assoc] at hnext
      refine hnext.imp fun hlost hcs => hlost (understood_append (fun e he => ?_) hcs)
      cases List.mem_singleton.mp he
    | simple he =>
      obtain ⟨hread, hshown, -⟩ := simpleEscapes_spec _ he
      exact measured_block (measured_simple he) (List.cons_ne_nil _ _)
        (List.forall_mem_singleton.mpr hread) rfl
        (asciiAll_append_ascii (List.cons_ne_nil _ _) (List.forall_mem_singleton.mpr hshown)) hrest
    | unicode char hdigits =>
      obtain ⟨hascii, hcount, hlen⟩ := unit_spec hdigits
      obtain ⟨repl, hrepl, hvalue⟩ := asciiAll_append_utf8 char
      exact measured_block (measured_unicode hcount (Nat.le_of_eq hlen.symm) hrepl _)
        (List.cons_ne_nil _ _) hascii rfl (hvalue _ _) hrest
    | pair char hhigh hlow hm hn hchar =>
      obtain ⟨hascii, hcount, hlen⟩ := unit_spec hhigh
      obtain ⟨hascii', hcount', -⟩ := unit_spec hlow
      obtain ⟨repl, hrepl, hvalue⟩ := asciiAll_append_utf8 char
      refine measured_block (measured_unicode ?_ ?_ hrepl _) ?_
        (List.forall_mem_append.mpr ⟨hascii, hascii'⟩) ?_ (hvalue _ _) hrest
      · rw [escapeCount_append, hcount, hcount']
      · rw [List.length_append, hlen]
        exact Nat.le_add_right _ _
      · exact List.cons_ne_nil _ _
      · rw [List.map_cons, List.map_append]
        rfl

/-- A string without other escapes is read as it is. -/
theorem decodes_understood {cs : List StringChar} {value : List UInt8} (h : Decodes cs value)
    (hcs : Understood cs) : value = cs.map decodeChar := by
  have hmark : Json.unicodeMark ∉ statusEscapes := by decide
  induction h with
  | nil => rfl
  | cons hpiece h ih =>
    rw [List.map_append, ← ih fun e he => hcs e (List.mem_append_right _ he)]
    congr 1
    cases hpiece with
    | plain b hb => rfl
    | simple he =>
      have hknown := hcs _ List.mem_cons_self
      rcases simpleEscapes_spec _ he with ⟨-, -, ⟨-, hsame⟩ | ⟨hunknown, -⟩⟩
      · exact congrArg (fun b => [b]) hsame.symm
      · exact absurd hknown hunknown
    | unicode char hdigits => exact absurd (hcs _ List.mem_cons_self) hmark
    | pair char hhigh hlow hm hn hchar => exact absurd (hcs _ List.mem_cons_self) hmark

/-- The string that is looked up. -/
def statusString (json key : CStr) : Option (List StringChar) :=
  (rrServerStatusFindString json key).bind fun p => Json.stringAt p.bytes

/-- A string is found for a key exactly where the search stops behind an opening quote from which a
string of the grammar goes up to its closing quote. -/
theorem statusString_eq_some {json key : CStr} {cs : List StringChar}
    (h : statusString json key = some cs) :
    ∃ p rest, rrServerStatusFindString json key = some p ∧
      p.bytes = Json.rawBytes cs ++ Json.quote :: rest := by
  obtain ⟨p, hp, hcs⟩ := Option.bind_eq_some_iff.mp h
  obtain ⟨rest, hrest⟩ := Json.stringAt_eq_some_iff.mp hcs
  exact ⟨p, rest, hp, hrest⟩

/-- The string of a key depends only on the bytes behind the place that the search finds. Concrete
texts are settled with this lemma. -/
theorem statusString_of_bytes {json key : CStr} {bytes : List UInt8}
    (h : (rrServerStatusFindString json key).map CStr.bytes = some bytes) :
    statusString json key = Json.stringAt bytes := by
  obtain ⟨p, hp, rfl⟩ := Option.map_eq_some_iff.mp h
  rw [statusString, hp, Option.bind_some]

/-- **What is read** of a string of which escapes are left out at most. -/
theorem readString_escapes {json key : CStr} {out : List UInt8} {outSize : ℕ} (hsize : 0 < outSize)
    (hout : outSize ≤ out.length) {cs : List StringChar} (hcs : statusString json key = some cs)
    (hescapes : AllEscapes (cs.drop (outSize - 1))) :
    (rrServerStatusReadString json key out outSize).2 = true ∧
      CStr.ofBuffer (rrServerStatusReadString json key out outSize).1 =
        asciiSafeInPlace (statusBytes outSize cs) outSize ∧
      0 ∉ statusBytes outSize cs ∧ (statusBytes outSize cs).length < outSize := by
  obtain ⟨p, rest, hp, hrest⟩ := statusString_eq_some hcs
  have hread : readStatusChars outSize (Json.rawBytes cs ++ Json.quote :: rest) [] =
      ([] ++ statusBytes outSize cs, true) := readStatusChars_escapes rest hsize hescapes
  rw [← hrest, List.nil_append] at hread
  have hwritten := readStatusChars_written p.noNul List.not_mem_nil hsize
  obtain ⟨htrue, hbuffer, -⟩ := readString_closed hp hsize hout (congrArg Prod.snd hread)
  rw [hread] at hbuffer hwritten
  exact ⟨htrue, hbuffer, hwritten⟩

/-- A string that has a plain character behind the room of the buffer is too long, and the call
returns false. Only escapes are left out silently. -/
theorem readString_plain {json key : CStr} {out : List UInt8} {outSize : ℕ} (hsize : 0 < outSize)
    {cs : List StringChar} (hcs : statusString json key = some cs)
    (hplain : ¬ AllEscapes (cs.drop (outSize - 1))) :
    (rrServerStatusReadString json key out outSize).2 = false := by
  obtain ⟨p, rest, hp, hrest⟩ := statusString_eq_some hcs
  have hread : (readStatusChars outSize (Json.rawBytes cs ++ Json.quote :: rest) []).2 = false :=
    readStatusChars_plain rest hsize hplain
  rw [← hrest] at hread
  rw [rrServerStatusReadString, hp]
  dsimp only
  rw [if_neg (Nat.pos_iff_ne_zero.mp hsize), if_neg (by rw [hread]; exact Bool.false_ne_true)]

/-- Only a string that ends is read, so where the call returns true there is one for the key. -/
theorem statusString_of_read {json key : CStr} {out : List UInt8} {outSize : ℕ}
    (h : (rrServerStatusReadString json key out outSize).2 = true) :
    ∃ cs, statusString json key = some cs := by
  rw [rrServerStatusReadString] at h
  cases hp : rrServerStatusFindString json key with
  | none =>
    rw [hp] at h
    cases h
  | some p =>
    rw [hp] at h
    dsimp only at h
    split_ifs at h with hzero hread
    · obtain ⟨cs, hcs⟩ := stringAt_of_readStatusChars hread
      exact ⟨cs, by rw [statusString, hp, Option.bind_some, hcs]⟩

/-- What a caller relies on: what is read is the whole string with every escape, and no byte behind
the buffer is written. -/
structure ReadsWhole (json key : CStr) (out : List UInt8) (outSize : ℕ) : Prop where
  whole : (rrServerStatusReadString json key out outSize).2 = true →
    ∃ cs, statusString json key = some cs ∧ ∀ value, Decodes cs value →
      ∃ text : CStr, text.bytes = value ∧ text.len < outSize ∧
        CStr.ofBuffer (rrServerStatusReadString json key out outSize).1 =
          asciiSafeInPlace text.bytes outSize
  bounded : (rrServerStatusReadString json key out outSize).1.drop outSize = out.drop outSize

/-- What fits is replaced piece by piece to its end, and nothing is cut. -/
theorem asciiSafeInPlace_eq_all {s : List UInt8} {outSize : ℕ} (hs : 0 ∉ s)
    (hlen : s.length < outSize) : (asciiSafeInPlace s outSize).bytes = asciiAll s := by
  rw [asciiSafeInPlace_bytes hs (Nat.zero_lt_of_lt hlen), asciiText_eq_all hs (by omega)]

/-- **If the result is the whole string, nothing was left out**, and every escape is understood. -/
theorem understood_of_whole {outSize : ℕ} {cs : List StringChar} {value : List UInt8}
    (hvalue : Decodes cs value) (hescapes : AllEscapes (cs.drop (outSize - 1)))
    (hsame : asciiAll (statusBytes outSize cs) = asciiAll value) :
    cs.drop (outSize - 1) = [] ∧ Understood cs := by
  rw [← List.take_append_drop (outSize - 1) cs] at hvalue
  obtain ⟨front, back, rfl, hfront, hback⟩ := hvalue.split hescapes
  obtain ⟨hlen, hshown⟩ := hback.of_escapes hescapes
  have hmeasured := decodes_measure hfront []
  rw [List.nil_append, List.nil_append, List.map_take] at hmeasured
  have hcount : escapeCount back = back.length :=
    List.countP_eq_length.mpr fun x hx => decide_eq_true (hshown x hx)
  have hascii : ∀ b ∈ back, b < 0x80 := by
    have hall : ∀ x ∈ shownEscapes, x < 0x80 := List.forall_iff_forall_mem.mp (by decide)
    exact fun b hb => hall b (hshown b hb)
  have hback : back = [] := by
    by_contra hne
    have hsplit : asciiAll (front ++ (back ++ [])) = asciiAll front ++ (back ++ asciiAll []) :=
      asciiAll_append_ascii hne hascii
    have hpos := List.length_pos_of_ne_nil hne
    rw [List.append_nil] at hsplit
    have hcounts := congrArg escapeCount (hsame.trans hsplit)
    rw [escapeCount_append, escapeCount_append, hcount] at hcounts
    have hle := hmeasured.count
    rw [statusBytes] at hcounts
    omega
  subst hback
  have hdrop : cs.drop (outSize - 1) = [] := List.length_eq_zero_iff.mp hlen.symm
  have htake : cs.take (outSize - 1) = cs := by
    have := List.take_append_drop (outSize - 1) cs
    rwa [hdrop, List.append_nil] at this
  refine ⟨hdrop, ?_⟩
  rw [htake] at hmeasured
  by_contra hlost
  rw [List.append_nil, statusBytes] at hsame
  have hstrict := hmeasured.strict hlost
  rw [hsame] at hstrict
  omega

/-- **A string is read whole exactly when** one of its own bytes does not fit, so that it is not read
at all, or it fits and none of its escapes is `\b`, `\f` or `\u`. -/
theorem read_string_whole_iff (json key : CStr) {out : List UInt8} {outSize : ℕ}
    (hsize : 0 < outSize) (hout : outSize ≤ out.length) :
    ReadsWhole json key out outSize ↔
      ∀ cs value, statusString json key = some cs → Decodes cs value →
        ¬ AllEscapes (cs.drop (outSize - 1)) ∨ cs.length < outSize ∧ Understood cs := by
  constructor
  · intro hwhole cs value hcs hvalue
    by_cases hescapes : AllEscapes (cs.drop (outSize - 1))
    · obtain ⟨htrue, hbuffer, hnul, hlen⟩ := readString_escapes hsize hout hcs hescapes
      obtain ⟨cs', hcs', hall⟩ := hwhole.whole htrue
      obtain rfl : cs = cs' := Option.some.inj (hcs.symm.trans hcs')
      obtain ⟨text, rfl, hfits, hsame⟩ := hall _ hvalue
      have hbytes := congrArg CStr.bytes (hbuffer.symm.trans hsame)
      rw [asciiSafeInPlace_eq_all hnul hlen, asciiSafeInPlace_eq_all text.noNul hfits] at hbytes
      obtain ⟨hdrop, hunderstood⟩ := understood_of_whole hvalue hescapes hbytes
      have := List.drop_eq_nil_iff.mp hdrop
      exact Or.inr ⟨by omega, hunderstood⟩
    · exact Or.inl hescapes
  · intro hcond
    refine ⟨fun htrue => ?_, readString_bounded json key hout⟩
    obtain ⟨cs, hcs⟩ := statusString_of_read htrue
    refine ⟨cs, hcs, fun value hvalue => ?_⟩
    rcases hcond cs value hcs hvalue with hplain | ⟨hlen, hunderstood⟩
    · rw [readString_plain hsize hcs hplain] at htrue
      cases htrue
    · have hdrop : cs.drop (outSize - 1) = [] := List.drop_eq_nil_iff.mpr (by omega)
      have hescapes : AllEscapes (cs.drop (outSize - 1)) := by
        rw [hdrop]
        exact fun c hc => by cases hc
      obtain ⟨-, hbuffer, hnul, hlen'⟩ := readString_escapes hsize hout hcs hescapes
      have hbytes : statusBytes outSize cs = value := by
        rw [statusBytes, decodes_understood hvalue hunderstood, List.take_of_length_le]
        rw [List.length_map]
        omega
      rw [hbytes] at hbuffer hnul hlen'
      exact ⟨⟨value, hnul⟩, rfl, hlen', hbuffer⟩

/-- A value with an escaped line break, read to a buffer of three bytes, which has room for its two
bytes and the NUL: it is read whole. -/
theorem read_string_whole_iff_newline :
    ReadsWhole (lit "\x7b\"k\" : \"a\\n\"\x7d") (lit "k") (List.replicate 3 0) 3 := by
  refine (read_string_whole_iff _ _ (by decide) (by decide)).mpr fun cs value hcs _ => Or.inr ?_
  have hbytes : statusString (lit "\x7b\"k\" : \"a\\n\"\x7d") (lit "k") =
      Json.stringAt [97, 92, 110, 34, 125] := statusString_of_bytes (by decide +kernel)
  rw [hbytes] at hcs
  cases hcs
  refine ⟨by decide, fun e he => ?_⟩
  rcases List.mem_cons.mp he with h | h
  · cases h
  · cases List.mem_singleton.mp h
    decide

/-- `{"k":"ab\n"}` in three bytes: the line break is left out, and the call returns true. -/
theorem newline_left_out :
    ¬ ReadsWhole (lit "\x7b\"k\":\"ab\\n\"\x7d") (lit "k") (List.replicate 3 0) 3 := by
  intro hwhole
  have ha : (97 : UInt8) ≠ Json.quote ∧ (97 : UInt8) ≠ Json.backslash := by decide
  have hb : (98 : UInt8) ≠ Json.quote ∧ (98 : UInt8) ≠ Json.backslash := by decide
  have hcs : statusString (lit "\x7b\"k\":\"ab\\n\"\x7d") (lit "k") =
      some [.plain 97 ha, .plain 98 hb, .escape 110] := by
    have hbytes : statusString (lit "\x7b\"k\":\"ab\\n\"\x7d") (lit "k") =
        Json.stringAt [97, 98, 92, 110, 34, 125] := statusString_of_bytes (by decide +kernel)
    rw [hbytes]
    rfl
  have hroom : 3 ≤ (List.replicate 3 (0 : UInt8)).length := by decide
  obtain ⟨htrue, -⟩ := readString_escapes (by decide) hroom hcs
    (List.forall_mem_singleton.mpr ⟨110, rfl⟩)
  obtain ⟨cs, hcs', hall⟩ := hwhole.whole htrue
  cases hcs.symm.trans hcs'
  have hnewline : Piece [.escape 110] [10] := .simple (by decide)
  have hvalue : Decodes [.plain 97 ha, .plain 98 hb, .escape 110] [97, 98, 10] :=
    .cons (.plain 97 ha) (.cons (.plain 98 hb) (.cons hnewline .nil))
  obtain ⟨text, htext, hfits, -⟩ := hall _ hvalue
  rw [CStr.len, htext] at hfits
  exact absurd hfits (by decide)

end RrLauncher
