/-
# Text for the console

`rrc_con_ascii_safe` of `console.c`: UTF-8 text is turned into ASCII.  The text and the
output may be the same buffer, so both are positions in one memory.
-/

import RrLauncher.Lib.CStr

namespace RrLauncher

open CStr (lit)

/-- `repl`: what a code point is replaced by. -/
def asciiReplacement (codepoint : ℕ) : List UInt8 :=
  (match codepoint with
    | 0x00E4 => lit "ae"
    | 0x00C4 => lit "Ae"
    | 0x00F6 => lit "oe"
    | 0x00D6 => lit "Oe"
    | 0x00FC => lit "ue"
    | 0x00DC => lit "Ue"
    | 0x00DF => lit "ss"
    | 0x2013 => lit "-"
    | 0x2014 => lit "-"
    | 0x2018 => lit "'"
    | 0x2019 => lit "'"
    | 0x201C => lit "\""
    | 0x201D => lit "\""
    | 0x2026 => lit "..."
    | _ => lit "?").bytes

/-- The low bits of a byte. -/
def lowBits (b mask : UInt8) : ℕ := (b &&& mask).toNat

/-- `(p[i] & 0xC0) == 0x80`, of the string at `p`. -/
def isContinuation (p : List UInt8) (i : ℕ) : Bool := p.getD i 0 &&& 0xC0 = 0x80

/-- A turn of the loop of `rrc_con_ascii_safe`, for the string at `p`, which is not empty:
how many bytes it takes, and what it writes for them. -/
def asciiPiece (p : List UInt8) : ℕ × List UInt8 :=
  let c0 := p.headD 0
  if c0 < 0x80 then (1, [c0])
  else if c0 &&& 0xE0 = 0xC0 ∧ isContinuation p 1 then
    (2, asciiReplacement (lowBits c0 0x1F * 2 ^ 6 + lowBits (p.getD 1 0) 0x3F))
  else if c0 &&& 0xF0 = 0xE0 ∧ isContinuation p 1 ∧ isContinuation p 2 then
    (3, asciiReplacement (lowBits c0 0x0F * 2 ^ 12 + lowBits (p.getD 1 0) 0x3F * 2 ^ 6 +
      lowBits (p.getD 2 0) 0x3F))
  else if c0 &&& 0xF8 = 0xF0 ∧ isContinuation p 1 ∧ isContinuation p 2 ∧ isContinuation p 3 then
    (4, asciiReplacement (lowBits c0 0x07 * 2 ^ 18 + lowBits (p.getD 1 0) 0x3F * 2 ^ 12 +
      lowBits (p.getD 2 0) 0x3F * 2 ^ 6 + lowBits (p.getD 3 0) 0x3F))
  else (1, [63])

/-- `*p++ = b` for some bytes. -/
def writeBytes (mem : List UInt8) (p : ℕ) : List UInt8 → List UInt8
  | [] => mem
  | b :: bs => writeBytes (mem.set p b) (p + 1) bs

/-- Writing bytes into the buffer leaves its length. -/
theorem length_writeBytes (mem : List UInt8) (p : ℕ) (bs : List UInt8) :
    (writeBytes mem p bs).length = mem.length := by
  induction bs generalizing mem p with
  | nil => rfl
  | cons b bs ih => rw [writeBytes, ih, List.length_set]

/-- Each turn of the loop takes a byte at least, so the loop comes to its end. -/
theorem asciiPiece_pos (p : List UInt8) : 0 < (asciiPiece p).1 := by
  unfold asciiPiece
  dsimp only
  split_ifs <;> exact Nat.succ_pos _

/-- The loop of `rrc_con_ascii_safe`: the memory, the position in the text and the bytes that
were written to `out`. -/
def asciiSafeLoop (out outSize : ℕ) (mem : List UInt8) (p used : ℕ) : List UInt8 :=
  let s := (mem.drop p).takeWhile (· ≠ 0)
  if _h : s ≠ [] ∧ used + 1 < outSize then
    let repl := (asciiPiece s).2.take (outSize - 1 - used)
    asciiSafeLoop out outSize (writeBytes mem (out + used) repl) (p + (asciiPiece s).1)
      (used + repl.length)
  else mem.set (out + used) 0
  termination_by mem.length - p
  decreasing_by
    have hpos := asciiPiece_pos s
    have hp : p < mem.length := by
      by_contra hp
      exact _h.1 (by simp [s, List.drop_of_length_le (Nat.le_of_not_lt hp)])
    rw [length_writeBytes]
    exact Nat.sub_lt_sub_left hp (Nat.lt_add_of_pos_right hpos)

/-- `rrc_con_ascii_safe(text, out, out_size)`, where neither pointer is null. -/
def rrcConAsciiSafe (mem : List UInt8) (text out outSize : ℕ) : List UInt8 :=
  if outSize = 0 then mem else asciiSafeLoop out outSize mem text 0

/-- What a buffer of `outSize` bytes with some text holds after
`rrc_con_ascii_safe(buffer, buffer, outSize)`. -/
def asciiSafeInPlace (text : List UInt8) (outSize : ℕ) : CStr :=
  CStr.ofBuffer (rrcConAsciiSafe (text ++ [0]) 0 0 outSize)

/-- `ä` takes two bytes and becomes two, `…` three and three. -/
example : asciiSafeInPlace [0xC3, 0xA4, 0x21, 0xE2, 0x80, 0xA6] 64 = lit "ae!..." := by decide +kernel

end RrLauncher
