/-
# Hexadecimal numbers in byte strings

`strtoul` with base 16 for an `unsigned long` of 32 bits, which saturates.
-/

import RrLauncher.Lib.CStr
import RrLauncher.Lib.Decimal

namespace Hex

/-- The value of a hexadecimal digit. -/
def digit? (c : UInt8) : Option ℕ :=
  if 48 ≤ c ∧ c ≤ 57 then some (c.toNat - 48)
  else if 65 ≤ c ∧ c ≤ 70 then some (c.toNat - 55)
  else if 97 ≤ c ∧ c ≤ 102 then some (c.toNat - 87)
  else none

/-- The value of the digits that a string begins with, after `n`. -/
def leadingValue : List UInt8 → ℕ → ℕ
  | [], n => n
  | c :: rest, n =>
    match digit? c with
    | some d => leadingValue rest (16 * n + d)
    | none => n

/-- The string without the `0x` or `0X` that a hexadecimal number may start with. -/
def skipPrefix : List UInt8 → List UInt8
  | 48 :: 120 :: rest => rest
  | 48 :: 88 :: rest => rest
  | s => s

/-- `strtoul(s, NULL, 16)`. -/
def strtoul (s : List UInt8) : UInt32 :=
  let convert (negative : Bool) (rest : List UInt8) : UInt32 :=
    let n := leadingValue (skipPrefix rest) 0
    if 2 ^ 32 ≤ n then 0xFFFFFFFF
    else if negative then -UInt32.ofNat n else UInt32.ofNat n
  match s.dropWhile Decimal.isspace with
  | 45 :: rest => convert true rest
  | 43 :: rest => convert false rest
  | rest => convert false rest

example : strtoul (CStr.lit " 0x8000F00D;").bytes = 0x8000F00D := by decide +kernel

end Hex
