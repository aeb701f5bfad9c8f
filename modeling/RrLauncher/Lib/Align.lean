/-
# Rounding to a power of two

`x & -(2 ^ k)` clears the last `k` bits, so it is the multiple of `2 ^ k` at or below
`x`.  With `2 ^ k - 1` added first it is the one at or above, as long as the sum does
not wrap around.
-/

import Mathlib.Algebra.Group.Nat.Defs
import Mathlib.Data.Nat.Notation

namespace Align

/-- Keeping the bits from the `k`th on rounds down to the next lower multiple of that power of two.
It is shown bit by bit. -/
theorem land_eq_div_mul {w k x : ℕ} (hk : k ≤ w) (hx : x < 2 ^ w) :
    x &&& (2 ^ w - 2 ^ k) = x / 2 ^ k * 2 ^ k := by
  have hmask : 2 ^ w - 2 ^ k = (2 ^ (w - k) - 1) * 2 ^ k := by
    rw [Nat.sub_one_mul, ← Nat.pow_add, Nat.sub_add_cancel hk]
  rw [hmask]
  refine Nat.eq_of_testBit_eq fun i => ?_
  rw [Nat.testBit_and, Nat.testBit_mul_two_pow, Nat.testBit_mul_two_pow,
    Nat.testBit_two_pow_sub_one, Nat.testBit_div_two_pow]
  by_cases hi : k ≤ i
  · rw [Nat.sub_add_cancel hi]
    by_cases hw : i < w
    · simp [hi, show i - k < w - k by omega]
    · have hbit : x.testBit i = false :=
        Nat.testBit_lt_two_pow (Nat.lt_of_lt_of_le hx (Nat.pow_le_pow_right (by omega) (by omega)))
      simp [hbit]
  · simp [hi]

/-- The mask of a rounding, the negative of a power of two, as a number: all bits from that power on
are set. -/
theorem toNat_neg_two_pow {k : ℕ} (hk : k < 32) :
    (-UInt32.ofNat (2 ^ k)).toNat = 2 ^ 32 - 2 ^ k := by
  have hpow : 2 ^ k < 2 ^ 32 := Nat.pow_lt_pow_right (by omega) hk
  rw [UInt32.toNat_neg, UInt32.toNat_ofNat_of_lt' hpow]
  have hpos : 0 < 2 ^ k := Nat.two_pow_pos k
  exact Nat.mod_eq_of_lt (Nat.sub_lt (by decide) hpos)

/-- **Rounding down** with a mask: the bits below the power of two are taken away, which leaves the
next lower multiple of it. -/
theorem toNat_land_neg (x : UInt32) {k : ℕ} (hk : k < 32) :
    (x &&& -UInt32.ofNat (2 ^ k)).toNat = x.toNat / 2 ^ k * 2 ^ k := by
  rw [UInt32.toNat_and, toNat_neg_two_pow hk]
  exact land_eq_div_mul (by omega) x.toNat_lt

end Align
