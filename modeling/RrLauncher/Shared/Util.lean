/-
# Aligning addresses

`align_down` and `align_up` of `util.c`, for the powers of two that they are called with.
-/

import RrLauncher.Lib.Align

namespace RrLauncher

/-- `align_down`. -/
def alignDown (num alignAs : UInt32) : UInt32 := num &&& -alignAs

/-- `align_up`. -/
def alignUp (num alignAs : UInt32) : UInt32 := (num + alignAs - 1) &&& -alignAs

/-- Aligning down by masking gives the next lower multiple of the power of two. -/
theorem toNat_alignDown (num : UInt32) {k : ℕ} (hk : k < 32) :
    (alignDown num (UInt32.ofNat (2 ^ k))).toNat = num.toNat / 2 ^ k * 2 ^ k :=
  Align.toNat_land_neg num hk

/-- Aligning up adds one less than the power of two first. That sum may wrap in 32 bits. -/
theorem toNat_alignUp (num : UInt32) {k : ℕ} (hk : k < 32) :
    (alignUp num (UInt32.ofNat (2 ^ k))).toNat =
      (num.toNat + (2 ^ k - 1)) % 2 ^ 32 / 2 ^ k * 2 ^ k := by
  have hpow : 2 ^ k < 2 ^ 32 := Nat.pow_lt_pow_right (by omega) hk
  have hpos : 0 < 2 ^ k := Nat.two_pow_pos k
  have hsum : (num + UInt32.ofNat (2 ^ k) - 1).toNat = (num.toNat + (2 ^ k - 1)) % 2 ^ 32 := by
    rw [UInt32.toNat_sub, UInt32.toNat_add, UInt32.toNat_ofNat_of_lt' hpow]
    generalize 2 ^ k = n at hpow hpos
    rw [show (1 : UInt32).toNat = 1 from rfl]
    omega
  rw [alignUp, Align.toNat_land_neg _ hk, hsum]

end RrLauncher
