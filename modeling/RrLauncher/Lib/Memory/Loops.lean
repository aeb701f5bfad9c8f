/-
# Loops over memory

The loops that fill and copy memory byte by byte, and what they leave at each address.  A
range of addresses may go over the highest address and on from 0, as pointers do; so does
a copy (`copy_apply`).  A fill that goes from one pointer to another does not: where the
second one is not above the first there is nothing to do (`fill_apply`).
-/

import RrLauncher.Lib.Memory

namespace Memory

/-- The address is one of the `n` from `p` on. -/
def InRange (p : UInt32) (n : ℕ) (a : UInt32) : Prop := (a - p).toNat < n

instance (p : UInt32) (n : ℕ) (a : UInt32) : Decidable (InRange p n a) :=
  inferInstanceAs (Decidable (_ < _))

/-- The address `i` behind the first one is in the range. -/
theorem inRange_add {p i : UInt32} {n : ℕ} (h : i.toNat < n) : InRange p n (p + i) := by
  rw [InRange, UInt32.add_comm, UInt32.add_sub_cancel]
  exact h

/-- How far an address is behind one that is itself behind the first. -/
theorem toNat_sub_add {p a : UInt32} {k : ℕ} (hk : k ≤ (a - p).toNat) :
    (a - (p + UInt32.ofNat k)).toNat = (a - p).toNat - k := by
  have ha := a.toNat_lt
  have hp := p.toNat_lt
  rw [UInt32.toNat_sub] at hk ⊢
  rw [UInt32.toNat_add, UInt32.toNat_ofNat_of_lt' (show k < 2 ^ 32 by omega), UInt32.toNat_sub]
  omega

/-- An address in a part of a range, given by its offset and length, is in the range. -/
theorem InRange.of_offset {p a : UInt32} {k n N : ℕ} (h : InRange (p + UInt32.ofNat k) n a)
    (hle : k + n ≤ N) : InRange p N a := by
  have ha := a.toNat_lt
  have hp := p.toNat_lt
  by_cases hN : 2 ^ 32 < N
  · exact ((a - p).toNat_lt).trans hN
  rw [InRange, UInt32.toNat_sub] at h ⊢
  rw [UInt32.toNat_add, UInt32.toNat_ofNat_of_lt' (show k < 2 ^ 32 by omega)] at h
  omega

/-- An address of a range is in none that begins behind its end or ends before its begin, if the
lower one does not wrap. -/
theorem not_inRange_of_le {p q a : UInt32} {n m : ℕ} (h : InRange p n a)
    (hle : p.toNat + n ≤ q.toNat ∧ q.toNat + m ≤ 2 ^ 32 ∨
      q.toNat + m ≤ p.toNat ∧ p.toNat + n ≤ 2 ^ 32) : ¬ InRange q m a := by
  have ha := a.toNat_lt
  have hp := p.toNat_lt
  rw [InRange, UInt32.toNat_sub] at h ⊢
  omega

/-- A write leaves the addresses outside its range alone. The range may go around the highest
address. -/
theorem write_of_notInRange (m : Memory) {p a : UInt32} {bytes : List UInt8}
    (h : ¬ InRange p bytes.length a) : m.write p bytes a = m a := by
  rw [write, List.getElem?_eq_none (Nat.le_of_not_lt h), Option.getD_none]

/-- One byte is written: it is the new one at its address, and all others are as before. -/
theorem write_singleton (m : Memory) (p a : UInt32) (b : UInt8) :
    m.write p [b] a = if a = p then b else m a := by
  by_cases h : a = p
  · rw [if_pos h, h, write, UInt32.sub_self]
    rfl
  · rw [if_neg h, write_of_notInRange]
    intro hin
    rw [InRange, List.length_singleton, Nat.lt_one_iff] at hin
    have hzero : a - p = 0 := UInt32.toNat_inj.mp hin
    exact h (by rw [← UInt32.sub_add_cancel a p, hzero, UInt32.zero_add])

/-- The word at an address, most significant byte first. -/
def word (m : Memory) (p : UInt32) : UInt32 :=
  UInt32.ofNat (2 ^ 24 * (m p).toNat + 2 ^ 16 * (m (p + 1)).toNat + 2 ^ 8 * (m (p + 2)).toNat +
    (m (p + 3)).toNat)

/-- A word is its four bytes, so two memories that agree on these have the same word there. -/
theorem word_congr {m m' : Memory} {p : UInt32} (h : ∀ a, InRange p 4 a → m' a = m a) :
    m'.word p = m.word p := by
  have hzero : InRange p 4 p := by
    rw [InRange, UInt32.sub_self]
    decide
  rw [word, word, h p hzero, h (p + 1) (inRange_add (by decide)), h (p + 2) (inRange_add (by decide)),
    h (p + 3) (inRange_add (by decide))]

/-- The next pointer of a loop that has not come to its end. -/
theorem toNat_succ {p stop : UInt32} (h : p < stop) : (p + 1).toNat = p.toNat + 1 := by
  have hlt := UInt32.lt_iff_toNat_lt.mp h
  have hstop := stop.toNat_lt
  rw [UInt32.toNat_add, show (1 : UInt32).toNat = 1 from rfl, Nat.mod_eq_of_lt (by omega)]

/-! ### Filling -/

/-- `for (; p < stop; p++) *p = b;` -/
def fill (m : Memory) (p stop : UInt32) (b : UInt8) : Memory :=
  if p < stop then fill (m.write p [b]) (p + 1) stop b else m
termination_by stop.toNat - p.toNat
decreasing_by
  rename_i h
  rw [toNat_succ h]
  have hlt := UInt32.lt_iff_toNat_lt.mp h
  omega

/-- **What a fill leaves**: the byte at each address from the start up to the end, and everything
else as it was. It is proved along the loop, which stops at the end or never starts. -/
theorem fill_apply (m : Memory) (p stop : UInt32) (b : UInt8) (a : UInt32) :
    fill m p stop b a = if p.toNat ≤ a.toNat ∧ a.toNat < stop.toNat then b else m a := by
  induction m, p using fill.induct stop b with
  | case1 m p h ih =>
    have hlt := UInt32.lt_iff_toNat_lt.mp h
    rw [fill, if_pos h, ih, toNat_succ h, write_singleton]
    by_cases ha : a = p
    · subst ha
      rw [if_neg (by omega), if_pos rfl, if_pos ⟨Nat.le_refl _, hlt⟩]
    · have hne : a.toNat ≠ p.toNat := fun heq => ha (UInt32.toNat_inj.mp heq)
      rw [if_neg ha]
      refine if_congr ?_ rfl rfl
      omega
  | case2 m p h =>
    have hle := UInt32.not_lt.mp h
    rw [UInt32.le_iff_toNat_le] at hle
    rw [fill, if_neg h, if_neg (by omega)]

/-! ### Copying -/

/-- `for (; i < size; i++) dest[i] = src[i];` -/
def copy (m : Memory) (dest src size i : UInt32) : Memory :=
  if i < size then copy (m.write (dest + i) [m (src + i)]) dest src size (i + 1) else m
termination_by size.toNat - i.toNat
decreasing_by
  rename_i h
  rw [toNat_succ h]
  have hlt := UInt32.lt_iff_toNat_lt.mp h
  omega

/-- Where there is nothing to copy the memory is as it was. -/
theorem copy_zero (m : Memory) (dest src : UInt32) : copy m dest src 0 0 = m := by
  have hend : ¬ (0 : UInt32) < 0 := by decide
  rw [copy, if_neg hend]

/-- **What a copy leaves**, where it does not write over what it reads. -/
theorem copy_apply {dest src size : UInt32}
    (hapart : ∀ a, InRange dest size.toNat a → ¬ InRange src size.toNat a) (m : Memory)
    (i a : UInt32) :
    copy m dest src size i a =
      if i.toNat ≤ (a - dest).toNat ∧ (a - dest).toNat < size.toNat then m (src + (a - dest))
      else m a := by
  induction m, i using copy.induct dest src size with
  | case1 m i h ih =>
    have hlt := UInt32.lt_iff_toNat_lt.mp h
    have hdest : dest + i - dest = i := by rw [UInt32.add_comm, UInt32.add_sub_cancel]
    rw [copy, if_pos h, ih, toNat_succ h]
    by_cases ha : a = dest + i
    · rw [ha, hdest, if_neg (by omega), write_singleton, if_pos rfl, if_pos ⟨Nat.le_refl _, hlt⟩]
    · have hne : (a - dest).toNat ≠ i.toNat := fun heq => ha (by
        rw [← UInt32.toNat_inj.mp heq, UInt32.add_comm, UInt32.sub_add_cancel])
      have hkept : m.write (dest + i) [m (src + i)] a = m a := by rw [write_singleton, if_neg ha]
      rw [hkept]
      by_cases hin : (a - dest).toNat < size.toNat
      · -- what is read later has not been written
        have hsrc : src + (a - dest) ≠ dest + i := fun heq =>
          hapart (dest + i) (inRange_add hlt) (heq ▸ inRange_add hin)
        rw [write_singleton, if_neg hsrc]
        refine if_congr ?_ rfl rfl
        omega
      · rw [if_neg (fun h => hin h.2), if_neg (fun h => hin h.2)]
  | case2 m i h =>
    have hle := UInt32.not_lt.mp h
    rw [UInt32.le_iff_toNat_le] at hle
    rw [copy, if_neg h, if_neg (by omega)]

end Memory
