/-
# Decimal numbers in byte strings

`strtol` and `strtoul` with base 10 for a `long` of 32 bits, which saturate, and the
number that `%d` prints.  What is printed reads back as the same number, whatever is not
a digit comes after it (`strtol_decimal`).
-/

import Mathlib.Algebra.Group.Int.Defs
import Mathlib.Algebra.Group.Nat.Defs
import Mathlib.Data.Int.Basic
import Mathlib.Data.List.Basic
import Mathlib.Data.List.TakeWhile

namespace Decimal

/-- `isspace` in the C locale. -/
def isspace (c : UInt8) : Bool := c = 32 || (9 ≤ c && c ≤ 13)

/-- `isdigit`. -/
def isdigit (c : UInt8) : Bool := 48 ≤ c && c ≤ 57

/-- The value of a digit string. -/
def value (digits : List UInt8) : ℕ := digits.foldl (fun n c => 10 * n + (c.toNat - 48)) 0

/-- An `int`, or a `long`, of 32 bits. -/
def CInt : Type := {x : ℤ // -2 ^ 31 ≤ x ∧ x < 2 ^ 31}
  deriving DecidableEq

instance : Zero CInt := ⟨⟨0, by decide⟩⟩

/-- `LONG_MAX` and `LONG_MIN` bound what `strtol` returns. -/
def saturate (x : ℤ) : CInt := ⟨max (-2 ^ 31) (min x (2 ^ 31 - 1)), by omega⟩

/-- The digits that a number begins with. -/
def leadingValue (s : List UInt8) : ℕ := value (s.takeWhile isdigit)

/-- `strtol(s, NULL, 10)`. -/
def strtol (s : List UInt8) : CInt :=
  match s.dropWhile isspace with
  | 45 :: rest => saturate (-leadingValue rest)
  | 43 :: rest => saturate (leadingValue rest)
  | rest => saturate (leadingValue rest)

/-- `strtoul(s, NULL, 10)`, for an `unsigned long` of 32 bits. -/
def strtoul (s : List UInt8) : UInt32 :=
  let convert (negative : Bool) (rest : List UInt8) : UInt32 :=
    let n := leadingValue rest
    if 2 ^ 32 ≤ n then 0xFFFFFFFF
    else if negative then -UInt32.ofNat n else UInt32.ofNat n
  match s.dropWhile isspace with
  | 45 :: rest => convert true rest
  | 43 :: rest => convert false rest
  | rest => convert false rest

/-- The digits of a number. -/
def digits (n : ℕ) : List UInt8 := (Nat.toDigits 10 n).map fun c => c.toNat.toUInt8

/-- `%d`. -/
def decimal : ℤ → List UInt8
  | .ofNat n => digits n
  | .negSucc n => 45 :: digits (n + 1)

/-- A number in the range of `int` is not changed by saturation. -/
theorem saturate_eq (x : CInt) : saturate x.val = x := by
  obtain ⟨x, hx⟩ := x
  apply Subtype.ext
  simp only [saturate]
  omega

/-- A decimal digit is a byte, so its code stays the same as one. -/
theorem toNat_digit {c : Char} (h : c.isDigit) : c.toNat.toUInt8.toNat = c.toNat := by
  have hle : c.toNat ≤ 57 := (Char.isDigit_iff_toNat.mp h).2
  rw [Nat.toUInt8, UInt8.toNat_ofNat']
  omega

/-- `isdigit`, which looks at the code of a byte, holds of each character that is a decimal digit.
-/
theorem isdigit_digit {c : Char} (h : c.isDigit) : isdigit c.toNat.toUInt8 = true := by
  have hc := Char.isDigit_iff_toNat.mp h
  have hn := toNat_digit h
  rw [isdigit, Bool.and_eq_true, decide_eq_true_iff, decide_eq_true_iff, UInt8.le_iff_toNat_le,
    UInt8.le_iff_toNat_le, hn]
  exact hc

/-- What a number is printed as are decimal digits throughout. -/
theorem isdigit_of_mem_digits {n : ℕ} {c : UInt8} (h : c ∈ digits n) : isdigit c = true := by
  obtain ⟨d, hd, rfl⟩ := List.mem_map.mp h
  exact isdigit_digit (Nat.isDigit_of_mem_toDigits (by decide) (by decide) hd)

/-- A printed number is made of digits and the minus sign. -/
theorem mem_decimal {x : ℤ} {c : UInt8} (h : c ∈ decimal x) : isdigit c = true ∨ c = 45 := by
  cases x with
  | ofNat n => exact .inl (isdigit_of_mem_digits h)
  | negSucc n =>
    rw [decimal, List.mem_cons] at h
    exact h.symm.imp_left isdigit_of_mem_digits

/-- **The digits of a number have its value**, read from the left as `strtol` does. -/
theorem value_digits (n : ℕ) : value (digits n) = n := by
  have hfold : ∀ (l : List Char), (∀ c ∈ l, c.isDigit) → ∀ init : ℕ,
      (l.map fun c => c.toNat.toUInt8).foldl (fun n c => 10 * n + (c.toNat - 48)) init =
        Nat.ofDigitChars 10 l init := by
    intro l
    induction l with
    | nil => simp
    | cons c l ih =>
      intro hl init
      rw [List.forall_mem_cons] at hl
      rw [List.map_cons, List.foldl_cons, Nat.ofDigitChars_cons, toNat_digit hl.1, ih hl.2]
      rfl
  rw [value, digits, hfold _ fun c hc => Nat.isDigit_of_mem_toDigits (by decide) (by decide) hc]
  exact Nat.ofDigitChars_ten_toDigits

/-- A number is printed with one digit at least, zero included. -/
theorem digits_ne_nil (n : ℕ) : digits n ≠ [] := by
  rw [digits, ne_eq, List.map_eq_nil_iff]
  exact Nat.toDigits_ne_nil

/-- Digits are read up to what is not a digit. -/
theorem leadingValue_append {ds rest : List UInt8} (hdigits : ∀ c ∈ ds, isdigit c = true)
    (h : ∀ c ∈ rest.head?, isdigit c = false) : leadingValue (ds ++ rest) = value ds := by
  rw [leadingValue, List.takeWhile_append_of_pos hdigits]
  have hrest : rest.takeWhile isdigit = [] := by
    cases rest with
    | nil => rfl
    | cons c rest =>
      rw [List.takeWhile_cons, h c rfl]
      rfl
  rw [hrest, List.append_nil]

/-- **Printed digits read back** as their number, where no further digit follows them. -/
theorem leadingValue_digits (n : ℕ) {rest : List UInt8} (h : ∀ c ∈ rest.head?, isdigit c = false) :
    leadingValue (digits n ++ rest) = n := by
  rw [leadingValue_append (fun c hc => isdigit_of_mem_digits hc) h, value_digits]

/-- A digit is no white space, so none is skipped in front of a number. -/
theorem isspace_of_isdigit {c : UInt8} (h : isdigit c = true) : isspace c = false := by
  rw [isdigit, Bool.and_eq_true, decide_eq_true_iff, decide_eq_true_iff, UInt8.le_iff_toNat_le,
    UInt8.le_iff_toNat_le] at h
  have h₁ : 48 ≤ c.toNat := h.1
  have hne : c ≠ 32 := by
    rintro rfl
    exact absurd h₁ (by decide)
  have hle : ¬ c ≤ 13 := by
    rw [UInt8.le_iff_toNat_le, show (13 : UInt8).toNat = 13 from rfl]
    omega
  simp [isspace, hne, hle]

/-- White space in front of a number is skipped, however much there is, and a sign may stand behind
it. -/
theorem strtol_blanks {blanks : List UInt8} (h : ∀ c ∈ blanks, isspace c = true) (s : List UInt8) :
    strtol (blanks ++ s) = strtol s := by
  rw [strtol, strtol, List.dropWhile_append_of_pos h]

/-- What begins with a digit is read without a sign. -/
theorem strtol_cons {d : UInt8} (hd : isdigit d = true) (ds : List UInt8) :
    strtol (d :: ds) = saturate (leadingValue (d :: ds)) := by
  rw [strtol, List.dropWhile_cons, isspace_of_isdigit hd]
  split
  · rename_i heq
    rw [if_neg Bool.false_ne_true, List.cons.injEq] at heq
    rw [heq.1] at hd
    exact absurd hd (by decide)
  · rename_i heq
    rw [if_neg Bool.false_ne_true, List.cons.injEq] at heq
    rw [heq.1] at hd
    exact absurd hd (by decide)
  · rw [if_neg Bool.false_ne_true]

/-- **A printed number is read** by `strtoul` up to what is not a digit. -/
theorem strtoul_digits {n : ℕ} (hn : n < 2 ^ 32) {rest : List UInt8}
    (h : ∀ c ∈ rest.head?, isdigit c = false) : strtoul (digits n ++ rest) = UInt32.ofNat n := by
  have hlead := leadingValue_digits n h
  obtain ⟨d, ds, hd⟩ := List.exists_cons_of_ne_nil (digits_ne_nil n)
  have hdigit : isdigit d = true := isdigit_of_mem_digits (hd ▸ List.mem_cons_self)
  rw [hd, List.cons_append] at hlead ⊢
  rw [strtoul, List.dropWhile_cons, isspace_of_isdigit hdigit, if_neg Bool.false_ne_true]
  split
  · rename_i heq
    cases heq
    exact absurd hdigit (by decide)
  · rename_i heq
    cases heq
    exact absurd hdigit (by decide)
  · dsimp only
    rw [hlead, if_neg (by omega), if_neg Bool.false_ne_true]

/-- **A number that fits** reads as its value, with zeros before it or not. -/
theorem strtol_of_digits {s : List UInt8} (hne : s ≠ []) (hdigits : ∀ c ∈ s, isdigit c = true)
    (hfits : value s < 2 ^ 31) : (strtol s).val = value s := by
  obtain ⟨d, ds, rfl⟩ := List.exists_cons_of_ne_nil hne
  rw [strtol_cons (hdigits d List.mem_cons_self), leadingValue,
    List.takeWhile_eq_self_iff.mpr hdigits]
  show max (-2 ^ 31) (min (value (d :: ds) : ℤ) (2 ^ 31 - 1)) = value (d :: ds)
  omega

/-- **A printed number reads back** with its sign, whatever the number is, if no further digit
follows. -/
theorem strtol_decimal (x : CInt) (rest : List UInt8) (h : ∀ c ∈ rest.head?, isdigit c = false) :
    strtol (decimal x.val ++ rest) = x := by
  have hx := saturate_eq x
  cases hval : x.val with
  | ofNat n =>
    rw [hval] at hx
    obtain ⟨d, ds, hd⟩ := List.exists_cons_of_ne_nil (digits_ne_nil n)
    have hdigit : isdigit d = true := isdigit_of_mem_digits (hd ▸ List.mem_cons_self)
    have hlead := leadingValue_digits n h
    rw [hd, List.cons_append] at hlead
    rw [decimal, hd, List.cons_append, strtol_cons hdigit, hlead]
    exact hx
  | negSucc n =>
    rw [hval] at hx
    rw [decimal, strtol, List.cons_append, List.dropWhile_cons]
    simp only [show isspace 45 = false by decide, Bool.false_eq_true, if_false]
    rw [leadingValue_digits (n + 1) h]
    exact hx

end Decimal
