/-
# NUL-terminated strings

A C string is the sequence of bytes before its terminating NUL.  `CStr` keeps
that sequence together with the fact that none of its bytes is the NUL, so a
value that C could not hold cannot be built, and a loop that stops "at the NUL"
stops exactly at the end of the sequence.

The character class is the one of the C locale: `tolower` moves `A`–`Z` and
leaves every other byte, in particular the bytes from `0x80` on, as it is.
`char` is unsigned here, as on PowerPC.
-/

import Mathlib.Algebra.Group.Nat.Defs
import Mathlib.Data.List.Basic
import Mathlib.Data.List.TakeWhile

/-- A C string: its bytes up to, and without, the terminating NUL. -/
structure CStr where
  bytes : List UInt8
  noNul : 0 ∉ bytes
  deriving DecidableEq

namespace CStr

/-- Two C strings with the same bytes in front of their NUL are equal. -/
@[ext] theorem ext {s t : CStr} (h : s.bytes = t.bytes) : s = t := by
  cases s; cases t; simp_all

/-- A string literal of the source, all of whose characters are ASCII. -/
def lit (s : String) : CStr :=
  ⟨(s.toList.map fun c => c.toNat.toUInt8).filter (· ≠ 0), by simp⟩

/-- The string in a buffer: what stands before the first NUL. -/
def ofBuffer (buf : List UInt8) : CStr :=
  ⟨buf.takeWhile (· ≠ 0), fun h => by simpa using List.mem_takeWhile_imp h⟩

/-- The bytes of a string, read as a buffer up to its first NUL, give the string back, as it has no
NUL inside. -/
theorem ofBuffer_bytes_of_noNul (s : CStr) : ofBuffer s.bytes = s := by
  ext1
  refine List.takeWhile_eq_self_iff.mpr fun c hc => ?_
  simpa using fun h : c = 0 => s.noNul (h ▸ hc)

/-- `strstr(s, needle) != NULL`. -/
def contains (s needle : CStr) : Bool := s.bytes.tails.any needle.bytes.isPrefixOf

/-- `s[0]`: the first byte, the NUL of an empty string included. -/
def first (s : CStr) : UInt8 := s.bytes.headD 0

/-- `s[1]`: the second byte; the NUL, where the string is shorter. -/
def second (s : CStr) : UInt8 := s.bytes.tail.headD 0

/-- `s + 1`: the string without its first byte. -/
def advance (s : CStr) : CStr :=
  ⟨s.bytes.tail, fun h => s.noNul (List.mem_of_mem_tail h)⟩

/-- `strlen(s)`. -/
def len (s : CStr) : ℕ := s.bytes.length

/-- Stepping over the first byte leaves the bytes behind it. -/
@[simp] theorem advance_bytes (s : CStr) : s.advance.bytes = s.bytes.tail := rfl

/-- `tolower` of the C locale on one byte. -/
def tolower (c : UInt8) : UInt8 := if 65 ≤ c ∧ c ≤ 90 then c + 32 else c

/-- Lower-casing makes no NUL, so a lower-cased string is as long as it was. -/
theorem tolower_ne_zero {c : UInt8} (hc : c ≠ 0) : tolower c ≠ 0 := by
  unfold tolower
  split
  · rename_i h
    obtain ⟨h₁, h₂⟩ := h
    intro h0
    have h₁' : 65 ≤ c.toNat := UInt8.le_iff_toNat_le.mp h₁
    have h₂' : c.toNat ≤ 90 := UInt8.le_iff_toNat_le.mp h₂
    have hz : (c + 32).toNat = 0 := by rw [h0]; rfl
    rw [UInt8.toNat_add, show (32 : UInt8).toNat = 32 from rfl] at hz
    omega
  · exact hc

/-- What is no letter is kept, and nothing else is turned into it. -/
theorem tolower_eq_iff {c d : UInt8} (hd : d < 65 ∨ 90 < d ∧ d < 97) : tolower c = d ↔ c = d := by
  rw [UInt8.lt_iff_toNat_lt, UInt8.lt_iff_toNat_lt, UInt8.lt_iff_toNat_lt] at hd
  have hd' : d.toNat < 65 ∨ 90 < d.toNat ∧ d.toNat < 97 := hd
  by_cases hc : 65 ≤ c ∧ c ≤ 90
  · have h₁ : 65 ≤ c.toNat := UInt8.le_iff_toNat_le.mp hc.1
    have h₂ : c.toNat ≤ 90 := UInt8.le_iff_toNat_le.mp hc.2
    have hs : (c + 32).toNat = c.toNat + 32 := by
      rw [UInt8.toNat_add, show (32 : UInt8).toNat = 32 from rfl]; omega
    rw [tolower, if_pos hc, ← UInt8.toNat_inj, ← UInt8.toNat_inj, hs]
    omega
  · rw [tolower, if_neg hc]

/-- Lowering a byte twice lowers it once, since what `tolower` gives is no upper-case letter. -/
@[simp] theorem tolower_tolower (c : UInt8) : tolower (tolower c) = tolower c := by
  by_cases h : 65 ≤ c ∧ c ≤ 90
  · have h₁ : 65 ≤ c.toNat := UInt8.le_iff_toNat_le.mp h.1
    have h₂ : c.toNat ≤ 90 := UInt8.le_iff_toNat_le.mp h.2
    have hs : (c + 32).toNat = c.toNat + 32 := by
      rw [UInt8.toNat_add, show (32 : UInt8).toNat = 32 from rfl]; omega
    have hout : ¬ (65 ≤ c + 32 ∧ c + 32 ≤ 90) := by
      rw [UInt8.le_iff_toNat_le, UInt8.le_iff_toNat_le, hs,
        show (90 : UInt8).toNat = 90 from rfl]
      omega
    simp only [tolower, if_pos h, if_neg hout]
  · simp only [tolower, if_neg h]

/-- `strlower(s)`, which lowers every byte of the string in place. -/
def lower (s : CStr) : CStr :=
  ⟨s.bytes.map tolower, by
    intro h
    obtain ⟨c, hc, h0⟩ := List.mem_map.mp h
    exact tolower_ne_zero (fun hc0 => s.noNul (hc0 ▸ hc)) h0⟩

/-- A string is lower-cased byte by byte, so its length and the place of its slashes stay the same.
-/
@[simp] theorem lower_bytes (s : CStr) : s.lower.bytes = s.bytes.map tolower := rfl

/-- Stepping over the first byte and lower-casing may be done in either order. -/
theorem lower_advance (s : CStr) : s.advance.lower = s.lower.advance := by
  ext1
  simp [List.map_tail]

/-- The suffix of `s` that begins at the last occurrence of `c`. -/
def fromLast (c : UInt8) : List UInt8 → Option (List UInt8)
  | [] => none
  | b :: s =>
    match fromLast c s with
    | some t => some t
    | none => if b = c then some (b :: s) else none

/-- What begins at the last occurrence of a byte is a suffix of the string. -/
theorem fromLast_suffix {c : UInt8} {s t : List UInt8} (h : fromLast c s = some t) : t <:+ s := by
  induction s with
  | nil => simp [fromLast] at h
  | cons b s ih =>
    cases hs : fromLast c s with
    | some u =>
      simp only [fromLast, hs] at h
      exact (ih (hs.trans h)).trans (List.suffix_cons b s)
    | none =>
      simp only [fromLast, hs, Option.ite_none_right_eq_some, Option.some.injEq] at h
      exact h.2 ▸ List.suffix_rfl

/-- There is no last occurrence of a byte that does not occur. -/
theorem fromLast_eq_none {c : UInt8} {s : List UInt8} (h : c ∉ s) : fromLast c s = none := by
  induction s with
  | nil => rfl
  | cons b s ih =>
    rw [List.mem_cons, not_or] at h
    simp [fromLast, ih h.2, Ne.symm h.1]

/-- A byte that does not occur behind the given place has its last occurrence there. -/
theorem fromLast_append {c : UInt8} (u : List UInt8) {t : List UInt8} (h : c ∉ t) :
    fromLast c (u ++ c :: t) = some (c :: t) := by
  induction u with
  | nil => simp [fromLast, fromLast_eq_none h]
  | cons b u ih => rw [List.cons_append, fromLast, ih]

/-- `strrchr(s, c)`: the rest of `s` from its last `c` on, or the null pointer. -/
def strrchr (s : CStr) (c : UInt8) : Option CStr :=
  match h : fromLast c s.bytes with
  | some t => some ⟨t, fun h0 => s.noNul ((fromLast_suffix h).mem h0)⟩
  | none => none

/-- On the bytes, `strrchr` gives what begins at the last occurrence of the byte. -/
theorem strrchr_bytes (s : CStr) (c : UInt8) :
    (s.strrchr c).map CStr.bytes = fromLast c s.bytes := by
  unfold strrchr
  split <;> simp_all

/-- A byte of a string has a last place in it. -/
theorem exists_last {s : CStr} {c : UInt8} (h : c ∈ s.bytes) :
    ∃ u t, s.bytes = u ++ c :: t ∧ c ∉ t := by
  obtain ⟨t, u, htu, hct⟩ := List.eq_append_cons_of_mem (List.mem_reverse.mpr h)
  refine ⟨u.reverse, t.reverse, ?_, fun h => hct (List.mem_reverse.mp h)⟩
  rw [← List.reverse_reverse s.bytes, htu]
  simp

/-- The text after the last `c` of `s`: all of `s`, where it holds no `c`. -/
def afterLast (s : CStr) (c : UInt8) : CStr :=
  ⟨(s.bytes.reverse.takeWhile (· ≠ c)).reverse, fun h => s.noNul
    (List.mem_reverse.mp ((List.takeWhile_prefix _).mem (List.mem_reverse.mp h)))⟩

/-- Reading a string backwards up to the last `c` reads what follows it. -/
theorem takeWhile_reverse_append {c : UInt8} (u : List UInt8) {t : List UInt8} (h : c ∉ t) :
    (t.reverse ++ c :: u).takeWhile (· ≠ c) = t.reverse := by
  rw [List.takeWhile_append_of_pos fun x hx => by
    simpa using fun hxc : x = c => h (hxc ▸ List.mem_reverse.mp hx)]
  simp

/-- The text after the last `c`, reached as the code reaches it: one past what
`strrchr` returns, or the whole string where it returns the null pointer. -/
theorem strrchr_afterLast (s : CStr) (c : UInt8) :
    ((s.strrchr c).map CStr.advance).getD s = s.afterLast c := by
  ext1
  have hb := strrchr_bytes s c
  by_cases hc : c ∈ s.bytes
  · obtain ⟨u, t, hs, ht⟩ := exists_last hc
    rw [hs, fromLast_append _ ht, Option.map_eq_some_iff] at hb
    obtain ⟨r, hr, hrb⟩ := hb
    have hreverse : s.bytes.reverse = t.reverse ++ c :: u.reverse := by
      rw [hs]
      simp
    simp only [hr, Option.map_some, Option.getD_some, advance_bytes, hrb, List.tail_cons, afterLast,
      hreverse, takeWhile_reverse_append _ ht, List.reverse_reverse]
  · rw [fromLast_eq_none hc, Option.map_eq_none_iff] at hb
    have hall : s.bytes.reverse.takeWhile (· ≠ c) = s.bytes.reverse :=
      List.takeWhile_eq_self_iff.mpr fun x hx => by
        simpa using fun hxc : x = c => hc (hxc ▸ List.mem_reverse.mp hx)
    simp only [hb, Option.map_none, Option.getD_none, afterLast, hall, List.reverse_reverse]

end CStr
