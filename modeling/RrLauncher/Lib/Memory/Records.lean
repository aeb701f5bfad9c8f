/-
# Arrays of records in memory

An array is a sequence of records of one size.  Each record is found at its place
(`Holds.record`), and what is read of the array is read of the records (`readArray_of_holds`).
-/

import RrLauncher.Lib.Memory.Words

namespace Memory

open ByteReader (be32)

variable {m : Memory} {p : UInt32}

/-- **A record of an array** is at its place: as many bytes behind the start as the records in front
of it have. -/
theorem Holds.record {size : ℕ} {elements : List (List UInt8)} (h : m.Holds p elements.flatten)
    (hsize : ∀ e ∈ elements, e.length = size) {i : ℕ} (hi : i < elements.length) :
    m.Holds (p + UInt32.ofNat (size * i)) elements[i] := by
  induction elements generalizing p i with
  | nil => exact absurd hi (Nat.not_lt_zero i)
  | cons e elements ih =>
    rw [List.forall_mem_cons] at hsize
    rw [List.flatten_cons] at h
    cases i with
    | zero => simpa using h.left
    | succ i =>
      have hrest := ih h.right hsize.2 (Nat.lt_of_succ_lt_succ hi)
      rw [hsize.1, UInt32.add_assoc, ← UInt32.ofNat_add, Nat.add_comm, ← Nat.mul_succ] at hrest
      exact hrest

/-- The words of a record that stands in memory are read at four bytes each from its start. -/
theorem Holds.words {words : List UInt32} (h : m.Holds p (words.flatMap be32)) {k : ℕ}
    (hk : k < words.length) : m.word (p + UInt32.ofNat (4 * k)) = words[k] :=
  wordsAt_of_holds h k hk

/-- The bytes are at `p`, between two addresses. -/
structure HoldsIn (m : Memory) (lo hi : ℕ) (p : UInt32) (bytes : List UInt8) : Prop where
  lo_le : lo ≤ p.toNat
  le_hi : p.toNat + bytes.length ≤ hi
  holds : m.Holds p bytes

/-- The bytes are at `p` in every memory that is the same between the two addresses. -/
theorem HoldsIn.congr {m' : Memory} {lo hi : ℕ} {bytes : List UInt8} (h : m.HoldsIn lo hi p bytes)
    (hhi : hi ≤ 2 ^ 32) (hsame : ∀ a : UInt32, lo ≤ a.toNat → a.toNat < hi → m' a = m a) :
    m'.HoldsIn lo hi p bytes := by
  have hlo := h.lo_le
  have hle := h.le_hi
  exact ⟨hlo, hle, h.holds.congr (by omega) fun a ha ha' => hsame a (by omega) (by omega)⟩

/-- Bytes that are held in an area are held in each larger one. -/
theorem HoldsIn.mono {lo hi lo' hi' : ℕ} {bytes : List UInt8} (h : m.HoldsIn lo hi p bytes)
    (hlo : lo' ≤ lo) (hhi : hi ≤ hi') : m.HoldsIn lo' hi' p bytes :=
  ⟨hlo.trans h.lo_le, h.le_hi.trans hhi, h.holds⟩

/-- The records of an array, each read where it is. -/
def readArray {α : Type} (read : UInt32 → α) (p : UInt32) (size count : ℕ) : List α :=
  (List.range count).map fun i => read (p + UInt32.ofNat (size * i))

/-- **An array is read back** if each of its records is. -/
theorem readArray_of_holds {α β : Type} {read : UInt32 → β} {bytes : α → List UInt8}
    {value : α → β} {size : ℕ} {xs : List α} (h : m.Holds p (xs.map bytes).flatten)
    (hsize : ∀ x ∈ xs, (bytes x).length = size)
    (hread : ∀ x ∈ xs, ∀ q, m.Holds q (bytes x) → read q = value x) :
    readArray read p size xs.length = xs.map value := by
  refine List.ext_getElem (by simp [readArray]) fun i hi hi' => ?_
  rw [List.length_map] at hi'
  have hrecord := h.record (List.forall_mem_map.mpr hsize) (i := i) (by rwa [List.length_map])
  rw [List.getElem_map] at hrecord
  simp only [readArray, List.getElem_map, List.getElem_range]
  exact hread _ (List.getElem_mem hi') _ hrecord

end Memory
