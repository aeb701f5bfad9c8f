/-
# Cells

A store with a cell for every number.  `slice` are the cells from one on, and `patch` writes
values over them; what is written is there (`patch_add`), what lies elsewhere stays
(`patch_of_outside`), and values that follow each other can be written one after the other
(`patch_append`).
-/

import Mathlib.Data.List.Basic
import Mathlib.Data.Nat.Notation

universe u

namespace Cells

variable {β : Type u}

/-- The `n` cells from `start` on. -/
def slice (f : ℕ → β) (start n : ℕ) : List β := (List.range n).map fun i => f (start + i)

/-- The cells with values written over those from `start` on. -/
def patch (f : ℕ → β) (start : ℕ) (values : List β) : ℕ → β := fun a =>
  if start ≤ a then values[a - start]?.getD (f a) else f a

/-- A slice has as many cells as were asked for. -/
@[simp] theorem length_slice (f : ℕ → β) (start n : ℕ) : (slice f start n).length = n := by
  rw [slice, List.length_map, List.length_range]

/-- The elements of a slice are the cells from its start on, in their order. -/
theorem getElem_slice (f : ℕ → β) {start n i : ℕ} (h : i < (slice f start n).length) :
    (slice f start n)[i] = f (start + i) := by
  simp only [slice, List.getElem_map, List.getElem_range]

/-- A slice of no cells is empty, wherever it starts. -/
@[simp] theorem slice_zero (f : ℕ → β) (start : ℕ) : slice f start 0 = [] := rfl

/-- **Cells that follow each other** can be read as one slice, or as two, the second from where the
first one ends. -/
theorem slice_add (f : ℕ → β) (start m n : ℕ) :
    slice f start (m + n) = slice f start m ++ slice f (start + m) n := by
  rw [slice, List.range_add, List.map_append, List.map_map]
  refine congrArg _ (List.map_congr_left fun i _ => ?_)
  rw [Function.comp_apply, Nat.add_assoc]

/-- Stores that agree from one cell on, counted from there, have the same cells there. -/
theorem slice_congr {f g : ℕ → β} {start start' n : ℕ}
    (h : ∀ i < n, f (start + i) = g (start' + i)) : slice f start n = slice g start' n :=
  List.map_congr_left fun i hi => h i (List.mem_range.mp hi)

/-- **What lies elsewhere stays**: a cell before those that are written, or behind them. -/
theorem patch_of_outside (f : ℕ → β) {start : ℕ} {values : List β} {a : ℕ}
    (h : a < start ∨ start + values.length ≤ a) : patch f start values a = f a := by
  rw [patch]
  split
  · rw [List.getElem?_eq_none (by omega), Option.getD_none]
  · rfl

/-- **What is written is there**: a patched cell has the value that was written to it. -/
theorem patch_add (f : ℕ → β) {start : ℕ} {values : List β} {i : ℕ} (h : i < values.length) :
    patch f start values (start + i) = values[i] := by
  rw [patch, if_pos (Nat.le_add_right _ _), Nat.add_sub_cancel_left, List.getElem?_eq_getElem h,
    Option.getD_some]

/-- Cells that are copied from one row of cells to another: at the target stand those of the source,
and all other cells are as before. -/
theorem patch_slice (f g : ℕ → β) (start s n a : ℕ) :
    patch f start (slice g s n) a =
      if start ≤ a ∧ a < start + n then g (s + (a - start)) else f a := by
  by_cases h : start ≤ a ∧ a < start + n
  · obtain ⟨i, rfl⟩ := Nat.exists_eq_add_of_le h.1
    rw [if_pos h, patch_add f (by rw [length_slice]; omega), getElem_slice, Nat.add_sub_cancel_left]
  · rw [if_neg h, patch_of_outside f (by rw [length_slice]; omega)]

/-- Patching no cells changes nothing, wherever the patch starts. -/
@[simp] theorem patch_nil (f : ℕ → β) (start : ℕ) : patch f start [] = f := by
  funext a
  exact patch_of_outside f (by rw [List.length_nil]; omega)

/-- Writing into a part of the cells, counted from another one. -/
theorem patch_shift {f g : ℕ → β} {start a b : ℕ} {values : List β} (h : g b = f (b - start))
    (ha : start ≤ a) (hb : start ≤ b) : patch f (a - start) values (b - start) = patch g a values b := by
  rw [patch, patch, ← h]
  by_cases hab : a ≤ b
  · rw [if_pos (by omega), if_pos hab, Nat.sub_sub_sub_cancel_right ha]
  · rw [if_neg (by omega), if_neg hab]

/-- **Values that follow each other** can be written one after the other. -/
theorem patch_append (f : ℕ → β) (start : ℕ) (values rest : List β) :
    patch f start (values ++ rest) = patch (patch f start values) (start + values.length) rest := by
  funext a
  by_cases hlow : a < start + values.length
  · rw [patch_of_outside _ (Or.inl hlow)]
    by_cases hstart : a < start
    · rw [patch_of_outside f (Or.inl hstart), patch_of_outside f (Or.inl hstart)]
    · obtain ⟨i, rfl⟩ := Nat.exists_eq_add_of_le (Nat.le_of_not_lt hstart)
      have hi : i < values.length := by omega
      rw [patch_add f (by rw [List.length_append]; omega), patch_add f hi,
        List.getElem_append_left hi]
  · obtain ⟨i, rfl⟩ := Nat.exists_eq_add_of_le (Nat.le_of_not_lt hlow)
    by_cases hi : i < rest.length
    · rw [patch_add _ hi, Nat.add_assoc, patch_add f (by rw [List.length_append]; omega),
        List.getElem_append_right (Nat.le_add_right _ _)]
      simp only [Nat.add_sub_cancel_left]
    · have hend : start + (values ++ rest).length ≤ start + values.length + i := by
        rw [List.length_append]
        omega
      have hrest : start + values.length + rest.length ≤ start + values.length + i := by omega
      have hvalues : start + values.length ≤ start + values.length + i := by omega
      rw [patch_of_outside f (Or.inr hend), patch_of_outside _ (Or.inr hrest),
        patch_of_outside f (Or.inr hvalues)]

end Cells
