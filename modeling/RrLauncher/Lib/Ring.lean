/-
# The last elements, in a ring

A ring has as many cells as elements are kept, and an index at which the next one is written.
Read from there on and around, the cells are the elements in the order in which they came, the
oldest first (`recent_write`): what is written takes the place of the oldest.
-/

import Mathlib.Data.List.Basic
import Mathlib.Data.Nat.Notation

namespace Ring

universe u

variable {α : Type u}

/-- The cells from the index on, and around up to it. -/
def recent (cells : List α) (next : ℕ) : List α := cells.drop next ++ cells.take next

/-- The index behind another one, and the first behind the last. -/
def advance (size next : ℕ) : ℕ := if size ≤ next + 1 then 0 else next + 1

/-- The next index stays inside of the ring: behind the last cell comes the first one. -/
theorem advance_lt {size next : ℕ} (h : next < size) : advance size next < size := by
  unfold advance
  split_ifs <;> omega

/-- **A write** puts an element behind the others and drops the oldest. -/
theorem recent_write {cells : List α} {next : ℕ} (h : next < cells.length) (x : α) :
    recent (cells.set next x) (advance cells.length next) = (recent cells next).tail ++ [x] := by
  have hdrop : cells.drop next = cells[next] :: cells.drop (next + 1) :=
    List.drop_eq_getElem_cons h
  have htake : (cells.set next x).take (next + 1) = cells.take next ++ [x] := by
    rw [List.take_add_one, List.take_set, List.getElem?_set_self h,
      List.set_eq_of_length_le (by rw [List.length_take]; omega)]
    rfl
  have hrest : (cells.set next x).drop (next + 1) = cells.drop (next + 1) :=
    List.drop_set_of_lt (Nat.lt_succ_self next)
  have htail : (recent cells next).tail = cells.drop (next + 1) ++ cells.take next := by
    rw [recent, hdrop]
    rfl
  rw [htail]
  unfold advance
  split_ifs with hlast
  · -- the index comes around
    have hall : (cells.set next x).take (next + 1) = cells.set next x :=
      List.take_of_length_le (by rw [List.length_set]; omega)
    rw [recent, List.drop_zero, List.take_zero, List.append_nil, ← hall, htake,
      List.drop_of_length_le (by omega), List.nil_append]
  · rw [recent, hrest, htake, List.append_assoc]

/-- The elements in the order of their age are those of the cells, each as often as it is there. So
sums over the ring do not depend on where it begins. -/
theorem recent_perm (cells : List α) (next : ℕ) : (recent cells next).Perm cells := by
  have h : (cells.drop next ++ cells.take next).Perm (cells.take next ++ cells.drop next) :=
    List.perm_append_comm
  rwa [List.take_append_drop] at h

/-- Read from the oldest to the newest, the ring has as many cells as it has. -/
theorem length_recent (cells : List α) (next : ℕ) : (recent cells next).length = cells.length :=
  (recent_perm cells next).length_eq

/-- In a ring of equal cells any index is as good as another one. -/
theorem recent_replicate (size : ℕ) (x : α) (next : ℕ) :
    recent (List.replicate size x) next = List.replicate size x := by
  refine List.eq_replicate_iff.mpr ⟨?_, fun y hy => ?_⟩
  · rw [length_recent, List.length_replicate]
  · exact List.eq_of_mem_replicate ((recent_perm _ _).mem_iff.mp hy)

end Ring
