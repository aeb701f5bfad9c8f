/-
# Elements of one size in a block

A block of bytes holds elements of `size` bytes one behind the other.  Storing an element changes
it and no other one (`chunk_store`), and a block that begins with the same bytes has the same
elements there (`chunk_congr`).
-/

import Mathlib.Algebra.Order.Monoid.Unbundled.Basic
import Mathlib.Data.List.Basic
import Mathlib.Data.Nat.Notation

namespace Chunks

variable {α : Type*}

/-- The element at `i` of a block that is an array of elements of `size` bytes. -/
def chunk (block : List α) (size i : ℕ) : List α := (block.drop (i * size)).take size

/-- The block with some elements in the place of those at `offset`. -/
def store (block : List α) (offset : ℕ) (elements : List α) : List α :=
  block.take offset ++ (elements ++ block.drop (offset + elements.length))

/-- An element that lies inside of a block has its full size. -/
theorem length_chunk {block : List α} {size i : ℕ} (h : i * size + size ≤ block.length) :
    (chunk block size i).length = size := by
  rw [chunk, List.length_take, List.length_drop]
  omega

/-- Storing elements inside of a block keeps its length. -/
theorem length_store {block elements : List α} {offset : ℕ}
    (h : offset + elements.length ≤ block.length) : (store block offset elements).length = block.length := by
  rw [store, List.length_append, List.length_append, List.length_take, List.length_drop]
  omega

/-- Where an element ends, inside of which the next one does not begin. -/
theorem succ_mul_le {i j size : ℕ} (h : i < j) : i * size + size ≤ j * size := by
  rw [← Nat.succ_mul]
  exact Nat.mul_le_mul_right size h

/-- An element depends only on the front of the block up to its end. -/
theorem chunk_congr {block block' : List α} {size i n : ℕ} (h : block'.take n = block.take n)
    (hn : i * size + size ≤ n) : chunk block' size i = chunk block size i := by
  have htake : ∀ b : List α, chunk b size i = ((b.take n).drop (i * size)).take size := fun b => by
    rw [chunk, List.drop_take, List.take_take, Nat.min_eq_left (by omega)]
  rw [htake, htake, h]

/-- An element that lies behind the front of a block is found in the rest, at its offset there. -/
theorem chunk_append_right {front block : List α} {size i : ℕ} (h : front.length ≤ i * size) :
    chunk (front ++ block) size i = (block.drop (i * size - front.length)).take size := by
  rw [chunk, List.drop_append, List.drop_of_length_le h, List.nil_append]

/-- **Storing an element changes no other one.** Read element by element, the block has the new one
at its index, and the old ones everywhere else. -/
theorem chunk_store {block element : List α} {size i j : ℕ} (hsize : element.length = size)
    (hj : j * size + size ≤ block.length) :
    chunk (store block (j * size) element) size i =
      if i = j then element else chunk block size i := by
  have hfront : (block.take (j * size)).length = j * size :=
    List.length_take_of_le (by omega)
  rcases Nat.lt_trichotomy i j with hij | rfl | hij
  · rw [if_neg (Nat.ne_of_lt hij)]
    refine chunk_congr ?_ (succ_mul_le hij)
    rw [store, List.take_append_of_le_length (Nat.le_of_eq hfront.symm), List.take_take, Nat.min_self]
  · rw [if_pos rfl, store, chunk_append_right (Nat.le_of_eq hfront), hfront, Nat.sub_self,
      List.drop_zero, ← hsize, List.take_left]
  · have hend : j * size + size ≤ i * size := succ_mul_le hij
    rw [if_neg (Nat.ne_of_gt hij), store, ← List.append_assoc, chunk_append_right, chunk,
      List.drop_drop, List.length_append, hfront, hsize, Nat.add_sub_cancel' hend]
    rw [List.length_append, hfront, hsize]
    exact hend

end Chunks
