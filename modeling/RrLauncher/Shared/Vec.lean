/-
# The dynamic array

`vec.c`: a block of bytes that holds `len` elements of `value_size` bytes and has room for `cap`.
An element is added behind the last one, in a block of twice the size if there is no room, and
removed by copying the last one over it.

What the array holds is a list (`vec_refines_list`): through every sequence of calls its elements
are those of the list, and no call leaves the block.
-/

import RrLauncher.Lib.Chunks
import RrLauncher.Lib.KeyedTable

namespace RrLauncher

open Chunks (chunk store)
open KeyedTable (swapRemove)

/-- The largest `int`, of 32 bits. -/
def maxInt : ℕ := 0x7FFFFFFF

/-- Why a call does not return. -/
inductive VecStop
  | outOfBounds
  | tooLarge
  | noMemory
  /-- A product of `int`s is none. -/
  | overflow
  /-- Bytes that are not there are accessed. -/
  | outside
  deriving DecidableEq

/-- `malloc` and `realloc`, as they behave at one time; `realloc` keeps what fits. -/
structure Heap where
  malloc : ℕ → Option (List UInt8)
  realloc : List UInt8 → ℕ → Option (List UInt8)
  length_malloc : ∀ n block, malloc n = some block → block.length = n
  length_realloc : ∀ old n block, realloc old n = some block → block.length = n
  take_realloc : ∀ old n block, realloc old n = some block → old.length ≤ n →
    block.take old.length = old

/-- There is memory for every request. -/
def Heap.Grants (heap : Heap) : Prop :=
  (∀ n, heap.malloc n ≠ none) ∧ ∀ old n, heap.realloc old n ≠ none

/-- `struct vec`, with the bytes at `data`. -/
structure Vec where
  data : List UInt8
  valueSize : ℕ
  len : ℕ
  cap : ℕ

/-- `a * b` of two `int`s. -/
def mulInt (a b : ℕ) : Except VecStop ℕ :=
  if a * b ≤ maxInt then .ok (a * b) else .error .overflow

/-- What `memcpy` reads from a block, where it does not go over its end. -/
def readBytes (block : List UInt8) (offset count : ℕ) : Except VecStop (List UInt8) :=
  if offset + count ≤ block.length then .ok ((block.drop offset).take count) else .error .outside

/-- What `memcpy` writes to a block, where it does not go over its end. -/
def copyInto (block : List UInt8) (offset : ℕ) (bytes : List UInt8) :
    Except VecStop (List UInt8) :=
  if offset + bytes.length ≤ block.length then .ok (store block offset bytes) else .error .outside

/-- `vec_init`. -/
def vecInit (heap : Heap) (capacity valueSize : ℕ) : Except VecStop Vec := do
  let size ← mulInt valueSize capacity
  match heap.malloc size with
  | none => .error .noMemory
  | some data => .ok ⟨data, valueSize, 0, capacity⟩

/-- `vec_at`: how far into `data` the pointer points. -/
def vecAt (vec : Vec) (index : ℤ) : Except VecStop ℕ :=
  if 0 ≤ index ∧ index < vec.len then mulInt index.toNat vec.valueSize else .error .outOfBounds

/-- The room that `vec_push` makes. -/
def vecGrow (heap : Heap) (vec : Vec) : Except VecStop Vec :=
  if vec.cap ≤ vec.len then
    if vec.cap < 0x3FFFFFFF then do
      let newCap := vec.cap * 2
      let size ← mulInt newCap vec.valueSize
      match heap.realloc vec.data size with
      | none => .error .noMemory
      | some newData => .ok { vec with data := newData, cap := newCap }
    else .error .tooLarge
  else .ok vec

/-- `vec_push`. -/
def vecPush (heap : Heap) (vec : Vec) (value : List UInt8) : Except VecStop Vec := do
  let vec ← vecGrow heap vec
  let vec := { vec with len := vec.len + 1 }
  let dest ← vecAt vec (vec.len - 1)
  let bytes ← readBytes value 0 vec.valueSize
  let data ← copyInto vec.data dest bytes
  .ok { vec with data := data }

/-- `vec_swap_remove`. -/
def vecSwapRemove (vec : Vec) (index : ℤ) : Except VecStop Vec :=
  if 0 ≤ index ∧ index < vec.len then
    if index ≠ vec.len - 1 then do
      let lastValue ← vecAt vec (vec.len - 1)
      let dest ← vecAt vec index
      let bytes ← readBytes vec.data lastValue vec.valueSize
      let data ← copyInto vec.data dest bytes
      .ok { vec with data := data, len := vec.len - 1 }
    else .ok { vec with len := vec.len - 1 }
  else .error .outOfBounds

/-! ### Calls -/

/-- A call, of `vec_at` with what is read at the pointer. -/
inductive VecOp
  | push (value : List UInt8)
  | get (index : ℤ)
  | swapRemove (index : ℤ)

/-- The array after a call, and what was read. -/
def vecStep (heap : Heap) (vec : Vec) : VecOp → Except VecStop (Vec × List (List UInt8))
  | .push value => do .ok (← vecPush heap vec value, [])
  | .get index => do
    let bytes ← readBytes vec.data (← vecAt vec index) vec.valueSize
    .ok (vec, [bytes])
  | .swapRemove index => do .ok (← vecSwapRemove vec index, [])

/-- A sequence of calls, each with the heap as it is then. -/
def vecRun (vec : Vec) : List (Heap × VecOp) → Except VecStop (Vec × List (List UInt8))
  | [] => .ok (vec, [])
  | (heap, op) :: calls => do
    let (vec, read) ← vecStep heap vec op
    let (vec, more) ← vecRun vec calls
    .ok (vec, read ++ more)

/-- `vec_init` and a sequence of calls. -/
def vecSession (heap : Heap) (capacity valueSize : ℕ) (calls : List (Heap × VecOp)) :
    Except VecStop (Vec × List (List UInt8)) := do
  vecRun (← vecInit heap capacity valueSize) calls

/-! ### The list -/

/-- What the array is for: a list, and the room that was asked for. -/
structure ListVec where
  elements : List (List UInt8)
  cap : ℕ

/-- What a call does to the list. -/
def ListVec.step (l : ListVec) : VecOp → ListVec
  | .push value => ⟨l.elements ++ [value], if l.cap ≤ l.elements.length then l.cap * 2 else l.cap⟩
  | .get _ => l
  | .swapRemove index => ⟨swapRemove l.elements index.toNat, l.cap⟩

/-- What is read at the pointer that a call returns. -/
def ListVec.read (l : ListVec) : VecOp → List (List UInt8)
  | .get index => l.elements[index.toNat]?.toList
  | _ => []

/-- What a caller keeps to: values have the size of an element, indices are in bounds, and the
block can be counted by an `int`. -/
def ListVec.Allows (size : ℕ) (l : ListVec) : VecOp → Prop
  | .push value => value.length = size ∧ (l.step (.push value)).cap * size ≤ maxInt
  | .get index => 0 ≤ index ∧ index < l.elements.length
  | .swapRemove index => 0 ≤ index ∧ index < l.elements.length

/-- The list after some calls. -/
def ListVec.run (l : ListVec) (ops : List VecOp) : ListVec := ops.foldl ListVec.step l

/-- What is read along a sequence of calls. -/
def ListVec.reads (l : ListVec) : List VecOp → List (List UInt8)
  | [] => []
  | op :: ops => l.read op ++ (l.step op).reads ops

/-- Every call is allowed where it is made. -/
def ListVec.AllowsAll (size : ℕ) (l : ListVec) : List VecOp → Prop
  | [] => True
  | op :: ops => l.Allows size op ∧ (l.step op).AllowsAll size ops

/-- The array holds the list. -/
structure Represents (size : ℕ) (vec : Vec) (l : ListVec) : Prop where
  valueSize : vec.valueSize = size
  len : vec.len = l.elements.length
  cap : vec.cap = l.cap
  len_le : vec.len ≤ vec.cap
  cap_pos : 0 < vec.cap
  fits : vec.cap * vec.valueSize ≤ maxInt
  data : vec.data.length = vec.cap * vec.valueSize
  elements : ∀ i element, l.elements[i]? = some element → chunk vec.data size i = element

/-- Why a call on a list may not return: there is no memory, or the capacity is not doubled any
more. -/
def StopsFor (heap : Heap) (l : ListVec) (stop : VecStop) : Prop :=
  stop = .noMemory ∧ ¬ heap.Grants ∨ stop = .tooLarge ∧ 0x3FFFFFFF ≤ l.cap

/-! ### What each function does -/

/-- A product in the range of `int` is what it should be. -/
theorem mulInt_ok {a b : ℕ} (h : a * b ≤ maxInt) : mulInt a b = .ok (a * b) := if_pos h

/-- Bytes that lie inside of a block are read as they are. -/
theorem readBytes_ok {block : List UInt8} {offset count : ℕ} (h : offset + count ≤ block.length) :
    readBytes block offset count = .ok ((block.drop offset).take count) := if_pos h

/-- Bytes that fit into a block are stored there, and the rest of the block stays. -/
theorem copyInto_ok {block bytes : List UInt8} {offset : ℕ}
    (h : offset + bytes.length ≤ block.length) :
    copyInto block offset bytes = .ok (store block offset bytes) := if_pos h

/-- The element at an index below the length lies at the index times the element size. The product
does not overflow, as that of the whole capacity does not. -/
theorem vecAt_ok {vec : Vec} {i : ℕ} (hi : i < vec.len) (hle : vec.len ≤ vec.cap)
    (hfits : vec.cap * vec.valueSize ≤ maxInt) : vecAt vec i = .ok (i * vec.valueSize) := by
  have hmul : i * vec.valueSize ≤ maxInt :=
    (Nat.mul_le_mul_right _ (Nat.le_of_lt (Nat.lt_of_lt_of_le hi hle))).trans hfits
  rw [vecAt, if_pos ⟨Int.natCast_nonneg i, Int.ofNat_lt.mpr hi⟩, Int.toNat_natCast, mulInt_ok hmul]

section Calls

variable {size : ℕ} {vec : Vec} {l : ListVec}

/-- An element inside the capacity is inside the block, with all of its bytes. -/
theorem Represents.inside (h : Represents size vec l) {i : ℕ} (hi : i < vec.cap) :
    i * vec.valueSize + vec.valueSize ≤ vec.data.length := by
  rw [h.data]
  exact Chunks.succ_mul_le hi

/-- **The elements survive a reallocation** to twice the capacity, as `realloc` keeps the bytes that
were in the block. -/
theorem Represents.grown (h : Represents size vec l) {heap : Heap} {block : List UInt8}
    (hfits : vec.cap * 2 * vec.valueSize ≤ maxInt)
    (hblock : heap.realloc vec.data (vec.cap * 2 * vec.valueSize) = some block) :
    Represents size ⟨block, vec.valueSize, vec.len, vec.cap * 2⟩ ⟨l.elements, vec.cap * 2⟩ where
  valueSize := h.valueSize
  len := h.len
  cap := rfl
  len_le := h.len_le.trans (Nat.le_mul_of_pos_right _ Nat.two_pos)
  cap_pos := Nat.mul_pos h.cap_pos Nat.two_pos
  fits := hfits
  data := heap.length_realloc _ _ _ hblock
  elements := by
    intro i element hi
    have hlen : vec.data.length ≤ vec.cap * 2 * vec.valueSize := by
      rw [h.data]
      exact Nat.mul_le_mul_right _ (Nat.le_mul_of_pos_right _ Nat.two_pos)
    have htake := heap.take_realloc _ _ _ hblock hlen
    obtain ⟨hlt, -⟩ := List.getElem?_eq_some_iff.mp hi
    have hinside := h.inside (Nat.lt_of_lt_of_le (h.len ▸ hlt) h.len_le)
    rw [h.valueSize] at hinside
    rw [← h.elements i element hi]
    exact Chunks.chunk_congr (htake.trans (List.take_length).symm) hinside

/-- There is room behind the last element, or there is none to be had. -/
theorem vecGrow_spec (h : Represents size vec l) (heap : Heap)
    (hfits : (if l.cap ≤ l.elements.length then l.cap * 2 else l.cap) * size ≤ maxInt) :
    (∃ vec', vecGrow heap vec = .ok vec' ∧ vec'.len < vec'.cap ∧
      Represents size vec' ⟨l.elements, if l.cap ≤ l.elements.length then l.cap * 2 else l.cap⟩) ∨
      ∃ stop, vecGrow heap vec = .error stop ∧ StopsFor heap l stop := by
  rw [← h.cap, ← h.len, ← h.valueSize] at hfits
  rw [← h.cap, ← h.len]
  by_cases hfull : vec.cap ≤ vec.len
  · rw [if_pos hfull] at hfits ⊢
    by_cases hsmall : vec.cap < 0x3FFFFFFF
    · cases hblock : heap.realloc vec.data (vec.cap * 2 * vec.valueSize) with
      | none =>
        refine Or.inr ⟨.noMemory, ?_, Or.inl ⟨rfl, fun hgrants => hgrants.2 _ _ hblock⟩⟩
        simp only [vecGrow, if_pos hfull, if_pos hsmall, mulInt_ok hfits, bind, Except.bind, hblock]
      | some block =>
        refine Or.inl ⟨⟨block, vec.valueSize, vec.len, vec.cap * 2⟩, ?_, ?_, ?_⟩
        · simp only [vecGrow, if_pos hfull, if_pos hsmall, mulInt_ok hfits, bind, Except.bind, hblock]
        · have := h.len_le
          have := h.cap_pos
          show vec.len < vec.cap * 2
          omega
        · exact h.grown hfits hblock
    · refine Or.inr ⟨.tooLarge, ?_, Or.inr ⟨rfl, h.cap ▸ Nat.le_of_not_lt hsmall⟩⟩
      rw [vecGrow, if_pos hfull, if_neg hsmall]
  · rw [if_neg hfull]
    refine Or.inl ⟨vec, ?_, Nat.lt_of_not_le hfull, { h with cap := rfl }⟩
    rw [vecGrow, if_neg hfull]

/-- An element that is stored behind the last one is the new last element, and the others are not
touched. -/
theorem Represents.concat (h : Represents size vec l) (hroom : vec.len < vec.cap)
    {value : List UInt8} (hvalue : value.length = size) :
    Represents size
      ⟨store vec.data (vec.len * vec.valueSize) value, vec.valueSize, vec.len + 1, vec.cap⟩
      ⟨l.elements ++ [value], l.cap⟩ := by
  have hinside := h.inside hroom
  have hcopy : vec.len * vec.valueSize + value.length ≤ vec.data.length := by
    rw [hvalue, ← h.valueSize]
    exact hinside
  refine ⟨h.valueSize, ?_, h.cap, Nat.succ_le_of_lt hroom, h.cap_pos, h.fits,
    (Chunks.length_store hcopy).trans h.data, fun i element hi => ?_⟩
  · show vec.len + 1 = (l.elements ++ [value]).length
    rw [h.len, List.length_append, List.length_singleton]
  · rw [h.valueSize] at hinside ⊢
    show chunk (store vec.data (vec.len * size) value) size i = element
    rw [Chunks.chunk_store hvalue hinside]
    have hi' : (l.elements ++ [value])[i]? = some element := hi
    have hlen := h.len
    rw [List.getElem?_append] at hi'
    split at hi'
    · rw [if_neg (by omega)]
      exact h.elements i element hi'
    · have hlast := (List.getElem?_eq_some_iff.mp hi').1
      rw [List.length_singleton] at hlast
      have hzero : i - l.elements.length = 0 := by omega
      rw [hzero] at hi'
      rw [if_pos (by omega)]
      exact Option.some.inj hi'

/-- `vec_push` appends the element as the list does, growing the block if it is full, or stops as
there is no memory or the capacity is at its limit. -/
theorem vecPush_spec (h : Represents size vec l) (heap : Heap) {value : List UInt8}
    (hallows : l.Allows size (.push value)) :
    (∃ vec', vecPush heap vec value = .ok vec' ∧ Represents size vec' (l.step (.push value))) ∨
      ∃ stop, vecPush heap vec value = .error stop ∧ StopsFor heap l stop := by
  obtain ⟨hvalue, hfits⟩ := hallows
  rcases vecGrow_spec h heap hfits with ⟨vec', hgrow, hroom, h'⟩ | ⟨stop, hgrow, hstop⟩
  · have hread : readBytes value 0 vec'.valueSize = .ok value := by
      rw [h'.valueSize, ← hvalue, readBytes_ok (Nat.le_of_eq (Nat.zero_add _)), List.drop_zero,
        List.take_length]
    have hat : vecAt { vec' with len := vec'.len + 1 } (((vec'.len + 1 : ℕ) : ℤ) - 1) =
        .ok (vec'.len * vec'.valueSize) := by
      have hindex : ((vec'.len + 1 : ℕ) : ℤ) - 1 = (vec'.len : ℤ) := by omega
      rw [hindex]
      exact vecAt_ok (Nat.lt_succ_self _) (Nat.succ_le_of_lt hroom) h'.fits
    have hcopy : vec'.len * vec'.valueSize + value.length ≤ vec'.data.length := by
      rw [hvalue, ← h'.valueSize]
      exact h'.inside hroom
    refine Or.inl ⟨_, ?_, h'.concat hroom hvalue⟩
    simp only [vecPush, bind, Except.bind, hgrow, hat, hread, copyInto_ok hcopy]
  · refine Or.inr ⟨stop, ?_, hstop⟩
    simp only [vecPush, bind, Except.bind, hgrow]

/-- `vec_at` points at the element that the list has at that index, and changes nothing. -/
theorem vecGet_spec (h : Represents size vec l) (heap : Heap) {index : ℤ}
    (hallows : l.Allows size (.get index)) :
    vecStep heap vec (.get index) = .ok (vec, l.read (.get index)) := by
  obtain ⟨hpos, hlt⟩ := hallows
  obtain ⟨i, rfl⟩ := Int.eq_ofNat_of_zero_le hpos
  have hi : i < vec.len := by
    rw [h.len]
    exact Int.ofNat_lt.mp hlt
  have hget := List.getElem?_eq_getElem (h.len ▸ hi)
  have hread : l.read (.get i) = [chunk vec.data size i] := by
    show l.elements[(i : ℤ).toNat]?.toList = _
    rw [Int.toNat_natCast, hget, h.elements i _ hget]
    rfl
  have hbytes : readBytes vec.data (i * vec.valueSize) vec.valueSize = .ok (chunk vec.data size i) := by
    rw [readBytes_ok (h.inside (Nat.lt_of_lt_of_le hi h.len_le)), h.valueSize]
    rfl
  rw [hread]
  simp only [vecStep, bind, Except.bind, vecAt_ok hi h.len_le h.fits, hbytes]

/-- The last element in the place of another one, and one element less. -/
theorem Represents.swapRemoved (h : Represents size vec l) {i : ℕ} {data : List UInt8}
    (hlength : data.length = vec.data.length)
    (hdata : ∀ j, j < vec.len - 1 → chunk data size j =
      if i = j then chunk vec.data size (vec.len - 1) else chunk vec.data size j) :
    Represents size ⟨data, vec.valueSize, vec.len - 1, vec.cap⟩ ⟨swapRemove l.elements i, l.cap⟩ := by
  have hlen : vec.len - 1 = (swapRemove l.elements i).length := by
    rw [KeyedTable.length_swapRemove, ← h.len]
  refine ⟨h.valueSize, hlen, h.cap, (Nat.sub_le _ _).trans h.len_le, h.cap_pos, h.fits,
    hlength.trans h.data, fun j element hj => ?_⟩
  have hjlt := (List.getElem?_eq_some_iff.mp hj).1
  rw [← hlen] at hjlt
  rw [KeyedTable.getElem?_swapRemove (h.len ▸ hjlt)] at hj
  rw [hdata j hjlt]
  split at hj
  · rename_i hij
    rw [if_pos hij]
    exact h.elements _ _ (h.len ▸ hj)
  · rename_i hij
    rw [if_neg hij]
    exact h.elements _ _ hj

/-- `vec_swap_remove` replaces the element by the last one and drops that. -/
theorem vecSwapRemove_spec (h : Represents size vec l) {index : ℤ}
    (hallows : l.Allows size (.swapRemove index)) :
    ∃ vec', vecSwapRemove vec index = .ok vec' ∧
      Represents size vec' (l.step (.swapRemove index)) := by
  obtain ⟨hpos, hlt⟩ := hallows
  obtain ⟨i, rfl⟩ := Int.eq_ofNat_of_zero_le hpos
  have hi : i < vec.len := by
    rw [h.len]
    exact Int.ofNat_lt.mp hlt
  have hbounds : 0 ≤ (i : ℤ) ∧ (i : ℤ) < vec.len := ⟨hpos, Int.ofNat_lt.mpr hi⟩
  by_cases hlast : (i : ℤ) ≠ vec.len - 1
  · have hlen : vec.len - 1 < vec.len := by omega
    have hindex : ((vec.len : ℤ) - 1) = ((vec.len - 1 : ℕ) : ℤ) := by omega
    have hinside := h.inside (Nat.lt_of_lt_of_le hi h.len_le)
    have hinsideLast := h.inside (Nat.lt_of_lt_of_le hlen h.len_le)
    have hread : readBytes vec.data ((vec.len - 1) * vec.valueSize) vec.valueSize =
        .ok (chunk vec.data size (vec.len - 1)) := by
      rw [readBytes_ok hinsideLast, h.valueSize]
      rfl
    have hsize : (chunk vec.data size (vec.len - 1)).length = vec.valueSize := by
      rw [h.valueSize] at hinsideLast ⊢
      exact Chunks.length_chunk hinsideLast
    have hcopy : i * vec.valueSize + (chunk vec.data size (vec.len - 1)).length ≤
        vec.data.length := by
      rw [hsize]
      exact hinside
    refine ⟨_, ?_, h.swapRemoved (Chunks.length_store hcopy) fun j _ => ?_⟩
    · rw [vecSwapRemove, if_pos hbounds, if_pos hlast, hindex]
      simp only [bind, Except.bind, vecAt_ok hi h.len_le h.fits, vecAt_ok hlen h.len_le h.fits, hread,
        copyInto_ok hcopy]
    · rw [h.valueSize] at hinside hsize ⊢
      rw [Chunks.chunk_store hsize hinside, Int.toNat_natCast]
      simp only [eq_comm]
  · refine ⟨_, ?_, h.swapRemoved rfl fun j hj => ?_⟩
    · rw [vecSwapRemove, if_pos hbounds, if_neg hlast]
    · rw [if_neg (by omega)]

/-- **One call**: the array still holds the list, and what is read is what the list holds, or there
was no room to be had. -/
theorem vecStep_spec (h : Represents size vec l) (heap : Heap) {op : VecOp}
    (hallows : l.Allows size op) :
    (∃ vec', vecStep heap vec op = .ok (vec', l.read op) ∧ Represents size vec' (l.step op)) ∨
      ∃ stop, vecStep heap vec op = .error stop ∧ StopsFor heap l stop := by
  cases op with
  | push value =>
    rcases vecPush_spec h heap hallows with ⟨vec', hpush, h'⟩ | ⟨stop, hpush, hstop⟩
    · exact Or.inl ⟨vec', by simp only [vecStep, bind, Except.bind, hpush]; rfl, h'⟩
    · exact Or.inr ⟨stop, by simp only [vecStep, bind, Except.bind, hpush], hstop⟩
  | get index => exact Or.inl ⟨vec, vecGet_spec h heap hallows, h⟩
  | swapRemove index =>
    obtain ⟨vec', hremove, h'⟩ := vecSwapRemove_spec h hallows
    exact Or.inl ⟨vec', by simp only [vecStep, bind, Except.bind, hremove]; rfl, h'⟩

end Calls

/-- No call makes the capacity smaller, not even one that removes elements. -/
theorem ListVec.cap_le_step (l : ListVec) (op : VecOp) : l.cap ≤ (l.step op).cap := by
  cases op with
  | push value =>
    show l.cap ≤ if l.cap ≤ l.elements.length then l.cap * 2 else l.cap
    split
    · exact Nat.le_mul_of_pos_right _ Nat.two_pos
    · exact Nat.le_refl _
  | get index => exact Nat.le_refl _
  | swapRemove index => exact Nat.le_refl _

/-- No sequence of calls makes the capacity smaller. So a bound on the last capacity bounds all of
the products in between. -/
theorem ListVec.cap_le_run (l : ListVec) (ops : List VecOp) : l.cap ≤ (l.run ops).cap := by
  induction ops generalizing l with
  | nil => exact Nat.le_refl _
  | cons op ops ih => exact (l.cap_le_step op).trans (ih (l.step op))

/-- **A sequence of calls** does on the array what it does on the list, or stops for one of the two
allowed reasons. It is proved by induction on the calls. -/
theorem vecRun_spec {size : ℕ} {vec : Vec} {l : ListVec} (h : Represents size vec l)
    {calls : List (Heap × VecOp)} (hallows : l.AllowsAll size (calls.map Prod.snd)) :
    (∃ vec', vecRun vec calls = .ok (vec', l.reads (calls.map Prod.snd)) ∧
      Represents size vec' (l.run (calls.map Prod.snd))) ∨
      ∃ stop, vecRun vec calls = .error stop ∧
        (stop = .noMemory ∧ (∃ call ∈ calls, ¬ call.1.Grants) ∨
          stop = .tooLarge ∧ 0x3FFFFFFF ≤ (l.run (calls.map Prod.snd)).cap) := by
  induction calls generalizing vec l with
  | nil => exact Or.inl ⟨vec, rfl, h⟩
  | cons call calls ih =>
    obtain ⟨heap, op⟩ := call
    obtain ⟨hop, hops⟩ := hallows
    rcases vecStep_spec h heap hop with ⟨vec₁, hstep, h₁⟩ | ⟨stop, hstep, hstop⟩
    · rcases ih h₁ hops with ⟨vec', hrun, h'⟩ | ⟨stop, hrun, hstop⟩
      · exact Or.inl ⟨vec', by simp only [vecRun, bind, Except.bind, hstep, hrun]; rfl, h'⟩
      · refine Or.inr ⟨stop, by simp only [vecRun, bind, Except.bind, hstep, hrun], ?_⟩
        refine hstop.imp_left fun hmemory => ⟨hmemory.1, ?_⟩
        obtain ⟨call, hcall, hgrants⟩ := hmemory.2
        exact ⟨call, List.mem_cons_of_mem _ hcall, hgrants⟩
    · refine Or.inr ⟨stop, by simp only [vecRun, bind, Except.bind, hstep], ?_⟩
      rcases hstop with ⟨rfl, hgrants⟩ | ⟨rfl, hcap⟩
      · exact Or.inl ⟨rfl, _, List.mem_cons_self, hgrants⟩
      · exact Or.inr ⟨rfl, hcap.trans (l.cap_le_run _)⟩

/-- **The array is the list.**  Through every sequence of calls on an array of at least one element,
with indices in bounds and blocks that an `int` can count, it holds the elements that the list
holds, and what is read at a pointer is the element.  No call leaves the block and no product leaves
the range of `int`; what stops the run is that there is no memory, or the capacity's own limit. -/
theorem vec_refines_list {capacity size : ℕ} (hcapacity : 1 ≤ capacity)
    (hfits : capacity * size ≤ maxInt) (heap : Heap) (calls : List (Heap × VecOp))
    (hallows : (ListVec.mk [] capacity).AllowsAll size (calls.map Prod.snd)) :
    let l := ListVec.mk [] capacity
    let ops := calls.map Prod.snd
    (∃ vec, vecSession heap capacity size calls = .ok (vec, l.reads ops) ∧
      Represents size vec (l.run ops)) ∨
      ∃ stop, vecSession heap capacity size calls = .error stop ∧
        (stop = .noMemory ∧ (¬ heap.Grants ∨ ∃ call ∈ calls, ¬ call.1.Grants) ∨
          stop = .tooLarge ∧ 0x3FFFFFFF ≤ (l.run ops).cap) := by
  intro l ops
  have hmul : size * capacity ≤ maxInt := Nat.mul_comm capacity size ▸ hfits
  cases hblock : heap.malloc (size * capacity) with
  | none =>
    refine Or.inr ⟨.noMemory, ?_, Or.inl ⟨rfl, Or.inl fun hgrants => hgrants.1 _ hblock⟩⟩
    simp only [vecSession, vecInit, bind, Except.bind, mulInt_ok hmul, hblock]
  | some block =>
    have hinit : vecInit heap capacity size = .ok ⟨block, size, 0, capacity⟩ := by
      simp only [vecInit, bind, Except.bind, mulInt_ok hmul, hblock]
    have h : Represents size ⟨block, size, 0, capacity⟩ l :=
      ⟨rfl, rfl, rfl, Nat.zero_le _, hcapacity, hfits,
        (heap.length_malloc _ _ hblock).trans (Nat.mul_comm _ _), fun i element hi => by cases hi⟩
    have hsession : vecSession heap capacity size calls =
        vecRun ⟨block, size, 0, capacity⟩ calls := by
      simp only [vecSession, bind, Except.bind, hinit]
    rw [hsession]
    rcases vecRun_spec h hallows with hok | ⟨stop, hrun, hstop⟩
    · exact Or.inl hok
    · exact Or.inr ⟨stop, hrun, hstop.imp_left fun hmemory => ⟨hmemory.1, Or.inr hmemory.2⟩⟩

/-- A heap with memory for every request. -/
def plainHeap : Heap where
  malloc n := some (List.replicate n 0)
  realloc old n := some (old.take n ++ List.replicate (n - old.length) 0)
  length_malloc := by
    rintro n _ ⟨⟩
    exact List.length_replicate
  length_realloc := by
    rintro old n _ ⟨⟩
    rw [List.length_append, List.length_take, List.length_replicate]
    omega
  take_realloc := by
    rintro old n _ ⟨⟩ hle
    rw [List.take_of_length_le hle, List.take_left]

/-- The heap that always has room grants every request, and keeps the bytes that were there, as
`realloc` is documented to do. -/
theorem plainHeap_grants : plainHeap.Grants :=
  ⟨(fun _ h => by cases h), (fun _ _ h => by cases h)⟩

/-- Two elements in an array with room for one, the first of which is removed. -/
theorem vec_refines_list_growing :
    ∃ vec, vecSession plainHeap 1 2 [(plainHeap, .push [1, 2]), (plainHeap, .push [3, 4]),
        (plainHeap, .get 0), (plainHeap, .swapRemove 0), (plainHeap, .get 0)] =
          .ok (vec, [[1, 2], [3, 4]]) ∧ Represents 2 vec ⟨[[3, 4]], 2⟩ := by
  have hallows : (ListVec.mk [] 1).AllowsAll 2
      [.push [1, 2], .push [3, 4], .get 0, .swapRemove 0, .get 0] :=
    ⟨⟨rfl, by decide⟩, ⟨rfl, by decide⟩, ⟨by decide, by decide⟩, ⟨by decide, by decide⟩,
      ⟨by decide, by decide⟩, trivial⟩
  rcases vec_refines_list (by decide : 1 ≤ 1) (by decide : 1 * 2 ≤ maxInt) plainHeap
    [(plainHeap, .push [1, 2]), (plainHeap, .push [3, 4]), (plainHeap, .get 0),
      (plainHeap, .swapRemove 0), (plainHeap, .get 0)] hallows with
    hok | ⟨stop, -, ⟨-, hgrants⟩ | ⟨-, hcap⟩⟩
  · exact hok
  · rcases hgrants with hgrants | ⟨call, hcall, hgrants⟩
    · exact absurd plainHeap_grants hgrants
    · simp only [List.mem_cons, List.not_mem_nil, or_false] at hcall
      rcases hcall with rfl | rfl | rfl | rfl | rfl <;> exact absurd plainHeap_grants hgrants
  · exact absurd hcap (by decide)

end RrLauncher
