/-
# Numbers inside a buffer

Big-endian numbers that are read at an offset of a buffer.  Such a reading fails where
it would leave the buffer, and succeeds everywhere else.  Where the bytes of a number
stand, the number is read.
-/

import RrLauncher.Lib.ByteReader

namespace ByteAt

/-- The bytes of a `u16`, most significant first. -/
def be16 (x : UInt16) : List UInt8 := [UInt8.ofNat (x.toNat / 2 ^ 8), UInt8.ofNat x.toNat]

/-- `(buf[i] << 8) | buf[i + 1]`. -/
def u16At (buf : List UInt8) (i : ℕ) : Option UInt16 := do
  let hi ← buf[i]?
  let lo ← buf[i + 1]?
  return UInt16.ofNat (hi.toNat * 2 ^ 8 + lo.toNat)

/-- The four bytes from `i` on. -/
def u32At (buf : List UInt8) (i : ℕ) : Option UInt32 := do
  let a ← buf[i]?
  let b ← buf[i + 1]?
  let c ← buf[i + 2]?
  let d ← buf[i + 3]?
  return UInt32.ofNat (a.toNat * 2 ^ 24 + b.toNat * 2 ^ 16 + c.toNat * 2 ^ 8 + d.toNat)

/-- A number of 16 bits has two bytes. -/
@[simp] theorem length_be16 (x : UInt16) : (be16 x).length = 2 := rfl

/-- A number of 32 bits has four bytes. -/
@[simp] theorem length_be32 (x : UInt32) : (ByteReader.be32 x).length = 4 := rfl

/-- What stands behind a piece of text is found at its index there, counted from the end of the
piece. -/
theorem getElem?_behind (before after : List UInt8) (i : ℕ) :
    (before ++ after)[before.length + i]? = after[i]? := by
  rw [List.getElem?_append_right (Nat.le_add_right _ _), Nat.add_sub_cancel_left]

/-- Reading a number of 16 bits behind a piece of text is reading what stands there, whatever the
piece is. -/
theorem u16At_behind (before after : List UInt8) (i : ℕ) :
    u16At (before ++ after) (before.length + i) = u16At after i := by
  unfold u16At
  rw [getElem?_behind, Nat.add_assoc, getElem?_behind]

/-- A number that is read behind a piece of text does not depend on that piece. -/
theorem u32At_behind (before after : List UInt8) (i : ℕ) :
    u32At (before ++ after) (before.length + i) = u32At after i := by
  unfold u32At
  simp only [Nat.add_assoc, getElem?_behind]

/-- What comes behind a number of 16 bits does not change what is read. -/
theorem u16At_front {buf : List UInt8} {i : ℕ} (h : i + 2 ≤ buf.length) (after : List UInt8) :
    u16At (buf ++ after) i = u16At buf i := by
  unfold u16At
  rw [List.getElem?_append_left (show i < buf.length by omega),
    List.getElem?_append_left (show i + 1 < buf.length by omega)]

/-- A number that is read inside of a text does not depend on what is behind it. -/
theorem u32At_front {buf : List UInt8} {i : ℕ} (h : i + 4 ≤ buf.length) (after : List UInt8) :
    u32At (buf ++ after) i = u32At buf i := by
  unfold u32At
  rw [List.getElem?_append_left (show i < buf.length by omega),
    List.getElem?_append_left (show i + 1 < buf.length by omega),
    List.getElem?_append_left (show i + 2 < buf.length by omega),
    List.getElem?_append_left (show i + 3 < buf.length by omega)]

/-- **A `u16` reads back** from the front of a text, whatever stands behind its two bytes. -/
theorem u16At_be16 (x : UInt16) (after : List UInt8) : u16At (be16 x ++ after) 0 = some x := by
  have hx := x.toNat_lt
  simp only [u16At, be16, List.cons_append, List.nil_append, List.getElem?_cons_zero,
    List.getElem?_cons_succ, Option.bind_eq_bind, Option.bind_some, Option.pure_def,
    Option.some.injEq, UInt8.toNat_ofNat']
  rw [← UInt16.toNat_inj, UInt16.toNat_ofNat']
  omega

/-- **A `u32` reads back** from the front of a text, whatever stands behind its four bytes. -/
theorem u32At_be32 (x : UInt32) (after : List UInt8) :
    u32At (ByteReader.be32 x ++ after) 0 = some x := by
  have hx := x.toNat_lt
  simp only [u32At, ByteReader.be32, List.cons_append, List.nil_append, List.getElem?_cons_zero,
    List.getElem?_cons_succ, Option.bind_eq_bind, Option.bind_some, Option.pure_def,
    Option.some.injEq, UInt8.toNat_ofNat']
  rw [← UInt32.toNat_inj, UInt32.toNat_ofNat']
  omega

/-- A `u16` that lies inside the buffer can be read without a fault. -/
theorem exists_u16At {buf : List UInt8} {i : ℕ} (h : i + 2 ≤ buf.length) :
    ∃ x, u16At buf i = some x := by
  unfold u16At
  rw [List.getElem?_eq_getElem (show i < buf.length by omega),
    List.getElem?_eq_getElem (show i + 1 < buf.length by omega)]
  exact ⟨_, rfl⟩

/-- A `u32` that lies inside the buffer can be read without a fault. -/
theorem exists_u32At {buf : List UInt8} {i : ℕ} (h : i + 4 ≤ buf.length) :
    ∃ x, u32At buf i = some x := by
  unfold u32At
  rw [List.getElem?_eq_getElem (show i < buf.length by omega),
    List.getElem?_eq_getElem (show i + 1 < buf.length by omega),
    List.getElem?_eq_getElem (show i + 2 < buf.length by omega),
    List.getElem?_eq_getElem (show i + 3 < buf.length by omega)]
  exact ⟨_, rfl⟩

end ByteAt
