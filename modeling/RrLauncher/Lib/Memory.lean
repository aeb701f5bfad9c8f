/-
# Bytes at addresses

The memory of a machine with 32-bit addresses, and what a program hands out of it.  A
write changes the bytes at its addresses only (`write_of_outside`), and what was written
is there (`holds_write`); a string is read up to its NUL (`cstring_of_holds`).

An arena hands out blocks from the top down.  As long as no block is larger than what
is left below the pointer, the blocks never overlap, and the strings among them read
back whatever is handed out and written later (`Carved`).
-/

import RrLauncher.Lib.CStr

/-- What is at each address. -/
abbrev Memory := UInt32 → UInt8

namespace Memory

/-- `memcpy(p, bytes, bytes.length)`. -/
def write (m : Memory) (p : UInt32) (bytes : List UInt8) : Memory := fun a =>
  (bytes[(a - p).toNat]?).getD (m a)

/-- The bytes before the first NUL, of at most `n`. -/
def bytesFrom (m : Memory) : ℕ → UInt32 → List UInt8
  | 0, _ => []
  | n + 1, p => if m p = 0 then [] else m p :: bytesFrom m n (p + 1)

/-- A string that is read from memory has no NUL inside, as the reading stops at the first one. -/
theorem zero_notMem_bytesFrom (m : Memory) (n : ℕ) (p : UInt32) : 0 ∉ bytesFrom m n p := by
  induction n generalizing p with
  | zero => exact List.not_mem_nil
  | succ n ih =>
    rw [bytesFrom]
    split
    · exact List.not_mem_nil
    · rename_i hp
      rw [List.mem_cons, not_or]
      exact ⟨Ne.symm hp, ih _⟩

/-- The string at `p`, which is read up to its NUL. -/
def cstring (m : Memory) (p : UInt32) : CStr :=
  ⟨bytesFrom m (2 ^ 32) p, zero_notMem_bytesFrom m _ p⟩

/-- These bytes are at `p`. -/
def Holds (m : Memory) (p : UInt32) (bytes : List UInt8) : Prop :=
  ∀ i (h : i < bytes.length), m (p + UInt32.ofNat i) = bytes[i]

/-- The bytes from an address on. -/
structure Block where
  addr : UInt32
  size : ℕ
  deriving DecidableEq

/-- Where the block ends, as a number, so that the end of memory does not wrap around. -/
def Block.stop (b : Block) : ℕ := b.addr.toNat + b.size

/-- One block ends before the other one begins. -/
def Block.Apart (b c : Block) : Prop := b.stop ≤ c.addr.toNat ∨ c.stop ≤ b.addr.toNat

/-- How far an address is behind another one is found by subtraction, also where the addresses
wrapped around in between. -/
theorem toNat_offset {p : UInt32} {i : ℕ} (hi : i < 2 ^ 32) :
    (p + UInt32.ofNat i - p).toNat = i := by
  have hp := p.toNat_lt
  rw [UInt32.toNat_sub, UInt32.toNat_add, UInt32.toNat_ofNat_of_lt' hi]
  omega

/-- An address some bytes below another one, as a number, where it does not go below zero. -/
theorem toNat_below {p : UInt32} {n : ℕ} (hn : n ≤ p.toNat) :
    (p - UInt32.ofNat n).toNat = p.toNat - n := by
  have hp := p.toNat_lt
  rw [UInt32.toNat_sub, UInt32.toNat_ofNat_of_lt' (show n < 2 ^ 32 by omega)]
  omega

/-- An address some bytes behind another one, as a number, where it does not go over the highest
one. -/
theorem toNat_behind {p : UInt32} {n : ℕ} (hn : p.toNat + n < 2 ^ 32) :
    (p + UInt32.ofNat n).toNat = p.toNat + n := by
  rw [UInt32.toNat_add, UInt32.toNat_ofNat_of_lt' (show n < 2 ^ 32 by omega)]
  omega

/-- What is written to memory is there afterwards, also where it goes over the highest address, as
long as it does not come around to its own start. -/
theorem holds_write (m : Memory) (p : UInt32) {bytes : List UInt8} (h : bytes.length ≤ 2 ^ 32) :
    (m.write p bytes).Holds p bytes := by
  intro i hi
  rw [write, toNat_offset (by omega), List.getElem?_eq_getElem hi, Option.getD_some]

/-- **A write leaves the rest alone**: every address below its start, and every one from its end on,
has the byte that it had. -/
theorem write_of_outside (m : Memory) {p a : UInt32} {bytes : List UInt8}
    (hend : p.toNat + bytes.length ≤ 2 ^ 32)
    (h : a.toNat < p.toNat ∨ p.toNat + bytes.length ≤ a.toNat) : m.write p bytes a = m a := by
  have ha := a.toNat_lt
  have hp := p.toNat_lt
  have hoff : bytes.length ≤ (a - p).toNat := by
    rw [UInt32.toNat_sub]
    omega
  rw [write, List.getElem?_eq_none hoff, Option.getD_none]

/-- Bytes stay where they are if only other addresses change. -/
theorem Holds.congr {m m' : Memory} {p : UInt32} {bytes : List UInt8} (h : m.Holds p bytes)
    (hend : p.toNat + bytes.length ≤ 2 ^ 32)
    (hsame : ∀ a : UInt32, p.toNat ≤ a.toNat → a.toNat < p.toNat + bytes.length → m' a = m a) :
    m'.Holds p bytes := by
  intro i hi
  have haddr : (p + UInt32.ofNat i).toNat = p.toNat + i := toNat_behind (by omega)
  rw [hsame _ (by omega) (by omega)]
  exact h i hi

/-- Bytes in front of a NUL are read up to it, as far as the reading is allowed to go. -/
theorem bytesFrom_of_holds {m : Memory} {bytes : List UInt8} (hnul : 0 ∉ bytes) {n : ℕ}
    (hn : bytes.length < n) {p : UInt32} (h : m.Holds p (bytes ++ [0])) :
    bytesFrom m n p = bytes := by
  induction bytes generalizing n p with
  | nil =>
    obtain ⟨n, rfl⟩ := Nat.exists_eq_add_of_lt hn
    have hzero : m p = 0 := by simpa using h 0 (by simp)
    simp [bytesFrom, hzero]
  | cons c rest ih =>
    rw [List.mem_cons, not_or] at hnul
    rw [List.length_cons] at hn
    obtain ⟨n, rfl⟩ : ∃ n', n = n' + 1 := ⟨n - 1, by omega⟩
    have hc : m p = c := by simpa using h 0 (by simp)
    have hrest : m.Holds (p + 1) (rest ++ [0]) := by
      intro i hi
      have hi' := h (i + 1) (by simpa using hi)
      rw [UInt32.ofNat_add, UInt32.add_comm (UInt32.ofNat i), ← UInt32.add_assoc] at hi'
      simpa using hi'
    rw [bytesFrom, hc, if_neg (Ne.symm hnul.1), ih hnul.2 (by omega) hrest]

/-- **A string is read back** from where its bytes and its NUL stand. -/
theorem cstring_of_holds {m : Memory} {p : UInt32} {s : CStr} (hlen : s.len < 2 ^ 32)
    (h : m.Holds p (s.bytes ++ [0])) : m.cstring p = s :=
  CStr.ext (bytesFrom_of_holds s.noNul hlen h)

/-! ### An arena -/

/-- What was handed out: below which pointer, where, and the string that was copied there;
an array has none. -/
structure Allocation where
  top : UInt32
  block : Block
  text : Option CStr
  deriving DecidableEq

/-- There is room for it below the pointer. -/
def Allocation.Fits (al : Allocation) : Prop := al.block.size ≤ al.top.toNat

instance (al : Allocation) : Decidable al.Fits := inferInstanceAs (Decidable (_ ≤ _))

/-- An arena: the memory, the pointer, and what was handed out, the oldest first. -/
structure Arena where
  mem : Memory
  top : UInt32
  allocations : List Allocation

/-- The pointer has not wrapped around. -/
def Arena.Fits (a : Arena) : Prop := ∀ al ∈ a.allocations, al.Fits

/-- The string was handed out at `p`. -/
def Arena.HasString (a : Arena) (p : UInt32) (s : CStr) : Prop :=
  ∃ al ∈ a.allocations, al.block.addr = p ∧ al.text = some s

/-- A string that was handed out stays so when more is allocated behind it. -/
theorem Arena.HasString.mono {a a' : Arena} {p : UInt32} {s : CStr} (h : a.HasString p s)
    (hgrow : a.allocations <+: a'.allocations) : a'.HasString p s := by
  obtain ⟨al, hal, hp⟩ := h
  exact ⟨al, hgrow.mem hal, hp⟩

/-- If nothing has wrapped in an arena then nothing had in an earlier state of it. -/
theorem Arena.Fits.of_prefix {a a' : Arena} (h : a'.Fits) (hgrow : a.allocations <+: a'.allocations) :
    a.Fits := fun al hal => h al (hgrow.mem hal)

/-- **What holds of an arena** that began at `hi` and whose strings lie below `limit`. -/
structure Carved (hi limit : ℕ) (a : Arena) : Prop where
  within : ∀ al ∈ a.allocations, a.top.toNat ≤ al.block.addr.toNat ∧ al.block.stop ≤ hi
  apart : a.allocations.Pairwise fun al al' => al.block.Apart al'.block
  texts : ∀ al ∈ a.allocations, ∀ s, al.text = some s →
    al.block.stop ≤ limit ∧ al.block.size = s.len + 1 ∧ a.mem.Holds al.block.addr (s.bytes ++ [0])

namespace Carved

variable {hi limit : ℕ} {a : Arena}

/-- An arena from which nothing was handed out yet is carved, wherever its pointer is. -/
theorem nil (hi limit : ℕ) (m : Memory) (top : UInt32) : Carved hi limit ⟨m, top, []⟩ :=
  ⟨by simp, List.Pairwise.nil, by simp⟩

/-- **Handing out a block** that ends at or below the pointer: the arena stays carved, with the new
block apart from all others, and its text, if it has one, in memory. -/
theorem push (h : Carved hi limit a) (al : Allocation) (htop : a.top.toNat ≤ hi)
    (hstop : al.block.stop ≤ a.top.toNat)
    (htext : ∀ s, al.text = some s → al.block.stop ≤ limit ∧ al.block.size = s.len + 1 ∧
      a.mem.Holds al.block.addr (s.bytes ++ [0])) :
    Carved hi limit ⟨a.mem, al.block.addr, a.allocations ++ [al]⟩ := by
  have hle : al.block.addr.toNat ≤ al.block.stop := Nat.le_add_right _ _
  constructor
  · intro al' hal'
    rcases List.mem_append.mp hal' with hold | hnew
    · have hwithin := h.within al' hold
      dsimp only
      omega
    · obtain rfl := List.mem_singleton.mp hnew
      dsimp only
      omega
  · refine List.pairwise_append.mpr ⟨h.apart, List.pairwise_singleton _ _, ?_⟩
    rintro al' hold _ hnew
    obtain rfl := List.mem_singleton.mp hnew
    exact Or.inr (hstop.trans (h.within al' hold).1)
  · intro al' hal' s hs
    rcases List.mem_append.mp hal' with hold | hnew
    · exact h.texts al' hold s hs
    · obtain rfl := List.mem_singleton.mp hnew
      exact htext s hs

/-- **Writing outside the strings** keeps them: below the pointer nothing was handed out yet, and
from the limit on there are no texts. -/
theorem write (h : Carved hi limit a) (hhi : hi ≤ 2 ^ 32) {p : UInt32} {bytes : List UInt8}
    (hend : p.toNat + bytes.length ≤ 2 ^ 32)
    (hout : p.toNat + bytes.length ≤ a.top.toNat ∨ limit ≤ p.toNat) :
    Carved hi limit ⟨a.mem.write p bytes, a.top, a.allocations⟩ := by
  refine ⟨h.within, h.apart, fun al hal s hs => ?_⟩
  obtain ⟨hlimit, hsize, hholds⟩ := h.texts al hal s hs
  obtain ⟨htop, hstop⟩ := h.within al hal
  have hlen : (s.bytes ++ [0]).length = al.block.size := by
    rw [hsize, List.length_append, List.length_singleton, CStr.len]
  unfold Block.stop at hlimit hstop
  refine ⟨hlimit, hsize, hholds.congr (by omega) fun a' hlo hhi' => ?_⟩
  exact write_of_outside a.mem hend (by omega)

/-- **Handing out a block with its bytes** below the pointer. -/
theorem carve (h : Carved hi limit a) (hhi : hi ≤ 2 ^ 32) (al : Allocation) {bytes : List UInt8}
    (htop : a.top.toNat ≤ hi) (hstop : al.block.stop ≤ a.top.toNat)
    (hlen : bytes.length = al.block.size)
    (htext : ∀ s, al.text = some s → al.block.stop ≤ limit ∧ bytes = s.bytes ++ [0]) :
    Carved hi limit ⟨a.mem.write al.block.addr bytes, al.block.addr, a.allocations ++ [al]⟩ := by
  unfold Block.stop at hstop
  have hwritten := h.write hhi (p := al.block.addr) (show _ + bytes.length ≤ _ by omega) (by omega)
  refine hwritten.push al htop hstop fun s hs => ?_
  obtain ⟨hlimit, hbytes⟩ := htext s hs
  refine ⟨hlimit, ?_, hbytes ▸ holds_write a.mem al.block.addr (by omega)⟩
  rw [← hlen, hbytes, List.length_append, List.length_singleton, CStr.len]

/-- **Another memory** that has the same bytes in the arena. -/
theorem congr (h : Carved hi limit a) (hhi : hi ≤ 2 ^ 32) {m : Memory}
    (hsame : ∀ x : UInt32, a.top.toNat ≤ x.toNat → x.toNat < hi → m x = a.mem x) :
    Carved hi limit ⟨m, a.top, a.allocations⟩ := by
  refine ⟨h.within, h.apart, fun al hal s hs => ?_⟩
  obtain ⟨hlimit, hsize, hholds⟩ := h.texts al hal s hs
  obtain ⟨htop, hstop⟩ := h.within al hal
  have hlen : (s.bytes ++ [0]).length = al.block.size := by
    rw [hsize, List.length_append, List.length_singleton, CStr.len]
  unfold Block.stop at hlimit hstop
  exact ⟨hlimit, hsize, hholds.congr (by omega) fun x hlo hhi' => hsame x (by omega) (by omega)⟩

/-- **Every string reads back** as the one that was copied, at any later time and whatever was
allocated after it. -/
theorem cstring_eq (h : Carved hi limit a) (hhi : hi ≤ 2 ^ 32) {p : UInt32} {s : CStr}
    (hs : a.HasString p s) : a.mem.cstring p = s := by
  obtain ⟨al, hal, rfl, htext⟩ := hs
  obtain ⟨-, hsize, hholds⟩ := h.texts al hal s htext
  have hstop := (h.within al hal).2
  unfold Block.stop at hstop
  exact cstring_of_holds (by omega) hholds

end Carved

end Memory
