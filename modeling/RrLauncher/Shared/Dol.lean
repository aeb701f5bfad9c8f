/-
# DOL files in memory

`struct rrc_dol` of `shared/dol.h`, as it lies in memory with the sections staged behind
it: section `i` is `section_size[i]` bytes at `section[i]` from the header on, and belongs at
`section_addr[i]`.
-/

import RrLauncher.Lib.Memory.Loops

namespace RrLauncher

open Memory (InRange)

/-- `RRC_DOL_SECTION_COUNT`. -/
def rrcDolSectionCount : ℕ := 18

/-- `sizeof(struct rrc_dol)`. -/
def sizeofRrcDol : ℕ := 228

/-- A field of the header, which are all words. -/
def dolField (mem : Memory) (dol : UInt32) (n : ℕ) : UInt32 := mem.word (dol + UInt32.ofNat (4 * n))

section Fields

variable (mem : Memory) (dol : UInt32) (i : ℕ)

/-- `dol->section[i]`. -/
def dolSection : UInt32 := dolField mem dol i

/-- `dol->section_addr[i]`. -/
def dolSectionAddr : UInt32 := dolField mem dol (18 + i)

/-- `dol->section_size[i]`. -/
def dolSectionSize : UInt32 := dolField mem dol (36 + i)

/-- `dol->bss_addr`. -/
def dolBssAddr : UInt32 := dolField mem dol 54

/-- `dol->bss_size`. -/
def dolBssSize : UInt32 := dolField mem dol 55

/-- `dol->entry_point`. -/
def dolEntryPoint : UInt32 := dolField mem dol 56

/-- The address is one of the header. -/
def InHeader (a : UInt32) : Prop := InRange dol sizeofRrcDol a

/-- The address is one of the staged bytes of section `i`. -/
def Staged (a : UInt32) : Prop := InRange (dol + dolSection mem dol i) (dolSectionSize mem dol i).toNat a

end Fields

/-- The fields of a DOL are in its header, so memories that agree there have the same ones. -/
theorem dolField_congr {mem mem' : Memory} {dol : UInt32} {n : ℕ} (hn : n < 57)
    (h : ∀ a, InHeader dol a → mem' a = mem a) : dolField mem' dol n = dolField mem dol n := by
  refine Memory.word_congr fun a ha => h a (ha.of_offset ?_)
  rw [sizeofRrcDol]
  omega

end RrLauncher
