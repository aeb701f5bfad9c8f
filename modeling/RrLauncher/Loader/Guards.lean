/-
# Guards of address ranges

The checks of `main.c` and `binary_loader.c` on what a DOL or the disc says about
addresses and sizes.  They add and subtract modulo `2 ^ 32`, so a size with which the
sum wraps around can pass (`guards_pass_wrapped`); with this exception they do what they
are for (`guards_sound_iff`).
-/

import RrLauncher.Shared.Util
import Mathlib.Data.List.TakeWhile

namespace RrLauncher

/-- `RRC_RUNTIME_EXT_DOL_SAFE_START`. -/
def rrcRuntimeExtDolSafeStart : UInt32 := 0x8175c900

/-- `RRC_RUNTIME_EXT_DOL_SAFE_END`. -/
def rrcRuntimeExtDolSafeEnd : UInt32 := 0x817fffff - 64

/-- `RRC_BI2_SIZE`. -/
def rrcBi2Size : UInt32 := 0x2000

/-- A range of addresses, by its start and its size as the headers have them. -/
structure Region where
  addr : UInt32
  size : UInt32
  deriving DecidableEq

/-- Where the range ends, which may be behind the last address. -/
def Region.endAddr (region : Region) : ℕ := region.addr.toNat + region.size.toNat

/-- The range lies between two addresses. -/
def Region.Within (region : Region) (lo hi : ℕ) : Prop :=
  lo ≤ region.addr.toNat ∧ region.endAddr ≤ hi

instance (region : Region) (lo hi : ℕ) : Decidable (region.Within lo hi) :=
  inferInstanceAs (Decidable (_ ∧ _))

/-- `ensure_section_inbounds`: whether it returns, instead of reporting the section and stopping. -/
def ensureSectionInbounds (sec : Region) : Bool :=
  if sec.addr + sec.size > rrcRuntimeExtDolSafeEnd then false
  else if sec.addr < rrcRuntimeExtDolSafeStart then false
  else true

/-- What `rrc_binary_load_runtime_ext` writes to: the BSS, then the sections that have an
address, up to the first range that is not in bounds. -/
def runtimeExtWrites (bss : Region) (sections : List Region) : List Region :=
  (bss :: sections.filter (·.addr ≠ 0)).takeWhile ensureSectionInbounds

/-- The check of `main` on a section of the DOL of the game that is not empty: whether it is
accepted. -/
def acceptsSection (sec : Region) : Bool :=
  ¬ (sec.addr < 0x80000000 ∨ sec.addr + sec.size > 0x90000000)

/-- Where `main` puts the FST and the BI2 block. -/
structure DiscPlacement where
  fst : Region
  bi2 : Region
  deriving DecidableEq

/-- How `main` places the FST of which the disc header has the size, in words. -/
def placeFst (headerFstSize : UInt32) : Option DiscPlacement :=
  let mem1Hi := rrcRuntimeExtDolSafeStart
  let fstSize := headerFstSize <<< 2
  let fstDest := alignDown (mem1Hi - fstSize) 32
  if fstDest < 0x81700000 then none
  else
    let mem1Hi := fstDest
    let mem1Hi := alignDown (mem1Hi - rrcBi2Size) 32
    some ⟨⟨fstDest, alignUp fstSize 32⟩, ⟨mem1Hi, rrcBi2Size⟩⟩

/-! ### Sections -/

/-- A section of the runtime extension that is in bounds lies in the reserved area, unless
its end wraps around to an address that is. -/
theorem ensureSectionInbounds_iff (sec : Region) :
    (ensureSectionInbounds sec = true →
        sec.Within rrcRuntimeExtDolSafeStart.toNat rrcRuntimeExtDolSafeEnd.toNat) ↔
      sec.endAddr < 2 ^ 32 ∨ sec.addr < rrcRuntimeExtDolSafeStart ∨
        2 ^ 32 + rrcRuntimeExtDolSafeEnd.toNat < sec.endAddr := by
  have hstart : rrcRuntimeExtDolSafeStart.toNat = 0x8175c900 := rfl
  have hend : rrcRuntimeExtDolSafeEnd.toNat = 0x817fffbf := rfl
  have haddr := sec.addr.toNat_lt
  have hsize := sec.size.toNat_lt
  unfold ensureSectionInbounds Region.Within Region.endAddr
  simp only [gt_iff_lt, UInt32.lt_iff_toNat_lt, UInt32.toNat_add, hstart, hend]
  split_ifs <;> simp <;> omega

/-- The same for the sections of the game, whose end is compared after the addition as well. -/
theorem acceptsSection_iff (sec : Region) :
    (acceptsSection sec = true → sec.Within 0x80000000 0x90000000) ↔
      sec.endAddr < 2 ^ 32 ∨ sec.addr < 0x80000000 ∨
        2 ^ 32 + 0x90000000 < sec.endAddr := by
  have haddr := sec.addr.toNat_lt
  have hsize := sec.size.toNat_lt
  have hlo : (0x80000000 : UInt32).toNat = 0x80000000 := rfl
  have hhi : (0x90000000 : UInt32).toNat = 0x90000000 := rfl
  unfold acceptsSection Region.Within Region.endAddr
  simp only [gt_iff_lt, UInt32.lt_iff_toNat_lt, UInt32.toNat_add, hlo, hhi, decide_eq_true_eq]
  omega

/-- **The loader writes inside the reserved area** if no range wraps around. -/
theorem runtimeExtWrites_within (bss : Region) (sections : List Region)
    (hwrap : ∀ region ∈ bss :: sections, region.endAddr < 2 ^ 32) :
    ∀ region ∈ runtimeExtWrites bss sections,
      region.Within rrcRuntimeExtDolSafeStart.toNat rrcRuntimeExtDolSafeEnd.toNat := by
  intro region hregion
  unfold runtimeExtWrites at hregion
  have hmem : region ∈ bss :: sections := by
    rcases List.mem_cons.mp ((List.takeWhile_prefix _).mem hregion) with rfl | h
    · exact List.mem_cons_self
    · exact List.mem_cons_of_mem _ (List.mem_filter.mp h).1
  exact (ensureSectionInbounds_iff region).mpr (.inl (hwrap region hmem))
    (List.mem_takeWhile_imp hregion)

/-! ### The FST -/

/-- Where the FST goes, as a number: the subtraction wraps around where the FST is larger than the
address of the runtime extension. -/
theorem toNat_fstDest (fstSize : UInt32) :
    (alignDown (rrcRuntimeExtDolSafeStart - fstSize) 32).toNat =
      (2 ^ 32 - fstSize.toNat + 0x8175c900) % 2 ^ 32 / 32 * 32 := by
  have halign := toNat_alignDown (rrcRuntimeExtDolSafeStart - fstSize) (k := 5) (by decide)
  rw [UInt32.toNat_sub] at halign
  exact halign

/-- How much is read for the FST, as a number. -/
theorem toNat_fstLength (fstSize : UInt32) :
    (alignUp fstSize 32).toNat = (fstSize.toNat + 31) % 2 ^ 32 / 32 * 32 :=
  toNat_alignUp fstSize (k := 5) (by decide)

/-- The BI2 block ends where the FST begins, or up to 31 bytes below. -/
theorem toNat_bi2 {fstDest : UInt32} (h : 0x81700000 ≤ fstDest.toNat) :
    (alignDown (fstDest - rrcBi2Size) 32).toNat + rrcBi2Size.toNat ≤ fstDest.toNat := by
  have hsize : rrcBi2Size.toNat = 0x2000 := rfl
  have halign := toNat_alignDown (fstDest - rrcBi2Size) (k := 5) (by decide)
  have hlt := fstDest.toNat_lt
  rw [UInt32.toNat_sub, hsize] at halign
  have halign' : (alignDown (fstDest - rrcBi2Size) 32).toNat =
      (2 ^ 32 - 0x2000 + fstDest.toNat) % 2 ^ 32 / 2 ^ 5 * 2 ^ 5 := halign
  omega

/-- **The FST lies below the runtime extension and the BI2 block below the FST**, if the FST
is accepted, unless its size wraps the address around. -/
theorem placeFst_iff (headerFstSize : UInt32) :
    (∀ placed ∈ placeFst headerFstSize,
        placed.fst.Within 0x81700000 rrcRuntimeExtDolSafeStart.toNat ∧
          placed.bi2.endAddr ≤ placed.fst.addr.toNat) ↔
      (headerFstSize <<< 2).toNat ≤ rrcRuntimeExtDolSafeStart.toNat ∨
        2 ^ 32 - 32 < (headerFstSize <<< 2).toNat := by
  have hstart : rrcRuntimeExtDolSafeStart.toNat = 0x8175c900 := rfl
  have hlo : (0x81700000 : UInt32).toNat = 0x81700000 := rfl
  generalize hfst : headerFstSize <<< 2 = fstSize
  have hsize := fstSize.toNat_lt
  have hdest := toNat_fstDest fstSize
  have hlength := toNat_fstLength fstSize
  unfold placeFst
  rw [hfst]
  dsimp only
  split_ifs with hlow
  · rw [UInt32.lt_iff_toNat_lt, hlo, hdest] at hlow
    simp only [Option.mem_def, reduceCtorEq, false_implies, implies_true, true_iff]
    omega
  · rw [UInt32.lt_iff_toNat_lt, hlo] at hlow
    have hbi2 := toNat_bi2 (Nat.le_of_not_lt hlow)
    simp only [Option.mem_def, Option.some.injEq, forall_eq', Region.Within, Region.endAddr, hlength,
      hstart]
    rw [hdest] at hlow hbi2 ⊢
    omega

/-- **The guards are sound if and only if nothing wraps around** in what they let pass: the
end of a section of the runtime extension, the end of a section of the game, and the begin of
the FST. -/
theorem guards_sound_iff (sec : Region) (headerFstSize : UInt32) :
    ((ensureSectionInbounds sec = true →
        sec.Within rrcRuntimeExtDolSafeStart.toNat rrcRuntimeExtDolSafeEnd.toNat) ↔
      sec.endAddr < 2 ^ 32 ∨ sec.addr < rrcRuntimeExtDolSafeStart ∨
        2 ^ 32 + rrcRuntimeExtDolSafeEnd.toNat < sec.endAddr) ∧
    ((acceptsSection sec = true → sec.Within 0x80000000 0x90000000) ↔
      sec.endAddr < 2 ^ 32 ∨ sec.addr < 0x80000000 ∨ 2 ^ 32 + 0x90000000 < sec.endAddr) ∧
    ((∀ placed ∈ placeFst headerFstSize,
        placed.fst.Within 0x81700000 rrcRuntimeExtDolSafeStart.toNat ∧
          placed.bi2.endAddr ≤ placed.fst.addr.toNat) ↔
      (headerFstSize <<< 2).toNat ≤ rrcRuntimeExtDolSafeStart.toNat ∨
        2 ^ 32 - 32 < (headerFstSize <<< 2).toNat) :=
  ⟨ensureSectionInbounds_iff sec, acceptsSection_iff sec, placeFst_iff headerFstSize⟩

/-- A section of 4 GiB less 16 MiB passes both checks, and an FST of 4 GiB less 256 bytes is
put behind the begin of the runtime extension. -/
theorem guards_pass_wrapped :
    (¬ ∀ sec : Region, ensureSectionInbounds sec = true →
        sec.Within rrcRuntimeExtDolSafeStart.toNat rrcRuntimeExtDolSafeEnd.toNat) ∧
      (¬ ∀ sec : Region, acceptsSection sec = true → sec.Within 0x80000000 0x90000000) ∧
      ¬ ∀ headerFstSize : UInt32, ∀ placed ∈ placeFst headerFstSize,
        placed.fst.Within 0x81700000 rrcRuntimeExtDolSafeStart.toNat ∧
          placed.bi2.endAddr ≤ placed.fst.addr.toNat := by
  refine ⟨fun h => ?_, fun h => ?_, fun h => ?_⟩
  · exact absurd (h ⟨0x81760000, 0xFF000000⟩ (by decide)) (by decide)
  · exact absurd (h ⟨0x80004000, 0xFF000000⟩ (by decide)) (by decide)
  · exact absurd (h 0x3FFFFFC0 ⟨⟨0x8175ca00, 0xFFFFFF00⟩, ⟨0x8175aa00, 0x2000⟩⟩ (by decide)).1
      (by decide)

end RrLauncher
