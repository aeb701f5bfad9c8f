/-
# The entries of the memory patches

`patch_dol` reads the patches back from the array that the parse wrote.  An entry that is written
says what the patch says (`patchAt_pushMemoryPatch`), what is written later leaves it alone, and so
the array says what the document says, in its order (`patchList_published`).
-/

import RrLauncher.Loader.GameDolLoader
import RrLauncher.Loader.Published
import RrLauncher.Loader.Registrations

namespace RrLauncher

open ByteReader (be32)
open Memory (InRange)

/-- The memory patch that a step is. -/
def LoaderStep.patch? : LoaderStep → Option RrcRiivoMemoryPatch
  | .memory patch => some patch
  | _ => none

/-- The memory patches of the document, in order. -/
def PatchSource.memoryPatches (src : PatchSource) (settings : RrcSettingsfile) :
    List RrcRiivoMemoryPatch :=
  (src.documentWalk settings).steps.filterMap (·.patch?)

/-- One more patch in the count is one more patch at the end of the list. -/
theorem patchList_succ (mem : Memory) (memPatches : UInt32) (n : ℕ) :
    patchList mem memPatches (n + 1) = patchList mem memPatches n ++ [patchAt mem memPatches n] := by
  rw [patchList, patchList, List.range_succ, List.map_append, List.map_singleton]

/-- A list is read back from any memory that has the entries. -/
theorem patchList_eqOn {mem mem' : Memory} {memPatches : UInt32} {n lo hi : ℕ}
    (heq : Set.EqOn mem' mem (Memory.outside lo hi))
    (hapart : hi ≤ memPatches.toNat ∨ memPatches.toNat + sizeofMemoryPatch * n ≤ lo)
    (hroom : memPatches.toNat + sizeofMemoryPatch * n ≤ 2 ^ 32) :
    patchList mem' memPatches n = patchList mem memPatches n := by
  refine List.map_congr_left fun i hi' => patchAt_congr fun a ha => heq ?_
  have hlt := List.mem_range.mp hi'
  have haddr : (memPatchAddr memPatches i).toNat = memPatches.toNat + sizeofMemoryPatch * i :=
    Memory.toNat_behind (by rw [sizeofMemoryPatch] at hroom ⊢; omega)
  rw [sizeofMemoryPatch] at *
  have hbounds := Memory.bounds_of_inRange ha (by omega)
  rcases hapart with hle | hle
  · exact Or.inr (by omega)
  · exact Or.inl (by omega)

namespace Mem1

/-- A byte that is written is read back. -/
theorem write_byte (mem : Memory) (p : UInt32) (b : UInt8) : mem.write p [b] p = b := by
  rw [Memory.write, UInt32.sub_self]
  rfl

section Entry

variable (mem : Memory) {entry : UInt32} (hentry : entry.toNat + 16 ≤ 2 ^ 32)

include hentry

/-- The fields of an entry lie behind its start without a wrap, as the entry ends in memory. -/
theorem toNat_entry : (entry + 4).toNat = entry.toNat + 4 ∧ (entry + 8).toNat = entry.toNat + 8 ∧
    (entry + 12).toNat = entry.toNat + 12 := by
  have hbehind : ∀ k : ℕ, k < 16 → (entry + UInt32.ofNat k).toNat = entry.toNat + k := fun k hk =>
    Memory.toNat_behind (by omega)
  exact ⟨hbehind 4 (by omega), hbehind 8 (by omega), hbehind 12 (by omega)⟩

/-- What is written for every patch: its address, its value, and the flag that says whether it has
an original value, which is off to begin with. -/
theorem entry_words (addr value : UInt32) :
    let written := ((mem.write entry (be32 addr)).write (entry + 4) (be32 value)).write (entry + 12) [0]
    written.word entry = addr ∧ written.word (entry + 4) = value ∧ written (entry + 12) = 0 := by
  obtain ⟨hvalue, -, hinit⟩ := toNat_entry hentry
  refine ⟨?_, ?_, write_byte _ _ _⟩
  · exact (word_write_apart _ 1 rfl (by omega)).trans
      ((word_write_apart _ 4 rfl (by omega)).trans (word_write _ _ _))
  · exact (word_write_apart _ 1 rfl (by omega)).trans (word_write _ _ _)

/-- What is written for a patch with an original value: that value, and the flag that says so,
behind the two words that every patch has. -/
theorem original_words (original : UInt32) :
    let written := (mem.write (entry + 8) (be32 original)).write (entry + 12) [1]
    written.word entry = mem.word entry ∧ written.word (entry + 4) = mem.word (entry + 4) ∧
      written.word (entry + 8) = original ∧ written (entry + 12) = 1 := by
  obtain ⟨hvalue, horiginal, hinit⟩ := toNat_entry hentry
  refine ⟨?_, ?_, ?_, write_byte _ _ _⟩
  · exact (word_write_apart _ 1 rfl (by omega)).trans (word_write_apart _ 4 rfl (by omega))
  · exact (word_write_apart _ 1 rfl (by omega)).trans (word_write_apart _ 4 rfl (by omega))
  · exact (word_write_apart _ 1 rfl (by omega)).trans (word_write _ _ _)

end Entry

/-- **An entry is read back** as the patch that was written. -/
theorem patchAt_pushMemoryPatch {s : LoaderState} (patch : RrcRiivoMemoryPatch)
    (hroom : s.memPatches.toNat + sizeofMemoryPatch * (s.memPatchesCount + 1) ≤ 2 ^ 32) :
    patchAt (pushMemoryPatch s patch).arena.mem s.memPatches s.memPatchesCount = patch := by
  obtain ⟨addr, value, original⟩ := patch
  have hentry : (memPatchAddr s.memPatches s.memPatchesCount).toNat + 16 ≤ 2 ^ 32 := by
    have haddr : (memPatchAddr s.memPatches s.memPatchesCount).toNat =
        s.memPatches.toNat + sizeofMemoryPatch * s.memPatchesCount :=
      Memory.toNat_behind (by rw [sizeofMemoryPatch] at hroom ⊢; omega)
    rw [sizeofMemoryPatch] at hroom haddr
    omega
  obtain ⟨haddr, hvalue, hinit⟩ := entry_words s.arena.mem hentry addr value
  cases original with
  | none =>
    show RrcRiivoMemoryPatch.mk _ _ _ = _
    exact congr (congr (congrArg _ haddr) hvalue) (if_pos hinit)
  | some original =>
    obtain ⟨haddr', hvalue', horiginal, hinit'⟩ := original_words
      (((s.arena.mem.write (memPatchAddr s.memPatches s.memPatchesCount) (be32 addr)).write
        (memPatchAddr s.memPatches s.memPatchesCount + 4) (be32 value)).write
          (memPatchAddr s.memPatches s.memPatchesCount + 12) [0]) hentry original
    have hnot : ¬ (pushMemoryPatch s ⟨addr, value, some original⟩).arena.mem
        (memPatchAddr s.memPatches s.memPatchesCount + 12) = 0 := by
      intro hzero
      exact absurd (hinit'.symm.trans hzero) (by decide)
    show RrcRiivoMemoryPatch.mk _ _ _ = _
    exact congr (congr (congrArg _ (haddr'.trans haddr)) (hvalue'.trans hvalue))
      ((if_neg hnot).trans (congrArg some horiginal))

/-! ### The array -/

/-- **A step** adds its patch to the list, if it has one, and leaves the entries before it as they
are. -/
theorem patchList_perform {onCard : CStr → Bool} {s : LoaderState} {step : LoaderStep}
    (hfits : (perform onCard s step).arena.Fits) (htop : s.arena.top.toNat ≤ s.memPatches.toNat)
    (hroom : s.memPatches.toNat + sizeofMemoryPatch * (perform onCard s step).memPatchesCount ≤ 2 ^ 32) :
    patchList (perform onCard s step).arena.mem s.memPatches (perform onCard s step).memPatchesCount =
      patchList s.arena.mem s.memPatches s.memPatchesCount ++ step.patch?.toList := by
  cases step with
  | loaderPul dest => exact (List.append_nil _).symm
  | memory patch =>
    have hprev : s.memPatches.toNat + sizeofMemoryPatch * s.memPatchesCount ≤ 2 ^ 32 := by
      have hnext : s.memPatches.toNat + sizeofMemoryPatch * (s.memPatchesCount + 1) ≤ 2 ^ 32 := hroom
      rw [sizeofMemoryPatch] at hnext ⊢
      omega
    show patchList (pushMemoryPatch s patch).arena.mem s.memPatches (s.memPatchesCount + 1) =
      _ ++ [patch]
    rw [patchList_succ, patchAt_pushMemoryPatch patch hroom,
      patchList_eqOn (eqOn_pushMemoryPatch patch hroom) (Or.inr (Nat.le_refl _)) hprev]
  | file r =>
    obtain ⟨hpart, srcs, harena⟩ := handleFilePatch_arena onCard s r
    have hcount : (perform onCard s (.file r)).memPatchesCount = s.memPatchesCount :=
      congrArg (fun part => part.2.1) hpart
    rw [hcount] at hroom ⊢
    rw [perform, harena] at hfits ⊢
    obtain ⟨-, heq⟩ := eqOn_bumpAllocStrings hfits
    exact (patchList_eqOn heq (Or.inl htop) hroom).trans (List.append_nil _).symm

/-- **A run** leaves the list of its patches, in order, if there are no more than the array has
entries. -/
theorem patchList_run (onCard : CStr → Bool) (mem : Memory) (mem1 : UInt32) {steps : List LoaderStep}
    (hfits : (run onCard (start mem mem1) steps).arena.Fits)
    (hpatches : steps.countP LoaderStep.isMemory ≤ maxMemoryPatches) :
    patchList (run onCard (start mem mem1) steps).arena.mem (start mem mem1).memPatches
      (run onCard (start mem mem1) steps).memPatchesCount = steps.filterMap (·.patch?) := by
  induction steps using List.reverseRecOn with
  | nil => rfl
  | append_singleton steps step ih =>
    have hroom := room_start onCard mem mem1 hfits hpatches
    obtain ⟨hbase, hfits₁, -, hroom₁⟩ := room_of_append onCard mem mem1 hfits hroom
    have hsteps : steps.countP LoaderStep.isMemory ≤ maxMemoryPatches := by
      rw [List.countP_append] at hpatches
      omega
    have htop := (eqOn_run onCard mem mem1 hfits₁ hsteps).1
    rw [← hbase] at htop
    rw [run_append_singleton] at hfits ⊢
    rw [← hbase, patchList_perform hfits htop hroom₁, hbase, ih hfits₁ hsteps, List.filterMap_append]
    cases step with
    | file r => rfl
    | loaderPul dest => rfl
    | memory patch => rfl

end Mem1

/-- **The array says what the document says**, where a parse published its tables. -/
theorem patchList_published {src : PatchSource} {settings : RrcSettingsfile} {mem : Memory}
    {mem1 : UInt32} {qsort : List Mem1.FileReplacement → List Mem1.FileReplacement}
    {s : Mem1.LoaderState} {disc : Mem1.RrcRiivoDisc}
    (hpublish : Mem1.publish qsort
      (Mem1.run src.onCard (Mem1.start mem mem1) (src.documentWalk settings).steps) = some (s, disc))
    (hfits : s.arena.Fits) (hneeded : src.entriesNeeded settings ≤ maxMemoryPatches) :
    patchList s.arena.mem s.memPatches s.memPatchesCount = src.memoryPatches settings := by
  have hprev := hfits.of_prefix (Mem1.grows_publish hpublish)
  have hpatches := (countP_isMemory_documentWalk src settings).le.trans hneeded
  obtain ⟨-, heq⟩ := Mem1.eqOn_publish hpublish hfits
  obtain ⟨htop, -⟩ := Mem1.eqOn_run src.onCard mem mem1 hprev hpatches
  have hroom := room_start src.onCard mem mem1 hprev hneeded
  have hpart := Mem1.run_memoryPart src.onCard mem mem1 (src.documentWalk settings).steps
  rw [countP_isMemory_documentWalk] at hpart
  have hlist := Mem1.patchList_run src.onCard mem mem1 hprev hpatches
  have hbase : (Mem1.run src.onCard (Mem1.start mem mem1) (src.documentWalk settings).steps).memPatches =
      (Mem1.start mem mem1).memPatches := congrArg Prod.fst hpart
  have hcount : (Mem1.run src.onCard (Mem1.start mem mem1)
      (src.documentWalk settings).steps).memPatchesCount = src.entriesNeeded settings :=
    congrArg (fun part => part.2.1) hpart
  have hkept : s.memPatches = (Mem1.start mem mem1).memPatches ∧
      s.memPatchesCount = (Mem1.run src.onCard (Mem1.start mem mem1)
        (src.documentWalk settings).steps).memPatchesCount := by
    obtain ⟨sd, rep, fil, -, -, -, rfl, -⟩ := Mem1.publish_some hpublish
    exact ⟨hbase, rfl⟩
  rw [hkept.1, hkept.2, patchList_eqOn heq (Or.inl htop) (by rw [hcount]; exact hroom), hlist]
  rfl

end RrLauncher
