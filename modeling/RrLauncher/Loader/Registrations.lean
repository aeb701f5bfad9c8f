/-
# What a parse leaves

What the walk over the document registers has a lowered disc path (`lowered_registrations`): those
of `<file>` elements are lowered at once, those of the files of a folder with the path of the
folder.  The SD files it puts into the table are closed (`closed_run`).  In MEM1 a parse writes
between the last and the first value of the pointer, as long as that does not wrap around and the
memory patches fit (`eqOn_run`, `eqOn_publish`).
-/

import RrLauncher.Lib.Memory.Frames
import RrLauncher.Loader.FolderPatch
import RrLauncher.Loader.SdFileCap

namespace RrLauncher

open CStr (lit)
open ByteReader (be32)
open Memory (Arena)

/-! ### Disc paths -/

/-- The disc path of a registration is in lower case. -/
def LoaderStep.Lowered (step : LoaderStep) : Prop :=
  ∀ r ∈ step.registration?, r.discPath.lower = r.discPath

/-- A registration whose disc path has no upper-case letters is a lowered step. -/
theorem LoaderStep.lowered_file {disc external : CStr} {checkExists : Bool}
    (h : disc.lower = disc) : (LoaderStep.file ⟨disc, external, checkExists⟩).Lowered := by
  rintro r ⟨rfl⟩
  exact h

/-- The path that the walk makes of an entry is in lower case already, however the name is spelled.
-/
theorem lower_entryPath (path name : CStr) : (entryPath path name).lower = entryPath path name := by
  rw [entryPath_eq, lower_lower]

mutual

/-- **The walk over a folder** registers lowered disc paths only, whatever the prefix and the names
are. -/
theorem lowered_folderPatch (discPath externalPath : CStr) (recursive : Bool) (dir : Dir) :
    ∀ step ∈ (rrcRiivoHandleFolderPatch discPath externalPath recursive dir).steps,
      step.Lowered := by
  intro step hstep
  match dir with
  | .failed errno =>
    rw [rrcRiivoHandleFolderPatch] at hstep
    cases hstep
  | .opened entries =>
    rw [rrcRiivoHandleFolderPatch] at hstep
    exact lowered_folderEntries discPath externalPath recursive entries step hstep

/-- All registrations that come of a list of entries have disc paths in lower case, to whatever
depth the walk goes. -/
theorem lowered_folderEntries (discPath externalPath : CStr) (recursive : Bool)
    (entries : List Dirent) :
    ∀ step ∈ (folderEntries discPath externalPath recursive entries).steps, step.Lowered := by
  intro step hstep
  match entries with
  | [] =>
    rw [folderEntries] at hstep
    cases hstep
  | entry :: rest =>
    rw [folderEntries] at hstep
    rcases Trace.mem_steps_seq hstep with hentry | hrest
    · exact lowered_folderEntry discPath externalPath recursive entry step hentry
    · exact lowered_folderEntries discPath externalPath recursive rest step hrest

/-- The same for a single entry: a file, or a folder that is walked in turn. -/
theorem lowered_folderEntry (discPath externalPath : CStr) (recursive : Bool) (entry : Dirent) :
    ∀ step ∈ (folderEntry discPath externalPath recursive entry).steps, step.Lowered := by
  intro step hstep
  match entry with
  | .reg name =>
    rw [folderEntry] at hstep
    split at hstep
    · cases hstep
    · obtain rfl := List.mem_singleton.mp hstep
      exact LoaderStep.lowered_file (lower_entryPath discPath name)
  | .dir name below =>
    rw [folderEntry] at hstep
    split at hstep
    · cases hstep
    split at hstep
    · exact lowered_folderPatch _ _ true below step hstep
    · cases hstep
  | .other name =>
    rw [folderEntry] at hstep
    cases hstep

end

/-- What is done where an attribute is required is done with the value of that attribute. -/
theorem mem_steps_parseRequiredAttr {element : XmlNode} {node attr : String} {rest : CStr → Walk}
    {step : LoaderStep} (h : step ∈ (parseRequiredAttr element node attr rest).steps) :
    ∃ value, step ∈ (rest value).steps := by
  rw [parseRequiredAttr] at h
  split at h
  · cases h
  · exact ⟨_, h⟩

/-- **An element** registers lowered disc paths only: a file lowers its own, and a folder those of
the files below it. -/
theorem Visit.lowered (opendir : CStr → Dir) (v : Visit) :
    ∀ step ∈ (v.run opendir).steps, step.Lowered := by
  intro step hstep
  cases v with
  | nameless element => cases hstep
  | file element =>
    obtain ⟨disc, hstep⟩ := mem_steps_parseRequiredAttr hstep
    obtain ⟨external, hstep⟩ := mem_steps_parseRequiredAttr hstep
    obtain rfl := List.mem_singleton.mp hstep
    exact LoaderStep.lowered_file (lower_lower disc)
  | folder element =>
    obtain ⟨external, hstep⟩ := mem_steps_parseRequiredAttr hstep
    exact lowered_folderPatch _ _ _ _ step hstep
  | memory element =>
    obtain ⟨offset, hstep⟩ := mem_steps_parseRequiredAttr hstep
    have hnone : step.registration? = none := by
      split at hstep
      · split at hstep
        · obtain rfl := List.mem_singleton.mp hstep
          rfl
        · cases hstep
      · obtain ⟨value, hstep⟩ := mem_steps_parseRequiredAttr hstep
        obtain rfl := List.mem_singleton.mp hstep
        rfl
    intro r hr
    rw [hnone] at hr
    cases hr

/-- **The document** registers lowered disc paths only, which is what the runtime relies on when it
compares lowered paths. -/
theorem lowered_registrations (src : PatchSource) (settings : RrcSettingsfile) :
    ∀ r ∈ src.registrations settings, r.discPath.lower = r.discPath := by
  have hsteps : ∀ step ∈ (src.documentWalk settings).steps, step.Lowered := by
    unfold PatchSource.documentWalk
    cases src.xml with
    | error errno => exact nofun
    | ok xmlTop =>
      dsimp only
      cases activePatches src.findFirst (src.optionsIndex xmlTop) settings with
      | error stop => exact nofun
      | ok patches =>
        cases xmlTop with
        | none => exact nofun
        | some xmlTop =>
          intro step hstep
          have hvisit :
              step ∈ (parsePatches src.opendir src.findFirst src.index patches xmlTop).steps := hstep
          rw [steps_parsePatches, List.mem_flatMap] at hvisit
          obtain ⟨v, -, hv⟩ := hvisit
          exact v.lowered src.opendir step hv
  intro r hr
  obtain ⟨step, hstep, hreg⟩ := List.mem_filterMap.mp hr
  exact hsteps step hstep r hreg

namespace Mem1

/-! ### SD files -/

/-- Registering a replacement adds no file: it points to one that the table has already. -/
theorem sdFiles_registerReplacement (s : LoaderState) (discPath : CStr) (entrynum : ℕ) :
    (registerReplacement s discPath entrynum).sdFiles = s.sdFiles := by
  unfold registerReplacement
  dsimp only
  split <;> rfl

/-- A step adds a closed SD file or none, and does not open those that are there. -/
theorem closed_perform {onCard : CStr → Bool} {s : LoaderState} (h : ∀ f ∈ s.sdFiles, f.fileInfo = 0)
    (step : LoaderStep) : ∀ f ∈ (perform onCard s step).sdFiles, f.fileInfo = 0 := by
  cases step with
  | loaderPul dest => exact h
  | memory patch => exact h
  | file r =>
    rw [perform, rrcRiivoHandleFilePatch]
    split
    · exact h
    split
    · exact h
    split
    · rwa [sdFiles_registerReplacement]
    split
    · exact h
    rw [sdFiles_registerReplacement]
    refine List.forall_mem_append.mpr ⟨h, fun f hf => ?_⟩
    rw [List.mem_singleton.mp hf]

/-- **The SD files of a run** are closed, so the runtime starts with no slot in use. -/
theorem closed_run (onCard : CStr → Bool) (mem : Memory) (mem1 : UInt32) (steps : List LoaderStep) :
    ∀ f ∈ (run onCard (start mem mem1) steps).sdFiles, f.fileInfo = 0 := by
  induction steps using List.reverseRecOn with
  | nil => exact nofun
  | append_singleton steps step ih =>
    rw [run_append_singleton]
    exact closed_perform ih step

/-! ### MEM1 -/

/-- **A string** is written between the pointer behind it and that before it. -/
theorem eqOn_bumpAllocString {arena : Arena} {src : CStr}
    (hfits : (bumpAllocString arena src).1.Fits) :
    (bumpAllocString arena src).1.top.toNat ≤ arena.top.toNat ∧
      Set.EqOn (bumpAllocString arena src).1.mem arena.mem
        (Memory.outside (bumpAllocString arena src).1.top.toNat arena.top.toNat) := by
  have hroom : src.len + 1 ≤ arena.top.toNat :=
    hfits _ (List.mem_append_right _ (List.mem_singleton_self _))
  have hdest : (arena.top - (UInt32.ofNat src.len + 1)).toNat = arena.top.toNat - (src.len + 1) := by
    rw [show UInt32.ofNat src.len + 1 = UInt32.ofNat (src.len + 1) from (UInt32.ofNat_add _ _).symm]
    exact Memory.toNat_below hroom
  have hlen : (src.bytes ++ [0]).length = src.len + 1 := by
    rw [List.length_append, List.length_singleton, CStr.len]
  rw [bumpAllocString]
  dsimp only
  exact ⟨by omega,
    Memory.eqOn_write_outside arena.mem (Nat.le_refl _) (by omega) arena.top.toNat_lt.le⟩

/-- Strings in turn change the memory between the new and the old pointer, and nothing else. -/
theorem eqOn_bumpAllocStrings {arena : Arena} {srcs : List CStr}
    (hfits : (bumpAllocStrings arena srcs).Fits) :
    (bumpAllocStrings arena srcs).top.toNat ≤ arena.top.toNat ∧
      Set.EqOn (bumpAllocStrings arena srcs).mem arena.mem
        (Memory.outside (bumpAllocStrings arena srcs).top.toNat arena.top.toNat) := by
  induction srcs generalizing arena with
  | nil => exact ⟨Nat.le_refl _, Set.eqOn_refl _ _⟩
  | cons src rest ih =>
    obtain ⟨strings, hgrow, -⟩ := grows_bumpAllocStrings (bumpAllocString arena src).1 rest
    obtain ⟨hle, heq⟩ := eqOn_bumpAllocString (hfits.of_prefix ⟨strings, hgrow.symm⟩)
    obtain ⟨hle', heq'⟩ := ih hfits
    exact ⟨hle'.trans hle, (heq'.mono (Memory.outside_subset (Nat.le_refl _) hle)).trans
      (heq.mono (Memory.outside_subset hle' (Nat.le_refl _)))⟩

/-- **A memory patch** is written to its entry, and nothing else in memory is changed. -/
theorem eqOn_pushMemoryPatch {s : LoaderState} (patch : RrcRiivoMemoryPatch)
    (hroom : s.memPatches.toNat + sizeofMemoryPatch * (s.memPatchesCount + 1) ≤ 2 ^ 32) :
    Set.EqOn (pushMemoryPatch s patch).arena.mem s.arena.mem
      (Memory.outside (s.memPatches.toNat + sizeofMemoryPatch * s.memPatchesCount)
        (s.memPatches.toNat + sizeofMemoryPatch * (s.memPatchesCount + 1))) := by
  unfold sizeofMemoryPatch at hroom
  have hdist : (s.memPatches + UInt32.ofNat (16 * s.memPatchesCount)).toNat =
      s.memPatches.toNat + 16 * s.memPatchesCount := Memory.toNat_behind (by omega)
  unfold pushMemoryPatch sizeofMemoryPatch
  generalize s.memPatches + UInt32.ofNat (16 * s.memPatchesCount) = dist at hdist ⊢
  rw [← hdist, show s.memPatches.toNat + 16 * (s.memPatchesCount + 1) = dist.toNat + 16 by omega]
  have hend : dist.toNat + 16 ≤ 2 ^ 32 := by omega
  have hfield : ∀ (mem : Memory) (n : ℕ) (bytes : List UInt8), n + bytes.length ≤ 16 → n < 16 →
      Set.EqOn (mem.write (dist + UInt32.ofNat n) bytes) mem
        (Memory.outside dist.toNat (dist.toNat + 16)) := by
    intro mem n bytes hn hlt
    have haddr : (dist + UInt32.ofNat n).toNat = dist.toNat + n := Memory.toNat_behind (by omega)
    exact Memory.eqOn_write_outside mem (by omega) (by omega) hend
  have haddr : ∀ mem : Memory, Set.EqOn (mem.write dist (be32 patch.addr)) mem
      (Memory.outside dist.toNat (dist.toNat + 16)) := fun mem =>
    Memory.eqOn_write_outside mem (Nat.le_refl _)
      (show dist.toNat + 4 ≤ dist.toNat + 16 by omega) hend
  have hinit := (hfield _ 12 [0] (by decide) (by omega)).trans
    ((hfield _ 4 (be32 patch.value) (show 4 + 4 ≤ 16 by omega) (by omega)).trans
      (haddr s.arena.mem))
  cases patch.original with
  | none => exact hinit
  | some original =>
    exact (hfield _ 12 [1] (by decide) (by omega)).trans
      ((hfield _ 8 (be32 original) (show 8 + 4 ≤ 16 by omega) (by omega)).trans hinit)

/-- **A step** writes between the pointer behind it and the end of the memory patches. -/
theorem eqOn_perform {onCard : CStr → Bool} {s : LoaderState} {step : LoaderStep} {hi : ℕ}
    (hfits : (perform onCard s step).arena.Fits) (htop : s.arena.top.toNat ≤ s.memPatches.toNat)
    (hroom : s.memPatches.toNat + sizeofMemoryPatch * (perform onCard s step).memPatchesCount ≤ hi)
    (hhi : hi ≤ 2 ^ 32) :
    (perform onCard s step).arena.top.toNat ≤ s.arena.top.toNat ∧
      Set.EqOn (perform onCard s step).arena.mem s.arena.mem
        (Memory.outside (perform onCard s step).arena.top.toNat hi) := by
  cases step with
  | loaderPul dest => exact ⟨Nat.le_refl _, Set.eqOn_refl _ _⟩
  | memory patch =>
    refine ⟨Nat.le_refl _, (eqOn_pushMemoryPatch patch (hroom.trans hhi)).mono ?_⟩
    exact Memory.outside_subset (htop.trans (Nat.le_add_right _ _)) hroom
  | file r =>
    obtain ⟨-, srcs, harena⟩ := handleFilePatch_arena onCard s r
    rw [perform, harena] at hfits ⊢
    obtain ⟨hle, heq⟩ := eqOn_bumpAllocStrings hfits
    refine ⟨hle, heq.mono (Memory.outside_subset (Nat.le_refl _) ?_)⟩
    exact htop.trans ((Nat.le_add_right _ _).trans hroom)

/-- The array for the memory patches ends where MEM1 does. -/
theorem end_memPatches (onCard : CStr → Bool) (mem : Memory) (mem1 : UInt32) {steps : List LoaderStep}
    (hfits : (run onCard (start mem mem1) steps).arena.Fits) :
    (start mem mem1).memPatches.toNat + sizeofMemoryPatch * maxMemoryPatches = mem1.toNat := by
  have hfirst : sizeofMemoryPatch * maxMemoryPatches ≤ mem1.toNat := by
    obtain ⟨strings, -, hgrow⟩ := grows_run onCard mem mem1 steps
    refine hfits ⟨mem1, ⟨(start mem mem1).memPatches, _⟩, none⟩ ?_
    rw [hgrow]
    exact List.mem_append_left _ List.mem_cons_self
  have hbelow := Memory.toNat_below hfirst
  rw [start]
  dsimp only
  omega

/-- **A run** writes between the last and the first value of the pointer. -/
theorem eqOn_run (onCard : CStr → Bool) (mem : Memory) (mem1 : UInt32) {steps : List LoaderStep}
    (hfits : (run onCard (start mem mem1) steps).arena.Fits)
    (hpatches : steps.countP LoaderStep.isMemory ≤ maxMemoryPatches) :
    (run onCard (start mem mem1) steps).arena.top.toNat ≤ (start mem mem1).memPatches.toNat ∧
      Set.EqOn (run onCard (start mem mem1) steps).arena.mem mem
        (Memory.outside (run onCard (start mem mem1) steps).arena.top.toNat mem1.toNat) := by
  induction steps using List.reverseRecOn with
  | nil => exact ⟨Nat.le_refl _, Set.eqOn_refl _ _⟩
  | append_singleton steps step ih =>
    have hroom := room_start onCard mem mem1 hfits hpatches
    have hend := end_memPatches onCard mem mem1 hfits
    obtain ⟨hbase, hfits₁, -, -⟩ := room_of_append onCard mem mem1 hfits hroom
    have hcount := congrArg (fun part => part.2.1) (run_memoryPart onCard mem mem1 (steps ++ [step]))
    dsimp only [LoaderState.memoryPart] at hcount
    rw [run_append_singleton] at hcount hfits ⊢
    have hsteps : steps.countP LoaderStep.isMemory ≤ maxMemoryPatches := by
      rw [List.countP_append] at hpatches
      omega
    obtain ⟨hle, heq⟩ := ih hfits₁ hsteps
    rw [← hbase] at hend hle
    obtain ⟨hle', heq'⟩ := eqOn_perform hfits hle
      (show _ ≤ mem1.toNat by
        rw [hcount, ← hend]
        exact Nat.add_le_add_left (Nat.mul_le_mul_left _ hpatches) _) mem1.toNat_lt.le
    refine ⟨hbase ▸ hle'.trans hle, heq'.trans (heq.mono ?_)⟩
    exact Memory.outside_subset hle' (Nat.le_refl _)

/-- **An array** is written between the pointer behind it and that before it. -/
theorem eqOn_allocArray {arena : Arena} {sizeof : ℕ} {elements : List (List UInt8)}
    (hsizeof : ∀ e ∈ elements, e.length = sizeof) (hfits : (allocArray arena sizeof elements).1.Fits) :
    (allocArray arena sizeof elements).1.top.toNat ≤ arena.top.toNat ∧
      Set.EqOn (allocArray arena sizeof elements).1.mem arena.mem
        (Memory.outside (allocArray arena sizeof elements).1.top.toNat arena.top.toNat) := by
  have hroom : sizeof * elements.length ≤ arena.top.toNat :=
    hfits _ (List.mem_append_right _ (List.mem_singleton_self _))
  have hlen := length_flatten hsizeof
  have hdest : (alignDown (arena.top - UInt32.ofNat (sizeof * elements.length))
      (UInt32.ofNat (2 ^ 2))).toNat = (arena.top.toNat - sizeof * elements.length) / 2 ^ 2 * 2 ^ 2 := by
    rw [toNat_alignDown _ (by decide), Memory.toNat_below hroom]
  rw [allocArray]
  dsimp only
  exact ⟨by omega,
    Memory.eqOn_write_outside arena.mem (Nat.le_refl _) (by omega) arena.top.toNat_lt.le⟩

/-- **The end of a parse** writes between the two values of the pointer. -/
theorem eqOn_publish {qsort : List FileReplacement → List FileReplacement} {s s' : LoaderState}
    {disc : RrcRiivoDisc} (h : publish qsort s = some (s', disc)) (hfits : s'.arena.Fits) :
    s'.arena.top.toNat ≤ s.arena.top.toNat ∧
      Set.EqOn s'.arena.mem s.arena.mem
        (Memory.outside s'.arena.top.toNat s.arena.top.toNat) := by
  obtain ⟨sd, rep, fil, rfl, rfl, rfl, rfl, -⟩ := publish_some h
  have hrepFits := hfits.of_prefix (List.prefix_append _ _)
  have hsdFits := hrepFits.of_prefix (List.prefix_append _ _)
  have hlen : ∀ l : List FileReplacement, ∀ e ∈ l.map FileReplacement.bytes,
      e.length = sizeofFileReplacement := fun l =>
    List.forall_mem_map.mpr fun r _ => length_fileReplacement_bytes r
  obtain ⟨hsdLe, hsd⟩ := eqOn_allocArray
    (List.forall_mem_map.mpr fun f (_ : f ∈ s.sdFiles) => length_sdFile_bytes f) hsdFits
  obtain ⟨hrepLe, hrep⟩ := eqOn_allocArray (hlen _) hrepFits
  obtain ⟨hfilLe, hfil⟩ := eqOn_allocArray (hlen _) hfits
  refine ⟨hfilLe.trans (hrepLe.trans hsdLe), ?_⟩
  refine (hfil.mono ?_).trans ((hrep.mono ?_).trans (hsd.mono ?_))
  · exact Memory.outside_subset (Nat.le_refl _) (hrepLe.trans hsdLe)
  · exact Memory.outside_subset hfilLe hsdLe
  · exact Memory.outside_subset (hfilLe.trans hrepLe) (Nat.le_refl _)

end Mem1

end RrLauncher
