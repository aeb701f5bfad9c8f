/-
# The tables behind the pointers

The vectors of the patch loader hold pointers into MEM1.  Where the pointer of the arena
does not wrap around, reading the strings behind them gives the tables that
`Loader.FilePatch` is about: each registration does to the vectors what it does to those
tables (`tables_run`).
-/

import RrLauncher.Loader.Mem1Arena

namespace RrLauncher

open Memory (Arena)

namespace Mem1

/-- An SD file, with its path. -/
def SdFile.read (mem : Memory) (f : SdFile) : RrcRiivoSdFile := ⟨mem.cstring f.path, none⟩

/-- A replacement, with its disc path. -/
def FileReplacement.read (mem : Memory) (r : FileReplacement) : RrcRiivoFileReplacement :=
  { disc := mem.cstring r.disc, hash := r.hash, entrynum := r.entrynum }

/-- **The tables** that the vectors stand for. -/
def LoaderState.tables (s : LoaderState) : PatchTables :=
  { sdFiles := s.sdFiles.map (SdFile.read s.arena.mem)
    replacements := s.replacements.map (FileReplacement.read s.arena.mem)
    filenameReplacements := s.filenameReplacements.map (FileReplacement.read s.arena.mem)
    mem1 := s.arena.top
    mainDolPath := s.mainDolPath }

/-- A string was handed out at `p`. -/
def Readable (arena : Arena) (p : UInt32) : Prop := ∃ src, arena.HasString p src

/-- Every pointer of the vectors is one to a string. -/
structure Pointers (s : LoaderState) : Prop where
  sdFiles : ∀ f ∈ s.sdFiles, Readable s.arena f.path
  replacements : ∀ r ∈ s.replacements, Readable s.arena r.disc
  filenameReplacements : ∀ r ∈ s.filenameReplacements, Readable s.arena r.disc

/-- A path that can be read from the arena can still be read when more was allocated behind it. -/
theorem Readable.mono {arena arena' : Arena} {p : UInt32} (h : Readable arena p)
    (hgrow : arena.allocations <+: arena'.allocations) : Readable arena' p := by
  obtain ⟨src, hsrc⟩ := h
  exact ⟨src, hsrc.mono hgrow⟩

/-- The tables still point to strings when more was allocated and the tables stay as they are. -/
theorem Pointers.mono {s s' : LoaderState} (h : Pointers s)
    (hgrow : s.arena.allocations <+: s'.arena.allocations) (hsd : s'.sdFiles = s.sdFiles)
    (hrep : s'.replacements = s.replacements)
    (hfil : s'.filenameReplacements = s.filenameReplacements) : Pointers s' :=
  ⟨fun f hf => (h.sdFiles f (hsd ▸ hf)).mono hgrow,
    fun r hr => (h.replacements r (hrep ▸ hr)).mono hgrow,
    fun r hr => (h.filenameReplacements r (hfil ▸ hr)).mono hgrow⟩

section Grows

variable {mem1 memPatches : UInt32} {arena arena' : Arena} (h : Inv mem1 memPatches arena)
  (h' : Inv mem1 memPatches arena') (hgrow : arena.allocations <+: arena'.allocations)

include h h' hgrow

/-- **A string stays** where it is: read at a later time from the same address it is the same, as
nothing is ever moved or overwritten in the arena. -/
theorem cstring_of_grows {p : UInt32} (hp : Readable arena p) :
    arena'.mem.cstring p = arena.mem.cstring p := by
  obtain ⟨src, hsrc⟩ := hp
  rw [h.carved.cstring_eq mem1.toNat_lt.le hsrc,
    h'.carved.cstring_eq mem1.toNat_lt.le (hsrc.mono hgrow)]

/-- The files of the card are read as the same from an arena in which more was allocated. -/
theorem read_sdFiles_of_grows {l : List SdFile} (hl : ∀ f ∈ l, Readable arena f.path) :
    l.map (SdFile.read arena'.mem) = l.map (SdFile.read arena.mem) := by
  refine List.map_congr_left fun f hf => ?_
  rw [SdFile.read, SdFile.read, cstring_of_grows h h' hgrow (hl f hf)]

/-- The replacements are read as the same from an arena in which more was allocated. -/
theorem read_replacements_of_grows {l : List FileReplacement}
    (hl : ∀ r ∈ l, Readable arena r.disc) :
    l.map (FileReplacement.read arena'.mem) = l.map (FileReplacement.read arena.mem) := by
  refine List.map_congr_left fun r hr => ?_
  rw [FileReplacement.read, FileReplacement.read, cstring_of_grows h h' hgrow (hl r hr)]

end Grows

/-- Removing by reading the strings is removing from the table that is read. -/
theorem read_removeReplacement (mem : Memory) (l : List FileReplacement) (e : FileReplacement) :
    (rrcRiivoRemoveReplacement mem l e ++ [e]).map (FileReplacement.read mem) =
      RrLauncher.rrcRiivoRemoveReplacement (l.map (FileReplacement.read mem)) (e.read mem) ++
        [e.read mem] := by
  rw [List.map_append, RrLauncher.rrcRiivoRemoveReplacement, ← KeyedTable.removeFirst_map]
  rfl

/-- The paths of a table can all be read behind an override: those of the remaining entries could be
before, and that of the new one is given to be so. -/
theorem readable_removeReplacement {arena : Arena} {mem : Memory} {l : List FileReplacement}
    {e : FileReplacement} (hl : ∀ r ∈ l, Readable arena r.disc) (he : Readable arena e.disc) :
    ∀ r ∈ rrcRiivoRemoveReplacement mem l e ++ [e], Readable arena r.disc := by
  intro r hr
  rcases List.mem_append.mp hr with hold | hnew
  · exact hl r (List.mem_of_mem_eraseP ((KeyedTable.removeFirst_perm _ l).mem_iff.mp hold))
  · obtain rfl := List.mem_singleton.mp hnew
    exact he

/-- **Registering a replacement** does to the tables what it does to the vectors. -/
theorem tables_registerReplacement {mem1 : UInt32} {s : LoaderState}
    (h : Inv mem1 s.memPatches s.arena) (hptr : Pointers s) (discPath : CStr) (entrynum : ℕ)
    (hfits : (registerReplacement s discPath entrynum).arena.Fits) :
    (registerReplacement s discPath entrynum).tables =
        RrLauncher.registerReplacement s.tables discPath entrynum ∧
      Pointers (registerReplacement s discPath entrynum) := by
  rw [registerReplacement_arena] at hfits
  have hgrow := grows_bumpAllocString s.arena (skipSlash discPath)
  have hnew := hasString_bumpAllocString s.arena (skipSlash discPath)
  have h' := h.bumpAllocString hfits
  have hdisc := h'.carved.cstring_eq mem1.toNat_lt.le hnew
  have hsd := read_sdFiles_of_grows h h' hgrow hptr.sdFiles
  have hrep := read_replacements_of_grows h h' hgrow hptr.replacements
  have hfil := read_replacements_of_grows h h' hgrow hptr.filenameReplacements
  have hsd' := fun f hf => (hptr.sdFiles f hf).mono hgrow
  have hrep' := fun r hr => (hptr.replacements r hr).mono hgrow
  have hfil' := fun r hr => (hptr.filenameReplacements r hr).mono hgrow
  unfold registerReplacement RrLauncher.registerReplacement
  dsimp only
  split
  · refine ⟨?_, hsd', hrep', readable_removeReplacement hfil' ⟨_, hnew⟩⟩
    unfold LoaderState.tables
    dsimp only
    rw [hsd, hrep, read_removeReplacement, hfil, FileReplacement.read, hdisc]
    rfl
  · refine ⟨?_, hsd', readable_removeReplacement hrep' ⟨_, hnew⟩, hfil'⟩
    unfold LoaderState.tables
    dsimp only
    rw [hsd, hfil, read_removeReplacement, hrep, FileReplacement.read, hdisc]
    rfl

/-- **A registration** does to the tables what it does to the vectors. -/
theorem tables_handleFilePatch {mem1 : UInt32} {s : LoaderState}
    (h : Inv mem1 s.memPatches s.arena) (hptr : Pointers s) (onCard : CStr → Bool)
    (r : Registration) (hfits : (rrcRiivoHandleFilePatch onCard s r).arena.Fits) :
    (rrcRiivoHandleFilePatch onCard s r).tables =
        RrLauncher.rrcRiivoHandleFilePatch onCard s.tables r ∧
      Pointers (rrcRiivoHandleFilePatch onCard s r) := by
  have hfind : s.tables.sdFiles.findIdx? (fun f => f.path = r.externalPath) =
      s.sdFiles.findIdx? fun f => s.arena.mem.cstring f.path = r.externalPath := List.findIdx?_map
  unfold rrcRiivoHandleFilePatch RrLauncher.rrcRiivoHandleFilePatch at *
  rw [hfind]
  split at hfits
  · rename_i hmain
    rw [if_pos hmain, if_pos hmain]
    exact ⟨rfl, hptr.mono List.prefix_rfl rfl rfl rfl⟩
  rename_i hmain
  rw [if_neg hmain, if_neg hmain]
  split at hfits
  · rename_i hdouble
    rw [if_pos hdouble, if_pos hdouble]
    exact ⟨rfl, hptr⟩
  rename_i hdouble
  rw [if_neg hdouble, if_neg hdouble]
  cases hi : s.sdFiles.findIdx? fun f => s.arena.mem.cstring f.path = r.externalPath with
  | some entrynum =>
    rw [hi] at hfits
    exact tables_registerReplacement h hptr r.discPath entrynum hfits
  | none =>
    rw [hi] at hfits
    dsimp only at hfits ⊢
    split at hfits
    · rename_i hcheck
      rw [if_pos hcheck, if_pos hcheck]
      exact ⟨rfl, hptr⟩
    rename_i hcheck
    rw [if_neg hcheck, if_neg hcheck]
    -- the path of the new entry is copied before the disc path
    have hgrow := grows_bumpAllocString s.arena r.externalPath
    have hnew := hasString_bumpAllocString s.arena r.externalPath
    have hfits₁ : (bumpAllocString s.arena r.externalPath).1.Fits := by
      rw [registerReplacement_arena] at hfits
      exact hfits.of_prefix (grows_bumpAllocString _ _)
    have h₁ := h.bumpAllocString hfits₁
    have hptr₁ : Pointers { s with
        arena := (bumpAllocString s.arena r.externalPath).1
        sdFiles := s.sdFiles ++ [⟨(bumpAllocString s.arena r.externalPath).2, 0⟩] } := by
      refine ⟨List.forall_mem_append.mpr ⟨fun f hf => (hptr.sdFiles f hf).mono hgrow, ?_⟩,
        fun q hq => (hptr.replacements q hq).mono hgrow,
        fun q hq => (hptr.filenameReplacements q hq).mono hgrow⟩
      intro f hf
      obtain rfl := List.mem_singleton.mp hf
      exact ⟨_, hnew⟩
    obtain ⟨htables, hptr₂⟩ := tables_registerReplacement h₁ hptr₁ r.discPath s.sdFiles.length hfits
    refine ⟨htables.trans ?_, hptr₂⟩
    unfold LoaderState.tables
    dsimp only
    rw [List.map_append, read_sdFiles_of_grows h h₁ hgrow hptr.sdFiles,
      read_replacements_of_grows h h₁ hgrow hptr.replacements,
      read_replacements_of_grows h h₁ hgrow hptr.filenameReplacements, List.map_singleton,
      SdFile.read, h₁.carved.cstring_eq mem1.toNat_lt.le hnew, List.length_map]
    rfl

/-- **A step** does to the tables what its registration does, and nothing if it is none. -/
theorem tables_perform {mem1 : UInt32} {s : LoaderState} (h : Inv mem1 s.memPatches s.arena)
    (hptr : Pointers s) (onCard : CStr → Bool) (step : LoaderStep)
    (hfits : (perform onCard s step).arena.Fits)
    (hroom : s.memPatches.toNat + sizeofMemoryPatch * (perform onCard s step).memPatchesCount ≤
      2 ^ 32) :
    (perform onCard s step).tables =
        rrcRiivoHandleFilePatches onCard s.tables step.registration?.toList ∧
      Pointers (perform onCard s step) := by
  cases step with
  | file r => exact tables_handleFilePatch h hptr onCard r hfits
  | loaderPul dest => exact ⟨rfl, hptr.mono List.prefix_rfl rfl rfl rfl⟩
  | memory patch =>
    have h' := h.pushMemoryPatch patch hroom
    refine ⟨?_, hptr.mono List.prefix_rfl rfl rfl rfl⟩
    have hsd := read_sdFiles_of_grows h h' List.prefix_rfl hptr.sdFiles
    have hrep := read_replacements_of_grows h h' List.prefix_rfl hptr.replacements
    have hfil := read_replacements_of_grows h h' List.prefix_rfl hptr.filenameReplacements
    unfold LoaderState.tables
    exact (PatchTables.mk.injEq ..).mpr ⟨hsd, hrep, hfil, rfl, rfl⟩

/-- **The vectors stand for the tables**: what a run does in memory is what its registrations
do to tables of strings. -/
theorem tables_run (onCard : CStr → Bool) (mem : Memory) (mem1 : UInt32)
    (haligned : 32 ∣ mem1.toNat) (steps : List LoaderStep)
    (hfits : (run onCard (start mem mem1) steps).arena.Fits)
    (hroom : (start mem mem1).memPatches.toNat +
      sizeofMemoryPatch * steps.countP LoaderStep.isMemory ≤ 2 ^ 32) :
    (run onCard (start mem mem1) steps).tables =
        rrcRiivoHandleFilePatches onCard (PatchTables.empty (start mem mem1).memPatches)
          (steps.filterMap (·.registration?)) ∧
      Pointers (run onCard (start mem mem1) steps) := by
  induction steps using List.reverseRecOn with
  | nil => exact ⟨rfl, ⟨nofun, nofun, nofun⟩⟩
  | append_singleton steps step ih =>
    obtain ⟨hbase, hfits₁, hroom₁, hroom₂⟩ := room_of_append onCard mem mem1 hfits hroom
    obtain ⟨htables, hptr⟩ := ih hfits₁ hroom₁
    have hinv := Inv.run onCard mem mem1 haligned steps hfits₁ hroom₁
    rw [← hbase] at hinv
    rw [run_append_singleton] at hfits ⊢
    obtain ⟨hstep, hptr'⟩ := tables_perform hinv hptr onCard step hfits hroom₂
    refine ⟨?_, hptr'⟩
    rw [hstep, htables, rrcRiivoHandleFilePatches, rrcRiivoHandleFilePatches,
      rrcRiivoHandleFilePatches, ← List.foldl_append, List.filterMap_append]
    cases step <;> rfl

end Mem1

end RrLauncher
