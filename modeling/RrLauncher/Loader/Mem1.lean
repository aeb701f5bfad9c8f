/-
# The patch loader in memory

What `rrc_riivo_patch_loader_parse` puts into MEM1, byte for byte: an array for the
memory patches, the strings of `bump_alloc_string`, which are not aligned, and at the end
the three arrays that the runtime reads.  The vectors are on the heap and hold pointers
into MEM1; the strings are compared by reading them there.
-/

import RrLauncher.Lib.ByteAt
import RrLauncher.Lib.Memory
import RrLauncher.Loader.Walk
import RrLauncher.Shared.Util

namespace RrLauncher

open Memory (Arena Allocation Block Carved)
open ByteReader (be32)

/-- `MAX_MEMORY_PATCHES`. -/
def maxMemoryPatches : ℕ := 128

/-- `GLOBAL_MAX_FOLDER_FILES`. -/
def globalMaxFolderFiles : ℕ := 30000

/-- `sizeof(struct rrc_riivo_memory_patch)`. -/
def sizeofMemoryPatch : ℕ := 16

/-- `sizeof(struct rrc_riivo_sd_file)`. -/
def sizeofSdFile : ℕ := 8

/-- `sizeof(struct rrc_riivo_file_replacement)`. -/
def sizeofFileReplacement : ℕ := 12

namespace Mem1

/-- `struct rrc_riivo_sd_file`, with its pointers. -/
structure SdFile where
  path : UInt32
  fileInfo : UInt32
  deriving DecidableEq

/-- `struct rrc_riivo_file_replacement`, with its pointer. -/
structure FileReplacement where
  disc : UInt32
  hash : UInt32
  entrynum : ℕ
  deriving DecidableEq

/-- The bytes of an SD file. -/
def SdFile.bytes (f : SdFile) : List UInt8 := be32 f.path ++ be32 f.fileInfo

/-- The bytes of a replacement. -/
def FileReplacement.bytes (r : FileReplacement) : List UInt8 :=
  be32 r.disc ++ be32 r.hash ++ be32 (UInt32.ofNat r.entrynum)

/-- `struct rrc_riivo_disc`. -/
structure RrcRiivoDisc where
  sdFiles : UInt32
  filenameReplacementsCount : ℕ
  filenameReplacements : UInt32
  replacementsCount : ℕ
  replacements : UInt32
  deriving DecidableEq

/-- The state of `rrc_riivo_patch_loader_parse`: MEM1, of which `*mem1` is the pointer, the
fields of `out`, the vectors and `main_dol_path`.  The entries of `mem_patches` that were
written are recorded. -/
structure LoaderState where
  arena : Arena
  memPatches : UInt32
  memPatchesCount : ℕ
  loaderPulDest : UInt32
  sdFiles : List SdFile
  replacements : List FileReplacement
  filenameReplacements : List FileReplacement
  mainDolPath : Option CStr
  entriesWritten : List ℕ

/-- The state before the loops. -/
def start (mem : Memory) (mem1 : UInt32) : LoaderState :=
  let size := sizeofMemoryPatch * maxMemoryPatches
  let memPatches := mem1 - UInt32.ofNat size
  { arena := ⟨mem, memPatches, [⟨mem1, ⟨memPatches, size⟩, none⟩]⟩
    memPatches := memPatches
    memPatchesCount := 0
    loaderPulDest := 0
    sdFiles := []
    replacements := []
    filenameReplacements := []
    mainDolPath := none
    entriesWritten := [] }

/-- `bump_alloc_string`. -/
def bumpAllocString (arena : Arena) (src : CStr) : Arena × UInt32 :=
  let dest := arena.top - (UInt32.ofNat src.len + 1)
  (⟨arena.mem.write dest (src.bytes ++ [0]), dest,
    arena.allocations ++ [⟨arena.top, ⟨dest, src.len + 1⟩, some src⟩]⟩, dest)

/-- `_rrc_riivo_remove_replacement`. -/
def rrcRiivoRemoveReplacement (mem : Memory) (replacements : List FileReplacement)
    (remove : FileReplacement) : List FileReplacement :=
  KeyedTable.removeFirst
    (fun repl => repl.hash = remove.hash && mem.cstring repl.disc = mem.cstring remove.disc)
    replacements

/-- The second half of `_rrc_riivo_handle_file_patch`. -/
def registerReplacement (s : LoaderState) (discPath : CStr) (entrynum : ℕ) : LoaderState :=
  let isFilenameReplacement := discPath.first ≠ slash
  let disc := skipSlash discPath
  let (arena, discM1) := bumpAllocString s.arena disc
  let newReplacement : FileReplacement :=
    { disc := discM1, hash := rrcHashString disc, entrynum := entrynum }
  if isFilenameReplacement then
    { s with
      arena := arena
      filenameReplacements :=
        rrcRiivoRemoveReplacement arena.mem s.filenameReplacements newReplacement ++
          [newReplacement] }
  else
    { s with
      arena := arena
      replacements :=
        rrcRiivoRemoveReplacement arena.mem s.replacements newReplacement ++ [newReplacement] }

/-- `_rrc_riivo_handle_file_patch`. -/
def rrcRiivoHandleFilePatch (onCard : CStr → Bool) (s : LoaderState) (r : Registration) :
    LoaderState :=
  if isMainDol r.discPath then { s with mainDolPath := some r.externalPath }
  else if isAppleDouble r.discPath then s
  else
    match s.sdFiles.findIdx? (fun f => s.arena.mem.cstring f.path = r.externalPath) with
    | some entrynum => registerReplacement s r.discPath entrynum
    | none =>
      if r.checkExists ∧ ¬ onCard r.externalPath then s
      else
        let (arena, externalPathM1) := bumpAllocString s.arena r.externalPath
        let newFile : SdFile := { path := externalPathM1, fileInfo := 0 }
        registerReplacement { s with arena := arena, sdFiles := s.sdFiles ++ [newFile] } r.discPath
          s.sdFiles.length

/-- The next entry of `out->mem_patches`. -/
def pushMemoryPatch (s : LoaderState) (patch : RrcRiivoMemoryPatch) : LoaderState :=
  let patchDist := s.memPatches + UInt32.ofNat (sizeofMemoryPatch * s.memPatchesCount)
  let mem := s.arena.mem.write patchDist (be32 patch.addr)
  let mem := mem.write (patchDist + UInt32.ofNat 4) (be32 patch.value)
  let mem := mem.write (patchDist + UInt32.ofNat 12) [0]
  let mem :=
    match patch.original with
    | none => mem
    | some original =>
      (mem.write (patchDist + UInt32.ofNat 8) (be32 original)).write (patchDist + UInt32.ofNat 12) [1]
  { s with
    arena := { s.arena with mem := mem }
    memPatchesCount := s.memPatchesCount + 1
    entriesWritten := s.entriesWritten ++ [s.memPatchesCount] }

/-- What is done with what the walk passes on. -/
def perform (onCard : CStr → Bool) (s : LoaderState) : LoaderStep → LoaderState
  | .file r => rrcRiivoHandleFilePatch onCard s r
  | .loaderPul dest => { s with loaderPulDest := dest }
  | .memory patch => pushMemoryPatch s patch

/-- All of it, in order. -/
def run (onCard : CStr → Bool) (s : LoaderState) (steps : List LoaderStep) : LoaderState :=
  steps.foldl (perform onCard) s

/-- An array of structures with an alignment of 4, and the `memcpy` to it. -/
def allocArray (arena : Arena) (sizeof : ℕ) (elements : List (List UInt8)) : Arena × UInt32 :=
  let size := sizeof * elements.length
  let dest := alignDown (arena.top - UInt32.ofNat size) (UInt32.ofNat (2 ^ 2))
  (⟨arena.mem.write dest elements.flatten, dest,
    arena.allocations ++ [⟨arena.top, ⟨dest, size⟩, none⟩]⟩, dest)

/-- The end of the function, from the check of the number of files on; there are too many
files where there is no result.  `qsort` sorts by hash. -/
def publish (qsort : List FileReplacement → List FileReplacement) (s : LoaderState) :
    Option (LoaderState × RrcRiivoDisc) :=
  if globalMaxFolderFiles < s.replacements.length + s.filenameReplacements.length then none
  else
    let replacements := qsort s.replacements
    let filenameReplacements := qsort s.filenameReplacements
    let (arena, mem1SdFiles) := allocArray s.arena sizeofSdFile (s.sdFiles.map SdFile.bytes)
    let (arena, mem1Replacements) :=
      allocArray arena sizeofFileReplacement (replacements.map FileReplacement.bytes)
    let (arena, mem1FilenameReplacements) :=
      allocArray arena sizeofFileReplacement (filenameReplacements.map FileReplacement.bytes)
    some ({ s with
      arena := arena
      replacements := replacements
      filenameReplacements := filenameReplacements },
      { sdFiles := mem1SdFiles
        filenameReplacementsCount := filenameReplacements.length
        filenameReplacements := mem1FilenameReplacements
        replacementsCount := replacements.length
        replacements := mem1Replacements })

end Mem1

end RrLauncher
