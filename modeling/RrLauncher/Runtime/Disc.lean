/-
# The replacements as the runtime reads them

`dvd.c` of the runtime extension reads `riivo_disc`, a `struct rrc_riivo_disc` that `base.ld` puts at
a fixed address, and follows its pointers into MEM1.  It was compiled apart from the loader, so
that it finds what the loader published is a statement about bytes (`publishes_runtimeDisc`).
-/

import RrLauncher.Loader.Mem1Tables
import RrLauncher.Loader.Published
import RrLauncher.Runtime.LastWins

namespace RrLauncher

open ByteReader (be32)
open Mem1 (LoaderState FileReplacement SdFile)

/-- `.riivo_disc` of `base.ld`, where the runtime extension looks for the struct. -/
def riivoDiscAddr : UInt32 := 0x81782fa0

/-- `*replacement`, for a pointer to it. -/
def readReplacement (mem : Memory) (replacement : UInt32) : RrcRiivoFileReplacement where
  disc := mem.cstring (mem.word replacement)
  hash := mem.word (replacement + 4)
  entrynum := (mem.word (replacement + 8)).toNat

/-- The path of `*sd_file` and the pointer in `file_info`. -/
def readSdFile (mem : Memory) (sdFile : UInt32) : CStr × UInt32 :=
  (mem.cstring (mem.word sdFile), mem.word (sdFile + 4))

/-- `riivo_disc.sd_files[entry_num]`. -/
def sdFileAt (mem : Memory) (entryNum : ℕ) : CStr × UInt32 :=
  readSdFile mem (mem.word riivoDiscAddr + UInt32.ofNat (sizeofSdFile * entryNum))

/-- `riivo_disc`, with the arrays behind its pointers.  How many SD files there are is not in it; `n`
of them are listed, all of them closed. -/
def runtimeDisc (mem : Memory) (n : ℕ) : RrcRiivoDisc where
  sdFiles := (List.range n).map fun entryNum => ⟨(sdFileAt mem entryNum).1, none⟩
  filenameReplacements := Memory.readArray (readReplacement mem) (mem.word (riivoDiscAddr + 8))
    sizeofFileReplacement (mem.word (riivoDiscAddr + 4)).toNat
  replacements := Memory.readArray (readReplacement mem) (mem.word (riivoDiscAddr + 16))
    sizeofFileReplacement (mem.word (riivoDiscAddr + 12)).toNat

/-! ### Reading what was written -/

/-- A replacement is read back, with the string behind its pointer. -/
theorem readReplacement_of_holds {mem : Memory} {p : UInt32} {r : FileReplacement}
    (h : mem.Holds p r.bytes) (hentry : r.entrynum < 2 ^ 32) :
    readReplacement mem p = r.read mem := by
  have hwords : mem.Holds p ([r.disc, r.hash, UInt32.ofNat r.entrynum].flatMap be32) := h
  have hdisc : mem.word p = r.disc := by simpa using hwords.words (k := 0) (by simp)
  have hhash : mem.word (p + 4) = r.hash := hwords.words (k := 1) (by simp)
  have hnum : mem.word (p + 8) = UInt32.ofNat r.entrynum := hwords.words (k := 2) (by simp)
  rw [readReplacement, FileReplacement.read, hdisc, hhash, hnum, UInt32.toNat_ofNat_of_lt' hentry]

/-- A file of the table is read back from its bytes: its path, by the pointer that it has, and its
slot. -/
theorem readSdFile_of_holds {mem : Memory} {p : UInt32} {f : SdFile} (h : mem.Holds p f.bytes) :
    readSdFile mem p = (mem.cstring f.path, f.fileInfo) := by
  have hwords : mem.Holds p ([f.path, f.fileInfo].flatMap be32) := h
  have hpath : mem.word p = f.path := by simpa using hwords.words (k := 0) (by simp)
  have hinfo : mem.word (p + 4) = f.fileInfo := hwords.words (k := 1) (by simp)
  rw [readSdFile, hpath, hinfo]

/-! ### Reading what was published -/

/-- `qsort` with `cmp_file_replacements_by_hash`; what comes of equal hashes is left open. -/
structure SortsByHash (qsort : List FileReplacement → List FileReplacement) : Prop where
  perm : ∀ l, (qsort l).Perm l
  sorted : ∀ l, SortedSearch.Sorted (·.hash.toNat) (qsort l)

/-- A memory that still has what a parse published: MEM1 from the last value of the pointer on, and
the struct. -/
structure Keeps (mem1 : UInt32) (s : LoaderState) (disc : Mem1.RrcRiivoDisc) (mem : Memory) : Prop
    where
  arena : ∀ a : UInt32, s.arena.top.toNat ≤ a.toNat → a.toNat < mem1.toNat → mem a = s.arena.mem a
  struct : mem.WordsAt riivoDiscAddr disc.words

section Publish

variable {qsort : List FileReplacement → List FileReplacement} {mem1 : UInt32}
  {s s' : LoaderState} {disc : Mem1.RrcRiivoDisc} {mem : Memory}

/-- A string that was handed out is still there, if the memory keeps what was published. -/
theorem Keeps.cstring_eq (hkeeps : Keeps mem1 s disc mem) (h : Mem1.Inv mem1 s.memPatches s.arena)
    {p : UInt32} (hp : Mem1.Readable s.arena p) : mem.cstring p = s.arena.mem.cstring p := by
  obtain ⟨src, hsrc⟩ := hp
  have hkept := h.carved.congr mem1.toNat_lt.le hkeeps.arena
  rw [h.carved.cstring_eq mem1.toNat_lt.le hsrc]
  exact hkept.cstring_eq mem1.toNat_lt.le hsrc

/-- The fields of the struct, at the fixed address where the runtime looks for it, as the loader
published them. -/
theorem Keeps.words (hkeeps : Keeps mem1 s disc mem) :
    mem.word riivoDiscAddr = disc.sdFiles ∧
      mem.word (riivoDiscAddr + 4) = UInt32.ofNat disc.filenameReplacementsCount ∧
      mem.word (riivoDiscAddr + 8) = disc.filenameReplacements ∧
      mem.word (riivoDiscAddr + 12) = UInt32.ofNat disc.replacementsCount ∧
      mem.word (riivoDiscAddr + 16) = disc.replacements :=
  ⟨hkeeps.struct 0 (show 0 < 5 by decide), hkeeps.struct 1 (show 1 < 5 by decide),
    hkeeps.struct 2 (show 2 < 5 by decide), hkeeps.struct 3 (show 3 < 5 by decide),
    hkeeps.struct 4 (show 4 < 5 by decide)⟩

/-- The tables are as long as a word can tell. -/
theorem length_lt_of_holds {lo hi : ℕ} {p : UInt32} {l : List FileReplacement} (hhi : hi ≤ 2 ^ 32)
    (h : mem.HoldsIn lo hi p (l.map FileReplacement.bytes).flatten) : l.length < 2 ^ 32 := by
  have hlen := Mem1.length_flatten (List.forall_mem_map.mpr fun r (_ : r ∈ l) =>
    Mem1.length_fileReplacement_bytes r)
  have hle := h.le_hi
  rw [hlen, List.length_map, sizeofFileReplacement] at hle
  omega

/-- **A table is read back** from its array, with the strings behind the pointers. -/
theorem readArray_replacements {lo hi : ℕ} {p : UInt32} {l : List FileReplacement} {mem₀ : Memory}
    (hhi : hi ≤ 2 ^ 32) (h : mem.HoldsIn lo hi p (l.map FileReplacement.bytes).flatten)
    (hentry : ∀ r ∈ l, r.entrynum < 2 ^ 32)
    (hstrings : ∀ r ∈ l, mem.cstring r.disc = mem₀.cstring r.disc) :
    Memory.readArray (readReplacement mem) p sizeofFileReplacement (UInt32.ofNat l.length).toNat =
      l.map (FileReplacement.read mem₀) := by
  rw [UInt32.toNat_ofNat_of_lt' (length_lt_of_holds hhi h)]
  refine Memory.readArray_of_holds h.holds (fun r _ => Mem1.length_fileReplacement_bytes r)
    fun r hr q hq => ?_
  rw [readReplacement_of_holds hq (hentry r hr), FileReplacement.read, FileReplacement.read,
    hstrings r hr]

/-- **The runtime reads what the loader published**, as long as it is kept. -/
theorem publishes_runtimeDisc (hqsort : SortsByHash qsort)
    (hpublish : Mem1.publish qsort s = some (s', disc)) (h : Mem1.Inv mem1 s.memPatches s.arena)
    (hptr : Mem1.Pointers s) (hfits : s'.arena.Fits) (hinv : s.tables.Inv)
    (hclosed : ∀ f ∈ s.sdFiles, f.fileInfo = 0) (hkeeps : Keeps mem1 s' disc mem) :
    Publishes s.tables (runtimeDisc mem s.sdFiles.length) ∧
      ∀ e < s.sdFiles.length, (sdFileAt mem e).2 = 0 := by
  have hgrow := Mem1.grows_publish hpublish
  have h' := h.publish hpublish hfits
  have htop := h.top_le.trans h.memPatches_le
  have harrays := (Mem1.holdsArrays_publish hpublish hfits).congr htop mem1.toNat_lt.le hkeeps.arena
  have hmem1 := mem1.toNat_lt.le
  obtain ⟨hbase, hfilLen, hrepLen⟩ : s'.memPatches = s.memPatches ∧
      disc.filenameReplacementsCount = (qsort s.filenameReplacements).length ∧
      disc.replacementsCount = (qsort s.replacements).length := by
    obtain ⟨sd, rep, fil, -, -, -, rfl, rfl⟩ := Mem1.publish_some hpublish
    exact ⟨rfl, rfl, rfl⟩
  have hstring : ∀ p, Mem1.Readable s.arena p → mem.cstring p = s.arena.mem.cstring p := fun p hp =>
    (hkeeps.cstring_eq h' (hp.mono hgrow)).trans (Mem1.cstring_of_grows h (hbase ▸ h') hgrow hp)
  obtain ⟨hsd, hfilCount, hfil, hrepCount, hrep⟩ := hkeeps.words
  rw [hfilLen] at hfilCount
  rw [hrepLen] at hrepCount
  -- the tables
  have hlen : s.sdFiles.length < 2 ^ 32 := by
    have hsize := Mem1.length_flatten (List.forall_mem_map.mpr fun f (_ : f ∈ s.sdFiles) =>
      Mem1.length_sdFile_bytes f)
    have hle := harrays.sdFiles.le_hi
    rw [hsize, List.length_map, sizeofSdFile] at hle
    omega
  have htable : ∀ {l : List FileReplacement} {p : UInt32},
      mem.HoldsIn s'.arena.top.toNat mem1.toNat p ((qsort l).map FileReplacement.bytes).flatten →
      TableInv s.tables.sdFiles.length (l.map (FileReplacement.read s.arena.mem)) →
      (∀ r ∈ l, Mem1.Readable s.arena r.disc) →
      Memory.readArray (readReplacement mem) p sizeofFileReplacement
          (UInt32.ofNat (qsort l).length).toNat = (qsort l).map (FileReplacement.read s.arena.mem) := by
    intro l p hholds hl hreadable
    refine readArray_replacements hmem1 hholds (fun r hr => ?_) fun r hr => ?_
    · have hentry := hl.entrynum _ (List.mem_map_of_mem ((hqsort.perm l).mem_iff.mp hr))
      rw [LoaderState.tables, List.length_map] at hentry
      exact hentry.trans hlen
    · exact hstring _ (hreadable r ((hqsort.perm l).mem_iff.mp hr))
  have hsorted : ∀ l, SortedByHash ((qsort l).map (FileReplacement.read s.arena.mem)) := fun l =>
    List.pairwise_map.mpr (hqsort.sorted l)
  have hfilTable := htable harrays.filenameReplacements hinv.filenames hptr.filenameReplacements
  have hrepTable := htable harrays.replacements hinv.replacements hptr.replacements
  -- the SD files
  have hfile : ∀ e (he : e < s.sdFiles.length),
      sdFileAt mem e = (s.arena.mem.cstring s.sdFiles[e].path, 0) := by
    intro e he
    have hrecord := harrays.sdFiles.holds.record
      (List.forall_mem_map.mpr fun f _ => Mem1.length_sdFile_bytes f) (i := e)
      (by rwa [List.length_map])
    rw [List.getElem_map] at hrecord
    have hmem : s.sdFiles[e] ∈ s.sdFiles := List.getElem_mem he
    rw [sdFileAt, hsd, readSdFile_of_holds hrecord, hclosed _ hmem, hstring _ (hptr.sdFiles _ hmem)]
  refine ⟨⟨?_, ?_, ?_, ?_, ?_⟩, fun e he => by rw [hfile e he]⟩
  · refine List.ext_getElem (by simp [runtimeDisc, LoaderState.tables]) fun e he he' => ?_
    have hlt : e < s.sdFiles.length := by simpa [LoaderState.tables] using he'
    simp only [runtimeDisc, LoaderState.tables, List.getElem_map, List.getElem_range, hfile e hlt]
    rfl
  · rw [runtimeDisc, hrep, hrepCount, hrepTable]
    exact (hqsort.perm _).map _
  · rw [runtimeDisc, hrep, hrepCount, hrepTable]
    exact hsorted _
  · rw [runtimeDisc, hfil, hfilCount, hfilTable]
    exact (hqsort.perm _).map _
  · rw [runtimeDisc, hfil, hfilCount, hfilTable]
    exact hsorted _

end Publish

/-! ### What the game finds -/

/-- **What a path is replaced by**: the external file of the last registration that takes effect
for its file name, or else of the last one for the whole path. -/
def replacedBy (onCard : CStr → Bool) (regs : List Registration) (path : CStr) : Option CStr :=
  (lastExternal (isFilenameFor (path.afterLast slash).lower) (effective onCard regs)).or
    (lastExternal (isFullFor (skipSlash path).lower) (effective onCard regs))

/-- A search that finds something finds the entry of its external path. -/
def Finds (riivoDisc : RrcRiivoDisc) (found : Option ℕ) (external : Option CStr) : Prop :=
  match external with
  | some external => ∃ e, found = some e ∧ (riivoDisc.sdFiles[e]?).map (·.path) = some external
  | none => found = none

/-- **A path resolves to what it is replaced by**, in any letter case. -/
theorem finds_replacedBy {onCard : CStr → Bool} {top : UInt32} {regs : List Registration}
    {riivoDisc : RrcRiivoDisc} (hlower : ∀ r ∈ regs, r.discPath.lower = r.discPath)
    (hpub : Publishes (rrcRiivoHandleFilePatches onCard (PatchTables.empty top) regs) riivoDisc)
    (path : CStr) :
    Finds riivoDisc (rteDvdResolvePathToEntryNum riivoDisc path) (replacedBy onCard regs path) := by
  have h := agrees_handleFilePatches onCard top regs
  generalize rrcRiivoHandleFilePatches onCard (PatchTables.empty top) regs = t at h hpub
  obtain ⟨hfull, hfile⟩ := h.lower fun r hr => hlower r (effective_subset onCard regs hr)
  -- both searches, with what the registrations say
  have hsegment : Finds riivoDisc (rteDvdSearchReplacement
      (rrcHashStringLowercase (path.afterLast slash)) (path.afterLast slash)
      riivoDisc.filenameReplacements)
      (lastExternal (isFilenameFor (path.afterLast slash).lower) (effective onCard regs)) := by
    rw [Finds.eq_def, ← h.filenames, hpub.sdFiles]
    exact search_published h.inv.filenames hfile hpub.filenameReplacements
      hpub.filenameReplacementsSorted _
  have hpath : Finds riivoDisc (rteDvdSearchReplacement (rrcHashStringLowercase (skipSlash path))
      (skipSlash path) riivoDisc.replacements)
      (lastExternal (isFullFor (skipSlash path).lower) (effective onCard regs)) := by
    rw [Finds.eq_def, ← h.full, hpub.sdFiles]
    exact search_published h.inv.replacements hfull hpub.replacements hpub.replacementsSorted _
  have hlast : (((skipSlash path).strrchr slash).map CStr.advance).getD (skipSlash path) =
      path.afterLast slash := (CStr.strrchr_afterLast _ _).trans (afterLast_skipSlash path)
  rw [replacedBy, rteDvdResolvePathToEntryNum]
  simp only [hlast]
  cases hname : lastExternal (isFilenameFor (path.afterLast slash).lower) (effective onCard regs) with
  | some external =>
    rw [hname] at hsegment
    obtain ⟨e, he, hfound⟩ := hsegment
    rw [he]
    exact ⟨e, rfl, hfound⟩
  | none =>
    rw [hname] at hsegment
    rw [show rteDvdSearchReplacement _ _ riivoDisc.filenameReplacements = none from hsegment]
    exact hpath

end RrLauncher
