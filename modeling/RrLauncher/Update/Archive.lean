/-
# Extracting an archive

`rrc_update_extract_zip_archive` of `update.c`.  An archive is what libzip makes of
the bytes of the downloaded file, and the names in it are whatever the archive says:
they are tested by `rr_update_zip_entry_path_is_safe` and then given to `fopen`.

If extraction succeeds then each file of the archive was written as a whole, in
order (`effectAt_rrcUpdateExtractZipArchive`), where an `fclose` does not fail; the
source does not look at its result.
-/

import RrLauncher.Lib.Stdio.WholeFile
import RrLauncher.Shared.Riivo
import RrLauncher.Update.Versionutils

namespace RrLauncher

open Stdio

/-- What one `zip_fread` into a buffer of 4096 bytes gets. -/
structure Chunk where
  bytes : Bytes
  nonempty : bytes ≠ []
  length_le : bytes.length ≤ 4096

/-- A chunk of one byte. -/
def Chunk.singleton (b : UInt8) : Chunk := ⟨[b], List.cons_ne_nil _ _, by simp⟩

/-- An entry of an archive: what `zip_stat_index` says of it, if it does, and what
`zip_fread` gets before it returns zero. -/
structure ZipEntry where
  name : Option CStr
  size : Option UInt64
  chunks : List Chunk

/-- The contents of an entry. -/
def ZipEntry.content (entry : ZipEntry) : Bytes := entry.chunks.flatMap (·.bytes)

/-- What the program runs on: the file that a path names, what the server sends for a
URL, in the pieces that curl passes on, and what libzip makes of the bytes of a file. -/
structure Platform (κ : Type) where
  canon : CStr → κ
  serve : CStr → List Bytes
  openZip : Bytes → Except ℤ (List ZipEntry)

variable {κ : Type} [DecidableEq κ]

/-- `_RRC_UPDATE_ZIP_NAME`. -/
def rrcUpdateZipName : CStr := CStr.lit "rr.update.zip"

/-- `PATH_MAX` of newlib, the size of the buffers for paths. -/
def pathMax : ℕ := 1024

/-- `'\\'`. -/
def backslash : UInt8 := 92

/-- `rr_update_zip_entry_path_is_safe`. -/
def rrUpdateZipEntryPathIsSafe (name : CStr) : Bool :=
  if name.first = 0 then false
  else if name.first = slash || name.first = backslash then false
  else if name.contains (CStr.lit "..") then false
  else true

/-- `rrc_sd_get_free_space`. -/
def rrcSdGetFreeSpace : Routine κ UInt64 := do
  match ← ask .freeSpace with
  | some free => return UInt64.ofNat free
  | none => failErrno "Failed to get free space on SD card"

/-- The turn of the loop of `mkdir_recursive` for the character at `i`. -/
def mkdirAt (canon : CStr → κ) (fp : CStr) (i : ℕ) : Routine κ Unit := do
  if fp.bytes[i]? = some slash then do
    if ← mkdir (canon (CStr.ofBuffer (fp.bytes.take i))) then return ()
    else do
      let eno ← Prog.getErrno
      if eno ≠ EEXIST then
        Prog.throw (rrcResultCreateErrorErrno eno "Failed to create recursive directories for path")
      else return ()
  else return ()

/-- `mkdir_recursive`. -/
def mkdirRecursive (canon : CStr → κ) (fp : CStr) : Routine κ Unit := do
  if fp.len < pathMax then Prog.forEach (List.range' 1 (fp.len - 1)) (mkdirAt canon fp)
  else Prog.halt -- "path should never be longer than PATH_MAX"

/-- The output file of an entry where the first `fopen` failed. -/
def createOutfile (canon : CStr → κ) (filepath : CStr) : Routine κ (File κ) := do
  let eno ← Prog.getErrno
  if eno ≠ ENOENT then
    Prog.throw (rrcResultCreateErrorErrno eno "Failed to create output file for extracting ZIP entry")
  else do
    mkdirRecursive canon filepath
    fopenWriteOr (canon filepath)
      (failErrno "Failed to open output file for extracting ZIP entry after creating directories")

/-- The loop over the `zip_fread`s of an entry. -/
def writeChunks (outfile : File κ) : List Chunk → Routine κ (File κ)
  | [] => do
    match ← ask .zipRead with
    | some _ => return outfile
    | none => failErrno "Failed to write ZIP chunk"
  | chunk :: chunks => do
    match ← ask .zipRead with
    | some _ => do
      let outfile ← fwriteOr outfile chunk.bytes (failErrno "Failed to fully write ZIP chunk")
      writeChunks outfile chunks
    | none => failErrno "Failed to write ZIP chunk"

/-- `zip_stat_index`. -/
def zipStatIndex : Routine κ Unit := do
  match ← ask .zipStat with
  | some _ => return ()
  | none => Prog.throw (rrcResultCreateErrorZip (-1) "Failed to stat file in archive")

/-- The output file of an entry: opened, written and closed. -/
def extractFile (canon : CStr → κ) (filepath : CStr) (chunks : List Chunk) : Routine κ Unit := do
  let outfile ← fopenWriteOr (canon filepath) (createOutfile canon filepath)
  let outfile ← writeChunks outfile chunks
  let _ ← fclose outfile
  return ()

/-- The turn of the extraction loop for an entry. -/
def extractEntry (canon : CStr → κ) (entry : ZipEntry) : Routine κ Unit := do
  zipStatIndex
  if entry.size = none ∧ entry.name = none then
    Prog.throw (rrcResultCreateErrorMiscUpdate "ZIP Archive entry contains invalid attributes")
  else
    match entry.name with
    | none => Prog.halt -- `stat.name[0]`
    | some name =>
      if name.first = 0 then
        Prog.throw (rrcResultCreateErrorMiscUpdate "Empty file name in ZIP archive")
      else if rrUpdateZipEntryPathIsSafe name = false then
        Prog.throw (rrcResultCreateErrorMiscUpdate "ZIP archive entry has an unsafe file path")
      else do
        let size := entry.size.getD 0
        let sdFree ← rrcSdGetFreeSpace
        if size > sdFree then
          Prog.throw (rrcResultCreateErrorMiscUpdate
            s!"Not enough free space on SD card to extract file.\nNeeded: {size} bytes, available: {sdFree} bytes")
        else if name.bytes.getLast? = some slash then return ()
        else do
          match ← ask .zipFopen with
          | some _ => extractFile canon name entry.chunks
          | none => Prog.throw (rrcResultCreateErrorMiscUpdate "Failed to open file in ZIP archive")

/-- The entries after `zip_open`: their sizes are added up and compared with the free space, and
then each of them is extracted in its turn. -/
def extractEntries (canon : CStr → κ) (entries : List ZipEntry) : Routine κ Unit := do
  Prog.forEach entries fun _ => zipStatIndex
  let uncompressedZipsz := (entries.filterMap (·.size)).foldl (· + ·) 0
  let sdFree ← rrcSdGetFreeSpace
  if uncompressedZipsz > sdFree then
    Prog.throw (rrcResultCreateErrorMiscUpdate
      s!"Not enough free space on SD card to extract update.\n(Need {uncompressedZipsz} bytes, have {sdFree} bytes)")
  else Prog.forEach entries (extractEntry canon)

/-- `zip_open`. -/
def zipOpen (p : Platform κ) (path : CStr) : Routine κ (List ZipEntry) := do
  match ← ask .zipOpen with
  | none => failedToOpen (← Prog.getErrno)
  | some _ =>
    match ← fopenRead (p.canon path) with
    | none => failedToOpen (← Prog.getErrno)
    | some content =>
      match p.openZip content with
      | .error zipErr => failedToOpen zipErr
      | .ok entries => return entries
where
  failedToOpen (zipErr : ℤ) : Routine κ (List ZipEntry) :=
    Prog.throw (rrcResultCreateErrorZip zipErr "Failed to open downloaded ZIP archive")

/-- `rrc_update_extract_zip_archive`. -/
def rrcUpdateExtractZipArchive (p : Platform κ) : Routine κ Unit := do
  let entries ← zipOpen p rrcUpdateZipName
  extractEntries p.canon entries

/-! ### What extraction does -/

/-- The file that an entry is extracted to; directories are not extracted. -/
def ZipEntry.file? (entry : ZipEntry) : Option (CStr × Bytes) :=
  match entry.name with
  | none => none
  | some name => if name.bytes.getLast? = some slash then none else some (name, entry.content)

/-- The files of an archive, in order. -/
def archiveFiles (entries : List ZipEntry) : List (CStr × Bytes) := entries.filterMap (·.file?)

variable {env : Stdio.Env κ Question} (canon : CStr → κ)

omit [DecidableEq κ] in
/-- Looking an entry up in the archive changes nothing on the card. -/
theorem quiet_zipStatIndex : Quiet env (zipStatIndex : Routine κ Unit) := by
  refine (Quiet.ask _).bind ?_
  rintro (_ | n)
  · exact (Fails.throw _).quiet
  · exact Quiet.pure ()

omit [DecidableEq κ] in
/-- Asking for the free space changes nothing on the card. -/
theorem quiet_rrcSdGetFreeSpace : Quiet env (rrcSdGetFreeSpace : Routine κ UInt64) := by
  refine (Quiet.ask _).bind ?_
  rintro (_ | n)
  · exact (fails_failErrno _).quiet
  · exact Quiet.pure _

omit [DecidableEq κ] in
/-- Making folders changes no file of the card, as the model keeps files only. -/
theorem quiet_mkdirRecursive (fp : CStr) : Quiet env (mkdirRecursive canon fp) := by
  unfold mkdirRecursive
  split
  · refine Quiet.forEach _ fun i => ?_
    unfold mkdirAt
    split
    · refine (Quiet.mkdir _).bind ?_
      rintro (_ | _)
      · refine Quiet.getErrno.bind fun eno => ?_
        split
        · exact (Fails.throw _).quiet
        · exact Quiet.pure ()
      · exact Quiet.pure ()
    · exact Quiet.pure ()
  · exact Fails.halt.quiet

/-- The file of an entry is opened for writing, the folders around it made if need be: no other file
is changed, and where it succeeds the file is empty. -/
theorem opens_createOutfile (filepath : CStr) :
    Opens env (createOutfile canon filepath) (canon filepath) := by
  refine Opens.bind_quiet Quiet.getErrno fun eno => ?_
  split
  · exact Opens.of_fails (Fails.throw _) _
  · exact Opens.bind_quiet (quiet_mkdirRecursive canon filepath) fun _ =>
      Opens.fopenWriteOr (Opens.of_fails (fails_failErrno _) _)

/-- The chunks of an entry are written one after the other. -/
theorem writes_writeChunks (outfile : File κ) (chunks : List Chunk) :
    Writes env (writeChunks outfile chunks) outfile (chunks.flatMap (·.bytes)) := by
  induction chunks generalizing outfile with
  | nil =>
    refine Writes.bind_quiet (Quiet.ask _) ?_
    rintro (_ | n)
    · exact Writes.of_fails (fails_failErrno _) _ _
    · exact Writes.pure outfile
  | cons chunk chunks ih =>
    rw [List.flatMap_cons]
    refine Writes.bind_quiet (Quiet.ask _) ?_
    rintro (_ | n)
    · exact Writes.of_fails (fails_failErrno _) _ _
    · exact (Writes.fwriteOr (fails_failErrno _) outfile chunk.bytes).bind fun file' _ => ih file'

/-- **A file of the archive** is written as a whole. -/
theorem effect_extractFile (hcloses : env.Closes) (filepath : CStr) (chunks : List Chunk) :
    Effect env (extractFile canon filepath chunks)
      (Overlay.single (canon filepath) (some (chunks.flatMap (·.bytes))))
      [.wrote (canon filepath) (chunks.flatMap (·.bytes))] :=
  Effect.writeFile (Opens.fopenWriteOr (opens_createOutfile canon filepath))
    (writes_writeChunks _ chunks) (Quiet.pure ()) (Or.inr fun n => hcloses n _)

/-- **An entry with a file** writes this file, whole, and nothing else. -/
theorem effect_extractEntry (hcloses : env.Closes) {entry : ZipEntry} {file : CStr × Bytes}
    (h : entry.file? = some file) :
    Effect env (extractEntry canon entry) (Overlay.single (canon file.1) (some file.2))
      [.wrote (canon file.1) file.2] := by
  unfold ZipEntry.file? at h
  split at h
  · cases h
  · rename_i name hname
    split at h
    · cases h
    · rename_i hfile
      obtain rfl := Option.some.inj h
      refine Effect.bind_quiet quiet_zipStatIndex fun _ => ?_
      split
      · exact (Fails.throw _).effect _ _
      simp only [hname]
      split
      · exact (Fails.throw _).effect _ _
      split
      · exact (Fails.throw _).effect _ _
      refine Effect.bind_quiet quiet_rrcSdGetFreeSpace fun sdFree => ?_
      split
      · exact (Fails.throw _).effect _ _
      refine Effect.bind_quiet (Quiet.ask _) ?_
      rintro (_ | n)
      · exact (Fails.throw _).effect _ _
      · exact effect_extractFile canon hcloses name entry.chunks

/-- An entry without a file, such as a folder, leaves the files of the card alone. -/
theorem quiet_extractEntry {entry : ZipEntry} (h : entry.file? = none) :
    Quiet env (extractEntry canon entry) := by
  refine quiet_zipStatIndex.bind fun _ => ?_
  split
  · exact (Fails.throw _).quiet
  unfold ZipEntry.file? at h
  split at h
  · exact Fails.halt.quiet
  · split at h
    · dsimp only
      split
      · exact (Fails.throw _).quiet
      split
      · exact (Fails.throw _).quiet
      refine quiet_rrcSdGetFreeSpace.bind fun sdFree => ?_
      split
      · exact (Fails.throw _).quiet
      · exact Quiet.pure ()
    · cases h

/-- **The entries of an archive** write its files one after the other, and nothing else. -/
theorem effect_extractEntries (hcloses : env.Closes) (entries : List ZipEntry) :
    Effect env (extractEntries canon entries)
      (Overlay.seqAll ((archiveFiles entries).map fun file =>
        Overlay.single (canon file.1) (some file.2)))
      ((archiveFiles entries).map fun file => .wrote (canon file.1) file.2) := by
  refine Effect.bind_quiet (Quiet.forEach _ fun _ => quiet_zipStatIndex) fun _ => ?_
  refine Effect.bind_quiet quiet_rrcSdGetFreeSpace fun sdFree => ?_
  split
  · exact (Fails.throw _).effect _ _
  · exact Effect.forEach_filterMap entries (·.file?)
      (fun entry file h => effect_extractEntry canon hcloses h)
      (fun entry h => quiet_extractEntry canon h)

omit [DecidableEq κ] in
/-- Opening the archive changes nothing on the card, whether it succeeds or not. -/
theorem quiet_zipOpen (p : Platform κ) (path : CStr) : Quiet env (zipOpen p path) := by
  refine (Quiet.ask _).bind ?_
  rintro (_ | n)
  · exact Quiet.getErrno.bind fun _ => (Fails.throw _).quiet
  refine (Quiet.fopenRead _).bind ?_
  rintro (_ | content)
  · exact Quiet.getErrno.bind fun _ => (Fails.throw _).quiet
  dsimp only
  split
  · exact (Fails.throw _).quiet
  · exact Quiet.pure _

omit [DecidableEq κ] in
/-- An archive that was opened is what libzip makes of the bytes of the file. -/
theorem zipOpen_ok {p : Platform κ} {path : CStr} {w w' : World κ} {entries : List ZipEntry}
    (h : zipOpen p path env w = (.ok entries, w')) :
    ∃ content, w.card (p.canon path) = some content ∧ p.openZip content = .ok entries := by
  rcases Prog.bind_ok h with ⟨_ | n, w₁, hask, h⟩
  · obtain ⟨_, _, -, h⟩ := Prog.bind_ok h
    cases h
  have hcard : w₁.card = w.card := by rw [← ((Quiet.ask _) w).1, hask]
  rcases Prog.bind_ok h with ⟨_ | content, w₂, hopen, h⟩
  · obtain ⟨_, _, -, h⟩ := Prog.bind_ok h
    cases h
  refine ⟨content, ?_, ?_⟩
  · rw [← hcard]
    exact fopenRead_ok hopen
  · dsimp only at h
    cases hzip : p.openZip content with
    | error zipErr =>
      rw [hzip] at h
      cases h
    | ok entries' =>
      rw [hzip] at h
      cases h
      rfl

/-- **Extraction** writes the files of the archive that lies on the card. -/
theorem effectAt_rrcUpdateExtractZipArchive (hcloses : env.Closes) {p : Platform κ} {w : World κ}
    {content : Bytes} {files : List (CStr × Bytes)}
    (hcard : w.card (p.canon rrcUpdateZipName) = some content)
    (hzip : ∀ entries, p.openZip content = .ok entries → archiveFiles entries = files) :
    EffectAt env (rrcUpdateExtractZipArchive p) w
      (Overlay.seqAll (files.map fun file => Overlay.single (p.canon file.1) (some file.2)))
      (files.map fun file => .wrote (p.canon file.1) file.2) := by
  refine EffectAt.bind_quiet (quiet_zipOpen p _) fun entries w₁ hrun _ => ?_
  obtain ⟨content', hcontent', hopen⟩ := zipOpen_ok hrun
  obtain rfl := Option.some.inj (hcard.symm.trans hcontent')
  rw [← hzip entries hopen]
  exact effect_extractEntries p.canon hcloses entries w₁

end RrLauncher
