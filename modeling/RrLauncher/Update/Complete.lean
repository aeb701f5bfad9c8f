/-
# Whether an extraction was complete

`rrc_update_extract_zip_archive` looks at the results of its `fopen`s, `zip_fread`s and
`fwrite`s, but not at that of `fclose`, which writes what is still in the buffer.  So
where it succeeds each file of the archive has been given all its bytes, and the card
has all of them if and only if no last closing of a file lost some
(`extract_complete_iff`).  `rrc_update_set_current_version` does look at the result of
its `fclose`.

The `…Noting` programs are those of the source with a note of what each `fclose` left
where; `discard_extractNoting` says so.
-/

import RrLauncher.Lib.Stdio.Closing
import RrLauncher.Update.Archive

namespace RrLauncher

open Stdio

variable {κ : Type} [DecidableEq κ] (canon : CStr → κ)

/-- `extractFile`, with a note of how the file was closed. -/
def extractFileNoting (filepath : CStr) (chunks : List Chunk) : Routine κ (List (Closing κ)) := do
  let outfile ← fopenWriteOr (canon filepath) (createOutfile canon filepath)
  let outfile ← writeChunks outfile chunks
  let closing ← fcloseNoting outfile
  return [closing]

/-- `extractEntry`, with a note of its file. -/
def extractEntryNoting (entry : ZipEntry) : Routine κ (List (Closing κ)) := do
  zipStatIndex
  if entry.size = none ∧ entry.name = none then
    Prog.throw (rrcResultCreateErrorMiscUpdate "ZIP Archive entry contains invalid attributes")
  else
    match entry.name with
    | none => Prog.halt
    | some name =>
      if name.first = 0 then
        Prog.throw (rrcResultCreateErrorMiscUpdate "Empty file name in ZIP archive")
      else if rrUpdateZipEntryPathIsSafe name = false then
        Prog.throw (rrcResultCreateErrorMiscUpdate "ZIP archive entry has an unsafe file path")
      else do
        let size := entry.size.getD 0
        let sdFree ← rrcSdGetFreeSpace
        if size > sdFree then
          Prog.throw (rrcResultCreateErrorMiscUpdate
            s!"Not enough free space on SD card to extract file.\nNeeded: {size} bytes, available: {sdFree} bytes")
        else if name.bytes.getLast? = some slash then return []
        else do
          match ← ask .zipFopen with
          | some _ => extractFileNoting canon name entry.chunks
          | none => Prog.throw (rrcResultCreateErrorMiscUpdate "Failed to open file in ZIP archive")

/-- `extractEntries`, with the notes of all of its files. -/
def extractEntriesNoting (entries : List ZipEntry) : Routine κ (List (Closing κ)) := do
  Prog.forEach entries fun _ => zipStatIndex
  let uncompressedZipsz := (entries.filterMap (·.size)).foldl (· + ·) 0
  let sdFree ← rrcSdGetFreeSpace
  if uncompressedZipsz > sdFree then
    Prog.throw (rrcResultCreateErrorMiscUpdate
      s!"Not enough free space on SD card to extract update.\n(Need {uncompressedZipsz} bytes, have {sdFree} bytes)")
  else Prog.collect entries (extractEntryNoting canon)

/-- `rrc_update_extract_zip_archive`, with the notes: how each file of the archive was
closed. -/
def extractNoting (p : Platform κ) : Routine κ (List (Closing κ)) := do
  let entries ← zipOpen p rrcUpdateZipName
  extractEntriesNoting p.canon entries

/-- Without its notes, the noting extraction of a file is the extraction that the launcher runs. -/
theorem discard_extractFileNoting (filepath : CStr) (chunks : List Chunk) :
    Prog.discard (extractFileNoting canon filepath chunks) = extractFile canon filepath chunks := by
  unfold extractFileNoting extractFile
  simp only [Prog.discard_bind]
  refine bind_congr fun outfile => bind_congr fun outfile => ?_
  exact discard_fcloseNoting outfile

/-- Without its notes, the noting extraction of an entry is the extraction that the launcher runs.
-/
theorem discard_extractEntryNoting (entry : ZipEntry) :
    Prog.discard (extractEntryNoting canon entry) = extractEntry canon entry := by
  unfold extractEntryNoting extractEntry
  rw [Prog.discard_bind]
  refine bind_congr fun _ => ?_
  rw [Prog.discard_ite, Prog.discard_throw]
  congr 1
  cases entry.name with
  | none => rfl
  | some name =>
    simp only [Prog.discard_ite, Prog.discard_bind, Prog.discard_throw, Prog.discard_pure]
    congr 2
    refine bind_congr fun sdFree => ?_
    congr 2
    refine bind_congr fun reply => ?_
    cases reply with
    | none => rfl
    | some n => exact discard_extractFileNoting canon name entry.chunks

/-- **The noting program** is the source's program where the notes are forgotten. -/
theorem discard_extractNoting (p : Platform κ) :
    Prog.discard (extractNoting p) = rrcUpdateExtractZipArchive p := by
  unfold extractNoting rrcUpdateExtractZipArchive
  rw [Prog.discard_bind]
  refine bind_congr fun entries => ?_
  unfold extractEntriesNoting extractEntries
  simp only [Prog.discard_bind, Prog.discard_ite, Prog.discard_throw, Prog.discard_collect,
    discard_extractEntryNoting]

/-! ### What the notes say -/

/-- The files of an archive, as they are named on the card. -/
def cardFiles (entries : List ZipEntry) : List (κ × Bytes) :=
  (archiveFiles entries).map fun file => (canon file.1, file.2)

variable {env : Stdio.Env κ Question}

/-- The file of an entry, or nothing where it has none, is what its notes account for. -/
theorem notes_extractEntryNoting (entry : ZipEntry) :
    Notes env (extractEntryNoting canon entry) (cardFiles canon [entry]) := by
  refine Notes.bind_quiet quiet_zipStatIndex fun _ => ?_
  split
  · exact Notes.of_fails (Fails.throw _) _
  unfold cardFiles archiveFiles ZipEntry.file?
  cases hname : entry.name with
  | none => exact Notes.of_fails Fails.halt _
  | some name =>
    dsimp only
    split
    · exact Notes.of_fails (Fails.throw _) _
    split
    · exact Notes.of_fails (Fails.throw _) _
    refine Notes.bind_quiet quiet_rrcSdGetFreeSpace fun sdFree => ?_
    split
    · exact Notes.of_fails (Fails.throw _) _
    split
    · -- a directory
      rename_i hdir
      simp only [List.filterMap_cons, hname, if_pos hdir, List.filterMap_nil, List.map_nil]
      exact Notes.of_quiet (Quiet.pure _) fun w closings w' hrun => by cases hrun; rfl
    · rename_i hfile
      simp only [List.filterMap_cons, hname, if_neg hfile, List.filterMap_nil, List.map_singleton]
      refine Notes.bind_quiet (Quiet.ask _) ?_
      rintro (_ | n)
      · exact Notes.of_fails (Fails.throw _) _
      · exact Notes.writeFile (Opens.fopenWriteOr (opens_createOutfile canon name))
          (writes_writeChunks _ entry.chunks)

omit [DecidableEq κ] in
/-- The files of an archive are those of its entries, in their order. -/
theorem cardFiles_eq_flatMap (entries : List ZipEntry) :
    cardFiles canon entries = entries.flatMap fun entry => cardFiles canon [entry] := by
  induction entries with
  | nil => rfl
  | cons entry entries ih =>
    rw [List.flatMap_cons, ← ih, cardFiles, cardFiles, cardFiles, ← List.map_append, archiveFiles,
      archiveFiles, archiveFiles, ← List.filterMap_append, List.singleton_append]

/-- **The files of the archive** are those that the notes account for, in the order of its entries.
-/
theorem notes_extractEntriesNoting (entries : List ZipEntry) :
    Notes env (extractEntriesNoting canon entries) (cardFiles canon entries) := by
  refine Notes.bind_quiet (Quiet.forEach _ fun _ => quiet_zipStatIndex) fun _ => ?_
  refine Notes.bind_quiet quiet_rrcSdGetFreeSpace fun sdFree => ?_
  split
  · exact Notes.of_fails (Fails.throw _) _
  · rw [cardFiles_eq_flatMap]
    exact Notes.collect (notes_extractEntryNoting canon)

/-- The archive that was extracted has all its files on the card, each as its last entry
has it, and the other files are as before. -/
def ExtractedAll (p : Platform κ) (card card' : κ → Option Bytes) : Prop :=
  ∃ content entries, card (p.canon rrcUpdateZipName) = some content ∧
    p.openZip content = .ok entries ∧ Complete (cardFiles p.canon entries) card card'

/-- A run that succeeded had an archive, and noted its files. -/
theorem extractNoting_ok {p : Platform κ} {w w' : World κ} {closings : List (Closing κ)}
    (hrun : extractNoting p env w = (.ok closings, w')) :
    ∃ content entries, w.card (p.canon rrcUpdateZipName) = some content ∧
      p.openZip content = .ok entries ∧
      closings.map Closing.given = cardFiles p.canon entries ∧
      w'.card = (Overlay.setAll (closings.map Closing.onCard)).apply w.card := by
  obtain ⟨entries, w₁, hopen, hrest⟩ := Prog.bind_ok hrun
  obtain ⟨content, hcontent, hentries⟩ := zipOpen_ok hopen
  obtain ⟨hgiven, hcard⟩ := notes_extractEntriesNoting p.canon entries w₁ closings w' hrest
  have hquiet : Quiet env (zipOpen p rrcUpdateZipName) := quiet_zipOpen p _
  rw [show w₁.card = w.card by rw [← (hquiet w).1, hopen]] at hcard
  exact ⟨content, entries, hcontent, hentries, hgiven, hcard⟩

/-- **Success means complete** exactly if no file was closed for the last time with bytes
left in its buffer. -/
theorem extract_complete_iff (p : Platform κ) (env : Stdio.Env κ Question) (w : World κ) :
    (∀ w', rrcUpdateExtractZipArchive p env w = (.ok (), w') → ExtractedAll p w.card w'.card) ↔
      ∀ closings w', extractNoting p env w = (.ok closings, w') → LastKept closings := by
  rw [← discard_extractNoting]
  constructor
  · intro h closings w' hrun
    obtain ⟨content, entries, hcontent, hentries, hgiven, hcard⟩ := extractNoting_ok hrun
    obtain ⟨content', entries', hcontent', hentries', hcomplete⟩ :=
      h w' (Prog.discard_ok.mpr ⟨closings, hrun⟩)
    obtain rfl : content = content' := Option.some.inj (hcontent.symm.trans hcontent')
    obtain rfl : entries = entries' := Except.ok.inj (hentries.symm.trans hentries')
    exact (complete_iff_lastKept hgiven hcard).mp hcomplete
  · intro h w' hrun
    obtain ⟨closings, hnoting⟩ := Prog.discard_ok.mp hrun
    obtain ⟨content, entries, hcontent, hentries, hgiven, hcard⟩ := extractNoting_ok hnoting
    exact ⟨content, entries, hcontent, hentries,
      (complete_iff_lastKept hgiven hcard).mpr (h closings w' hnoting)⟩

/-- An archive with one file of one byte. -/
def oneEntryPlatform : Platform CStr where
  canon name := name
  serve _ := []
  openZip _ := .ok [⟨some (CStr.lit "a"), some 1, [.singleton 7]⟩]

/-- A card that fails late: `fwrite` only fills the buffer, none of which reaches the card, and the
write at `fclose` fails.  Asked for its free space it answers 1000 bytes. -/
def lateFailure : Stdio.Env CStr Question
  | _, .fwrite _ => .ok 0
  | _, .fclose _ => .fail EIO 0 0
  | _, _ => .ok 1000

/-- **Where the write at `fclose` fails** the extraction succeeds, and the file is there without its
byte. -/
theorem extract_incomplete :
    ¬ ∀ (p : Platform CStr) (env : Stdio.Env CStr Question) (w w' : World CStr),
      rrcUpdateExtractZipArchive p env w = (.ok (), w') → ExtractedAll p w.card w'.card := by
  intro h
  obtain ⟨_, entries, -, hentries, hwritten, -⟩ := h oneEntryPlatform lateFailure
    ⟨fun path => if path = rrcUpdateZipName then some [] else none, 0, 0, []⟩ _
    (Prod.ext (by decide +kernel) rfl)
  obtain rfl := Except.ok.inj hentries
  have ha := hwritten [] (CStr.lit "a", [7]) [] (by decide +kernel) (by simp)
  revert ha
  decide +kernel

end RrLauncher
