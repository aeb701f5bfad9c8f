/-
# From the document to the bytes

The loader publishes what the document says, and the runtime, which finds this in the memory of the
game, opens and reads files of the card for it.  Together, a game that opens a path that the document
replaces reads the bytes of the file that the last registration gives for it
(`document_game_reads`).
-/

import RrLauncher.Runtime.GameReads
import RrLauncher.Runtime.Launched

namespace RrLauncher

open CStr (lit)
open Mem1 (LoaderState FileReplacement start run publish storeDisc)

/-- **The game reads what the document says.**  In a memory that keeps what was published, in every
run from the call on that opens a path that is replaced, until its `FileInfo` is closed, the
`FileInfo` has the size of the file that the path is replaced by, and a read within 32 bits
returns and puts the bytes of this file from its offset on into the buffer, up to its end. -/
theorem document_game_reads {src : PatchSource} {qsort : List FileReplacement → List FileReplacement}
    {settings : RrcSettingsfile} {mem₀ mem : Memory} {mem1 : UInt32} {s : LoaderState}
    {published : Mem1.RrcRiivoDisc} (haligned : 32 ∣ mem1.toNat) (hqsort : SortsByHash qsort)
    (hpublish : publish qsort
      (run src.onCard (start mem₀ mem1) (src.documentWalk settings).steps) = some (s, published))
    (hfits : s.arena.Fits) (hneeded : src.entriesNeeded settings ≤ maxMemoryPatches)
    (hkeeps : Keeps mem1 s published mem) {disc : LoadedDisc}
    (hdisc : disc.toRrcRiivoDisc = runtimeDisc mem s.sdFiles.length) {card : SdCard} {layout : Layout}
    {bytes : ℕ → UInt8} {entries : CStr → DirEntry} {clusters : CStr → List ℕ}
    (hcard : card.Holds disc bytes entries clusters) {first opening opened later : GameState}
    (hstart : first.Start disc bytes) {before after : List Call}
    (hbefore : GameRun card layout disc first before opening) {path external : CStr}
    (hreplaced : replacedBy src.onCard (src.registrations settings) path = some external)
    {fi : FileInfoPtr} {buffer : ℕ → UInt8} {replies : List SdReply}
    (hopen : GameStep card layout disc opening (.open path fi) buffer replies opened)
    (hafter : GameRun card layout disc opened after later) (hkept : .close fi ∉ after) :
    (later.sys.rt.fileInfos fi).length.toNat = (entries external).fileSize ∧
    ∀ length offset, Call.InRange later.sys (.readPrio fi length offset) → ∀ buffer,
      (∃ s', GameStep card layout disc later (.readPrio fi length offset) buffer
        (readReplies buffer length offset (entries external).fileSize
          (card.partition.fileByte bytes (clusters external))) s') ∧
      ∀ replies s', GameStep card layout disc later (.readPrio fi length offset) buffer
          replies s' →
        replies = readReplies buffer length offset (entries external).fileSize
          (card.partition.fileByte bytes (clusters external)) := by
  obtain ⟨hfinds, -⟩ := finds_published haligned hqsort hpublish hfits hneeded hkeeps
  have hfound := hfinds path
  rw [hreplaced, ← hdisc] at hfound
  obtain ⟨e, htarget, hpath⟩ := hfound
  obtain ⟨hinv, huse⟩ := hbefore.opened hcard hstart hopen htarget hafter hkept
  exact ⟨hinv.length_eq huse hpath, fun length offset hrange buffer =>
    hinv.reads hcard huse hpath hrange buffer⟩

/-- From the document that replaces the course to a read across the clusters of its file. -/
theorem document_game_reads_course :
    ∃ s published, publish sortByHash (run courseLaunch.patches.onCard (start dvdGame 0x81756900)
        (courseLaunch.patches.documentWalk ⟨0, 0, 1⟩).steps) = some (s, published) ∧
      runtimeDisc (storeDisc s.arena.mem published) s.sdFiles.length = replacedCourse.toRrcRiivoDisc ∧
      ∃ opened s', GameStep courseCard courseLayout replacedCourse courseStart
          (.open (lit "course.szs") 0) (fun _ => 0) [.opened (courseLayout.fileStruct 0) 2500] opened ∧
        GameStep courseCard courseLayout replacedCourse opened (.readPrio 0 1400 1000) (fun _ => 0)
          (readReplies (fun _ => 0) 1400 1000 courseEntry.fileSize
            (coursePartition.fileByte cardOfCourse.bytes [2, 4, 3])) s' := by
  have hsome : (publish sortByHash (run courseLaunch.patches.onCard (start dvdGame 0x81756900)
      (courseLaunch.patches.documentWalk ⟨0, 0, 1⟩).steps)).isSome := by decide +kernel
  have hall : (publish sortByHash (run courseLaunch.patches.onCard (start dvdGame 0x81756900)
      (courseLaunch.patches.documentWalk ⟨0, 0, 1⟩).steps)).all fun out =>
        let riivoDisc := runtimeDisc (storeDisc out.1.arena.mem out.2) out.1.sdFiles.length
        decide ((∀ al ∈ out.1.arena.allocations, al.Fits) ∧
          riivoDisc.sdFiles = replacedCourse.sdFiles ∧
          riivoDisc.filenameReplacements = replacedCourse.filenameReplacements ∧
          riivoDisc.replacements = replacedCourse.replacements) := by
    decide +kernel
  obtain ⟨⟨s, published⟩, hpublish⟩ := Option.isSome_iff_exists.mp hsome
  rw [hpublish] at hall
  obtain ⟨hfits, hsdFiles, hfilenames, hreplacements⟩ := of_decide_eq_true hall
  have hdisc : runtimeDisc (storeDisc s.arena.mem published) s.sdFiles.length =
      replacedCourse.toRrcRiivoDisc := by
    generalize runtimeDisc (storeDisc s.arena.mem published) s.sdFiles.length = riivoDisc at *
    cases riivoDisc
    cases hsdFiles
    cases hfilenames
    cases hreplacements
    rfl
  have hkeeps : Keeps 0x81756900 s published (storeDisc s.arena.mem published) := by
    refine ⟨fun a _ hlt => Mem1.storeDisc_of_outside _ _ fun hin => ?_, Mem1.storeDisc_words _ _⟩
    have hbounds := Memory.bounds_of_inRange hin (by decide)
    have hptr : rrcRiivoDiscPtr.toNat = 0x81782fa0 := rfl
    have hmem1 : (0x81756900 : UInt32).toNat = 0x81756900 := rfl
    omega
  obtain ⟨opened, hopen⟩ := courseStart_opens
  have hreplaced : replacedBy courseLaunch.patches.onCard (courseLaunch.patches.registrations ⟨0, 0, 1⟩)
      (lit "course.szs") = some (lit "/a.szs") := by decide +kernel
  obtain ⟨hlength, hreads⟩ := document_game_reads (by decide) sortsByHash hpublish
    hfits (by decide +kernel) hkeeps hdisc.symm courseCard_holds courseStart_start .nil
    hreplaced hopen .nil List.not_mem_nil
  obtain ⟨⟨s', hread⟩, -⟩ := hreads 1400 1000 (inRange_course hlength) fun _ => 0
  exact ⟨s, published, hpublish, hdisc, opened, s', hopen, hread⟩

end RrLauncher
