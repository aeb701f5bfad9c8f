/-
# Doing the updates

`rrc_update_do_updates_with_state` of `update.c`: for each update the archive is
downloaded, extracted and removed, the files that the update deletes are removed,
and at last `version.txt` is written.

What the loop does for one update before it writes the version is one overlay of
the card (`effectAt_installFiles`), whatever was on it.
-/

import RrLauncher.Update.Archive
import RrLauncher.Update.VersionFile
import RrLauncher.Update.Versionsfile

namespace RrLauncher

open Stdio

variable {κ : Type} [DecidableEq κ]

/-- `CURLE_FAILED_INIT`. -/
def CURLE_FAILED_INIT : ℤ := 2

/-- `CURLE_WRITE_ERROR`. -/
def CURLE_WRITE_ERROR : ℤ := 23

/-- What `rrc_update_do_updates_with_state` uses of `struct rrc_update_state`:
`update_urls` and `update_versions` side by side. -/
structure RrcUpdateState where
  currentUpdateNum : ℕ
  updates : List (RrcVersion × CStr)
  deletedFiles : List (RrcVersion × CStr)

/-- `curl_easy_perform` with `_rrc_zipdl_write_data_callback`: what went wrong, if
anything did, and the file. -/
def curlPerform (url : CStr) (fp : File κ) : List Bytes → Routine κ (Option ℤ × File κ)
  | [] => do
    match ← ask (.httpReceive url.bytes) with
    | some _ => return (none, fp)
    | none => return (some (Int.ofNat (← Prog.getErrno)), fp)
  | piece :: pieces => do
    match ← ask (.httpReceive url.bytes) with
    | some _ => do
      let (written, fp) ← fwrite fp piece
      if written ≠ piece.length then return (some CURLE_WRITE_ERROR, fp)
      else curlPerform url fp pieces
    | none => return (some (Int.ofNat (← Prog.getErrno)), fp)

/-- What `rrc_update_download_zip` returns for the result of curl. -/
def downloadResult : Option ℤ → Routine κ Unit
  | some cres => Prog.throw (rrcResultCreateErrorCurl cres "Failed to download update ZIP")
  | none => return ()

/-- `rrc_update_download_zip`. -/
def rrcUpdateDownloadZip (p : Platform κ) (url filename : CStr) : Routine κ Unit := do
  match ← ask .httpInit with
  | none => Prog.throw (rrcResultCreateErrorCurl CURLE_FAILED_INIT "Failed to init curl")
  | some _ => do
    let fp ← fopenWriteOr (p.canon filename)
      (failErrno "Failed to create temporary ZIP file for update download")
    let r ← curlPerform url fp (p.serve url)
    let _ ← fclose r.2
    downloadResult r.1

/-- `_rrc_update_get_zip_size`, as an `unsigned long long`. -/
def rrcUpdateGetZipSize (url : CStr) : Routine κ UInt64 := do
  match ← ask (.httpSize url.bytes) with
  | some zipsz => return UInt64.ofNat zipsz
  | none =>
    Prog.throw (rrcResultCreateErrorCurl (← Prog.getErrno) "Failed to get update ZIP size")

/-- `remove` of the archive, which is no longer needed. -/
def removeZip (p : Platform κ) : Routine κ Unit := do
  if ← remove (p.canon rrcUpdateZipName) then return ()
  else failErrno "Failed to remove temporary update file"

/-- `remove` of a deleted file. -/
def removeDeletedFile (p : Platform κ) (path : CStr) : Routine κ Unit := do
  if ← remove (p.canon path) then return ()
  else do
    let eno ← Prog.getErrno
    if eno ≠ ENOENT then
      Prog.throw (rrcResultCreateErrorErrno eno "Failed to remove deleted file for update")
    else return ()

/-- The loop over the deleted files for the update to `version`. -/
def removeDeletedFiles (p : Platform κ) (deletedFiles : List (RrcVersion × CStr))
    (version : RrcVersion) : Routine κ Unit :=
  Prog.forEach deletedFiles fun file =>
    if rrcVersionEquals file.1 version then removeDeletedFile p file.2 else return ()

/-- What the loop of `rrc_update_do_updates_with_state` does for an update before it
writes the version. -/
def installFiles (p : Platform κ) (deletedFiles : List (RrcVersion × CStr))
    (update : RrcVersion × CStr) : Routine κ Unit := do
  let _ ← ask .shutdown
  let zipsz ← rrcUpdateGetZipSize update.2
  let sdFree ← rrcSdGetFreeSpace
  if zipsz > sdFree then
    Prog.throw (rrcResultCreateErrorMiscUpdate
      s!"Not enough free space on SD card for update ZIP.\nNeeded: {zipsz} bytes, available: {sdFree} bytes")
  else do
    rrcUpdateDownloadZip p update.2 rrcUpdateZipName
    match ← ask .stat with
    | none => failErrno "Failed to stat update ZIP file"
    | some _ => do
      rrcUpdateExtractZipArchive p
      removeZip p
      removeDeletedFiles p deletedFiles update.1

/-- A turn of the loop of `rrc_update_do_updates_with_state`. -/
def doUpdate (p : Platform κ) (deletedFiles : List (RrcVersion × CStr))
    (update : RrcVersion × CStr) : Routine κ Unit := do
  installFiles p deletedFiles update
  rrcUpdateSetCurrentVersion p.canon update.1

/-- `rrc_update_do_updates_with_state`. -/
def rrcUpdateDoUpdatesWithState (p : Platform κ) (state : RrcUpdateState) : Routine κ Unit :=
  Prog.forEach (state.updates.drop state.currentUpdateNum) (doUpdate p state.deletedFiles)

/-! ### What an update does -/

/-- The bytes that the server sends for a URL. -/
def Platform.download (p : Platform κ) (url : CStr) : Bytes := (p.serve url).flatten

/-- The files in the archive of an update, in order. -/
def Platform.updateFiles (p : Platform κ) (update : RrcVersion × CStr) : List (CStr × Bytes) :=
  match p.openZip (p.download update.2) with
  | .ok entries => archiveFiles entries
  | .error _ => []

/-- The paths that an update deletes. -/
def deletedPaths (deletedFiles : List (RrcVersion × CStr)) (version : RrcVersion) : List CStr :=
  deletedFiles.filterMap fun file =>
    if rrcVersionEquals file.1 version then some file.2 else none

/-- The overlay of the files of an archive. -/
def filesOverlay (p : Platform κ) (files : List (CStr × Bytes)) : Overlay κ (Option Bytes) :=
  Overlay.seqAll (files.map fun file => Overlay.single (p.canon file.1) (some file.2))

/-- The overlay of the paths that are deleted. -/
def deletionsOverlay (p : Platform κ) (paths : List CStr) : Overlay κ (Option Bytes) :=
  Overlay.seqAll (paths.map fun path => Overlay.single (p.canon path) none)

/-- What an update does to the card before the version is written. -/
def installOverlay (p : Platform κ) (deletedFiles : List (RrcVersion × CStr))
    (update : RrcVersion × CStr) : Overlay κ (Option Bytes) :=
  (Overlay.single (p.canon rrcUpdateZipName) (some (p.download update.2))).seq
    ((filesOverlay p (p.updateFiles update)).seq
      ((Overlay.single (p.canon rrcUpdateZipName) none).seq
        (deletionsOverlay p (deletedPaths deletedFiles update.1))))

/-- What is logged of the files of an update: each was written as a whole, the archive
was removed, and so was each path that the update deletes. -/
def installEvents (p : Platform κ) (deletedFiles : List (RrcVersion × CStr))
    (update : RrcVersion × CStr) : List (Event κ) :=
  (p.updateFiles update).map (fun file => .wrote (p.canon file.1) file.2) ++
    .removed (p.canon rrcUpdateZipName) ::
      (deletedPaths deletedFiles update.1).map fun path => .removed (p.canon path)

variable {env : Stdio.Env κ Question} (p : Platform κ)

/-- What curl is sent, the file is given, piece by piece, and a prefix of it where curl fails. -/
theorem fills_curlPerform (url : CStr) (fp : File κ) (pieces : List Bytes) :
    Fills env (curlPerform url fp pieces) fp pieces.flatten := by
  induction pieces generalizing fp with
  | nil =>
    refine Fills.bind_quiet (Quiet.ask _) ?_
    rintro (_ | n)
    · exact Fills.of_reports (Reports.errno _ fp) _
    · exact Fills.pure fp
  | cons piece pieces ih =>
    refine Fills.bind_quiet (Quiet.ask _) ?_
    rintro (_ | n)
    · exact Fills.of_reports (Reports.errno _ fp) _
    rw [List.flatten_cons]
    refine Fills.fwrite (fun n file' hn => ?_) fun file' => ?_
    · simp only [if_pos hn]
      exact Reports.pure _ file'
    · simp only [ne_eq, not_true_eq_false, if_false]
      exact ih file'

/-- **The download** sets the contents of its file to what the server sends, and changes no other
file. -/
theorem effect_rrcUpdateDownloadZip (hcloses : env.Closes) (url filename : CStr) :
    Effect env (rrcUpdateDownloadZip p url filename)
      (Overlay.single (p.canon filename) (some (p.download url)))
      [.wrote (p.canon filename) (p.download url)] := by
  refine Effect.bind_quiet (Quiet.ask _) ?_
  rintro (_ | n)
  · exact (Fails.throw _).effect _ _
  · exact Effect.fillFile (Opens.fopenWriteOr (Opens.of_fails (fails_failErrno _) _))
      (fills_curlPerform url _ (p.serve url)) (Quiet.pure ()) (fun e => Fails.throw _)
      (fun n => hcloses n _)

/-- Removing the archive has one effect: the file is gone from the card, and the log says that it
was removed. -/
theorem effect_removeZip :
    Effect env (removeZip p) (Overlay.single (p.canon rrcUpdateZipName) none)
      [.removed (p.canon rrcUpdateZipName)] := by
  refine Effect.remove ?_ fun w a _ => (fails_failErrno _).stops w a
  rintro (_ | _)
  · exact (fails_failErrno _).quiet
  · exact Quiet.pure ()

/-- Removing a file of the list has one effect: the file is gone from the card, and the log says
that it was removed. That it was not there to begin with is no error. -/
theorem effect_removeDeletedFile (path : CStr) :
    Effect env (removeDeletedFile p path) (Overlay.single (p.canon path) none)
      [.removed (p.canon path)] := by
  refine Effect.remove ?_ fun w a hne => ?_
  · rintro (_ | _)
    · refine Quiet.getErrno.bind fun eno => ?_
      split
      · exact (Fails.throw _).quiet
      · exact Quiet.pure ()
    · exact Quiet.pure ()
  · simp [Prog.bind_run, Prog.getErrno, hne, Prog.throw]

/-- **The deletions** of an update remove what it deletes, file by file, and change nothing else. -/
theorem effect_removeDeletedFiles (deletedFiles : List (RrcVersion × CStr)) (version : RrcVersion) :
    Effect env (removeDeletedFiles p deletedFiles version)
      (deletionsOverlay p (deletedPaths deletedFiles version))
      ((deletedPaths deletedFiles version).map fun path => .removed (p.canon path)) := by
  refine Effect.forEach_filterMap deletedFiles _ (fun file path h => ?_) fun file h => ?_
  · split at h
    · rename_i heq
      obtain rfl := Option.some.inj h
      rw [if_pos heq]
      exact effect_removeDeletedFile p file.2
    · cases h
  · split at h
    · cases h
    · rename_i hne
      rw [if_neg hne]
      exact Quiet.pure ()

omit [DecidableEq κ] in
/-- Asking the server for the size of an archive changes nothing on the card. -/
theorem quiet_rrcUpdateGetZipSize (url : CStr) :
    Quiet env (rrcUpdateGetZipSize url : Routine κ UInt64) := by
  refine (Quiet.ask _).bind ?_
  rintro (_ | n)
  · exact Quiet.getErrno.bind fun _ => (Fails.throw _).quiet
  · exact Quiet.pure _

/-- **The files of an update**: whatever was on the card, what the archive writes and
the update deletes is set. -/
theorem effectAt_installFiles (hcloses : env.Closes) (deletedFiles : List (RrcVersion × CStr))
    (update : RrcVersion × CStr) (w : World κ) :
    EffectAt env (installFiles p deletedFiles update) w (installOverlay p deletedFiles update)
      (.wrote (p.canon rrcUpdateZipName) (p.download update.2) ::
        installEvents p deletedFiles update) := by
  refine EffectAt.bind_quiet (Quiet.ask _) fun _ w₁ _ _ => ?_
  refine EffectAt.bind_quiet (quiet_rrcUpdateGetZipSize _) fun zipsz w₂ _ _ => ?_
  refine EffectAt.bind_quiet quiet_rrcSdGetFreeSpace fun sdFree w₃ _ _ => ?_
  split
  · exact (Fails.throw _).effect _ _ w₃
  have hdownload := effect_rrcUpdateDownloadZip p hcloses update.2 rrcUpdateZipName w₃
  refine hdownload.bind fun _ w₄ hrun => ?_
  have hcard : w₄.card (p.canon rrcUpdateZipName) = some (p.download update.2) := by
    rw [(hdownload.done _ w₄ hrun).1, Overlay.apply_single, Function.update_self]
  refine EffectAt.bind_quiet (Quiet.ask _) fun answer w₅ _ hsame => ?_
  cases answer with
  | none => exact (fails_failErrno _).effect _ _ w₅
  | some n =>
    rw [← hsame] at hcard
    refine (effectAt_rrcUpdateExtractZipArchive hcloses hcard fun entries hopen => ?_).bind
      fun _ w₆ _ => ((effect_removeZip p).bind fun _ => effect_removeDeletedFiles p _ _) w₆
    rw [Platform.updateFiles, hopen]

end RrLauncher
