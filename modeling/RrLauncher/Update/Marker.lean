/-
# The version and the files

`version.txt` says which update was installed last.  It is written after the files of
the update, so it does not run ahead of them (`version_never_ahead`): wherever
`rrc_update_do_updates_with_state` stops, if the file has the version of one of the
updates, then this update's files were all written and its deletions made.

Three things can break this, and each is left to the publisher or the card: an archive
that writes to `version.txt` itself, a write of `version.txt` that the card tears, and
an `fclose` that fails, whose result the source does not look at
(`version_can_run_ahead`).
-/

import RrLauncher.Update.Resume
import Mathlib.Data.List.Nodup

namespace RrLauncher

open Stdio

variable {κ : Type} [DecidableEq κ] {env : Stdio.Env κ Question} {p : Platform κ}

/-- Removing a file of the list leaves each file of the card as it was, or deletes it. -/
theorem keepsAt_removeDeletedFile (path : CStr) (w : World κ) (k : κ) :
    KeepsAt env (removeDeletedFile p path) w k := by
  refine (KeepsAt.remove _ w).bind fun removed w₁ _ => KeepsAt.of_quiet ?_
  cases removed with
  | true => exact Quiet.pure ()
  | false =>
    refine Quiet.getErrno.bind fun eno => ?_
    split
    · exact (Fails.throw _).quiet
    · exact Quiet.pure ()

/-- **Before the version is written** it is as before, or deleted. -/
theorem keepsAt_installFiles (hcloses : env.Closes)
    (hnames : p.canon rrcVersionfile ≠ p.canon rrcUpdateZipName) (update : RrcVersion × CStr)
    (hfiles : ∀ file ∈ p.updateFiles update, p.canon file.1 ≠ p.canon rrcVersionfile)
    (deletedFiles : List (RrcVersion × CStr)) (w : World κ) :
    KeepsAt env (installFiles p deletedFiles update) w (p.canon rrcVersionfile) := by
  refine (KeepsAt.of_quiet (Quiet.ask _)).bind fun _ w₁ _ => ?_
  refine (KeepsAt.of_quiet (quiet_rrcUpdateGetZipSize _)).bind fun zipsz w₂ _ => ?_
  refine (KeepsAt.of_quiet quiet_rrcSdGetFreeSpace).bind fun sdFree w₃ _ => ?_
  split
  · exact KeepsAt.of_quiet (Fails.throw _).quiet
  have hdownload := effect_rrcUpdateDownloadZip p hcloses update.2 rrcUpdateZipName w₃
  refine (KeepsAt.of_effectAt hdownload (if_neg hnames)).bind fun _ w₄ hrun => ?_
  have hcard : w₄.card (p.canon rrcUpdateZipName) = some (p.download update.2) := by
    rw [(hdownload.done _ w₄ hrun).1, Overlay.apply_single, Function.update_self]
  refine (KeepsAt.of_quiet (Quiet.ask _)).bind fun answer w₅ hstat => ?_
  have hsame : w₅.card = w₄.card := by rw [← ((Quiet.ask _) w₄).1, hstat]
  cases answer with
  | none => exact KeepsAt.of_quiet (fails_failErrno _).quiet
  | some n =>
    rw [← hsame] at hcard
    have hextract := effectAt_rrcUpdateExtractZipArchive hcloses hcard fun entries hopen =>
      (show archiveFiles entries = p.updateFiles update by rw [Platform.updateFiles, hopen])
    refine (KeepsAt.of_effectAt hextract (filesOverlay_eq_none hfiles)).bind fun _ w₆ _ => ?_
    refine (KeepsAt.of_effectAt (effect_removeZip p w₆) (if_neg hnames)).bind fun _ w₇ _ => ?_
    refine KeepsAt.forEach _ (fun file w => ?_) w₇
    split
    · exact keepsAt_removeDeletedFile file.2 w _
    · exact KeepsAt.of_quiet (Quiet.pure ())

/-- **An update that stops** left the version as it was, or deleted. -/
theorem doUpdate_stopped_version (henv : AtomicVersion p env)
    (hnames : p.canon rrcVersionfile ≠ p.canon rrcUpdateZipName) {update : RrcVersion × CStr}
    (hfiles : ∀ file ∈ p.updateFiles update, p.canon file.1 ≠ p.canon rrcVersionfile)
    {deletedFiles : List (RrcVersion × CStr)} {w w' : World κ} {stop : Stop RrcResultError}
    (h : doUpdate p deletedFiles update env w = (.error stop, w')) :
    w'.card (p.canon rrcVersionfile) = w.card (p.canon rrcVersionfile) ∨
      w'.card (p.canon rrcVersionfile) = none := by
  have hkeeps := keepsAt_installFiles henv.closes hnames update hfiles deletedFiles w
  unfold KeepsAt at hkeeps
  rw [doUpdate, Prog.bind_run] at h
  split at h
  · rename_i u w₁ hrun
    rw [hrun] at hkeeps
    have hatomic := rrcUpdateSetCurrentVersion_atomic henv update.1 w₁
    rw [h] at hatomic
    rcases hatomic with hok | ⟨hcard, -⟩
    · cases hok
    · rw [show w'.card = w₁.card from hcard]
      exact hkeeps
  · rename_i stop' w₁ hrun
    cases h
    rw [hrun] at hkeeps
    exact hkeeps

/-- The version after some updates is that of one that was done. -/
theorem mem_of_lastVersion {updates done : List (RrcVersion × CStr)} {start : RrcVersion}
    (hdistinct : (updates.map (·.1)).Nodup)
    (hnewer : ∀ update ∈ updates, rrcVersionIsOlder start update.1 = true) (hdone : done ⊆ updates)
    {update : RrcVersion × CStr} (h : update ∈ updates) (hlast : lastVersion start done = update.1) :
    update ∈ done := by
  rcases List.eq_nil_or_concat done with rfl | ⟨before, last, rfl⟩
  · have hstart := hnewer update h
    rw [← hlast] at hstart
    exact absurd hstart (by rw [lastVersion]; simp [rrcVersionIsOlder_irrefl])
  rw [List.concat_eq_append] at hlast hdone ⊢
  rw [lastVersion, List.getLast?_concat] at hlast
  have hmem : last ∈ before ++ [last] := by simp
  rwa [List.inj_on_of_nodup_map hdistinct h (hdone hmem) hlast.symm]

omit [DecidableEq κ] in
/-- What was logged of an update that was done stands in the log in one piece. -/
theorem installEvents_inside {deletedFiles done : List (RrcVersion × CStr)}
    {update : RrcVersion × CStr} (h : update ∈ done) :
    installEvents p deletedFiles update <:+: done.flatMap fun update =>
      (.wrote (p.canon rrcUpdateZipName) (p.download update.2) ::
        installEvents p deletedFiles update) ++
          [.wrote (p.canon rrcVersionfile) (versionRender update.1)] := by
  obtain ⟨before, rest, rfl⟩ := List.append_of_mem h
  rw [List.flatMap_append, List.flatMap_cons]
  exact List.IsInfix.trans ⟨[_], [_], rfl⟩ (List.infix_append' _ _ _)

/-- **The version never runs ahead of the files.**  Wherever the updates stop, if
`version.txt` has the version of one of them, then in this run each file of its archive
was written as a whole, in order, and each of its deletions was made.  No archive has an entry
that is `version.txt`, or `rr.update.zip`: an archive that is overwritten while it is read is none
that the model follows, since it has the entries that it had when it was opened. -/
theorem version_never_ahead (p : Platform κ) {env : Stdio.Env κ Question} (henv : AtomicVersion p env)
    (hnames : p.canon rrcVersionfile ≠ p.canon rrcUpdateZipName) (state : RrcUpdateState)
    (hfiles : ∀ update ∈ state.updates, ∀ file ∈ p.updateFiles update,
      p.canon file.1 ≠ p.canon rrcVersionfile ∧ p.canon file.1 ≠ p.canon rrcUpdateZipName)
    (hdistinct : (state.updates.map (·.1)).Nodup) {w : World κ} {start : RrcVersion}
    (hstart : parsedVersion (w.card (p.canon rrcVersionfile)) = some start)
    (hnewer : ∀ update ∈ state.updates, rrcVersionIsOlder start update.1 = true) :
    let run := rrcUpdateDoUpdatesWithState p state env w
    ∃ events, run.2.log = w.log ++ events ∧ ∀ update ∈ state.updates,
      parsedVersion (run.2.card (p.canon rrcVersionfile)) = some update.1 →
        installEvents p state.deletedFiles update <:+: events := by
  intro run
  obtain ⟨done, w₂, hdone, hend⟩ := Prog.forEach_cases
    (state.updates.drop state.currentUpdateNum) (doUpdate p state.deletedFiles) env w
  obtain ⟨hcard, hlog⟩ := ((Effect.forEach done fun update _ =>
    effectAt_doUpdate (p := p) henv.closes state.deletedFiles update) w).done _ w₂ hdone
  have hversion : parsedVersion (w₂.card (p.canon rrcVersionfile)) = some (lastVersion start done) := by
    rw [hcard, ← installed_eq_apply]
    exact parsedVersion_installed hstart _ done
  have hinfix : done ⊆ state.updates → ∀ w' : World κ, (∃ more, w'.log = w₂.log ++ more) →
      (w'.card (p.canon rrcVersionfile) = w₂.card (p.canon rrcVersionfile) ∨
        w'.card (p.canon rrcVersionfile) = none) →
      ∃ events, w'.log = w.log ++ events ∧ ∀ update ∈ state.updates,
        parsedVersion (w'.card (p.canon rrcVersionfile)) = some update.1 →
          installEvents p state.deletedFiles update <:+: events := by
    rintro hsub w' ⟨more, hmore⟩ hkept
    refine ⟨_, by rw [hmore, hlog, List.append_assoc], fun update hupdate hrecorded => ?_⟩
    rcases hkept with hsame | hnone
    · rw [hsame, hversion] at hrecorded
      have hmem := mem_of_lastVersion hdistinct hnewer hsub hupdate (Option.some.inj hrecorded)
      exact (installEvents_inside hmem).trans (List.prefix_append _ _).isInfix
    · rw [hnone] at hrecorded
      cases hrecorded
  rcases hend with ⟨hall, hok⟩ | ⟨update, rest, stop, w', hsplit, hstopped, herror⟩
  · have hsub : done ⊆ state.updates := hall ▸ List.drop_subset _ _
    rw [show run = (.ok (), w₂) from hok]
    exact hinfix hsub w₂ ⟨[], (List.append_nil _).symm⟩ (Or.inl rfl)
  · have hdrop : ∀ update' ∈ done ++ update :: rest, update' ∈ state.updates :=
      fun update' h => List.drop_subset _ _ (hsplit ▸ h)
    have hgrows := (effectAt_doUpdate (p := p) henv.closes state.deletedFiles update w₂).grows
    rw [hstopped] at hgrows
    obtain ⟨more, hmore⟩ := hgrows
    rw [show run = (.error stop, w') from herror]
    refine hinfix (fun update' h => hdrop update' (List.mem_append_left _ h)) w' ⟨more, hmore.symm⟩ ?_
    exact doUpdate_stopped_version henv hnames
      (fun file hfile => (hfiles update (hdrop update (by simp)) file hfile).1) hstopped

/-- A server with two updates: the archive of the first one has the file `a`, that of the second
one the file `c`. -/
def twoUpdatesPlatform : Platform CStr where
  canon := id
  serve url := if url = CStr.lit "u" then [[1]] else [[2]]
  openZip zip := .ok (if zip = [1] then [⟨some (CStr.lit "a"), some 1, [.singleton 7]⟩]
    else [⟨some (CStr.lit "c"), some 1, [.singleton 9]⟩])

/-- The updates to 1.0.1, which deletes `b`, and to 1.0.2, which deletes `d`. -/
def markedUpdates : RrcUpdateState where
  currentUpdateNum := 0
  updates := [(⟨Decimal.saturate 1, Decimal.saturate 0, Decimal.saturate 1⟩, CStr.lit "u"),
    (⟨Decimal.saturate 1, Decimal.saturate 0, Decimal.saturate 2⟩, CStr.lit "v")]
  deletedFiles := [(⟨Decimal.saturate 1, Decimal.saturate 0, Decimal.saturate 1⟩, CStr.lit "b"),
    (⟨Decimal.saturate 1, Decimal.saturate 0, Decimal.saturate 2⟩, CStr.lit "d")]

/-- The power is lost in the middle of `c`. -/
def stoppedUpdates : Except (Stop RrcResultError) Unit × World CStr :=
  rrcUpdateDoUpdatesWithState twoUpdatesPlatform markedUpdates (stopAt (CStr.lit "c"))
    ⟨cardOf100, 0, 0, []⟩

/-- So `version.txt` has 1.0.1, and what the log says of this update is that `a` was written, the
archive removed and `b` deleted. -/
theorem version_never_ahead_102 :
    stoppedUpdates.1.isOk = false ∧ stoppedUpdates.2.card (CStr.lit "c") = some [] ∧
      stoppedUpdates.2.card (CStr.lit "d") = some [0] ∧
      [.wrote (CStr.lit "a") [7], .removed rrcUpdateZipName, .removed (CStr.lit "b")] <:+:
        stoppedUpdates.2.log := by
  have hu : twoUpdatesPlatform.updateFiles
      (⟨Decimal.saturate 1, Decimal.saturate 0, Decimal.saturate 1⟩, CStr.lit "u") =
        [(CStr.lit "a", [7])] := by
    decide +kernel
  have hv : twoUpdatesPlatform.updateFiles
      (⟨Decimal.saturate 1, Decimal.saturate 0, Decimal.saturate 2⟩, CStr.lit "v") =
        [(CStr.lit "c", [9])] := by
    decide +kernel
  have hfiles : ∀ update ∈ markedUpdates.updates, ∀ file ∈ twoUpdatesPlatform.updateFiles update,
      twoUpdatesPlatform.canon file.1 ≠ twoUpdatesPlatform.canon rrcVersionfile ∧
        twoUpdatesPlatform.canon file.1 ≠ twoUpdatesPlatform.canon rrcUpdateZipName := by
    rw [markedUpdates, List.forall_mem_cons, List.forall_mem_singleton, hu, hv,
      List.forall_mem_singleton, List.forall_mem_singleton]
    decide +kernel
  have hstart : parsedVersion (cardOf100 rrcVersionfile) =
      some ⟨Decimal.saturate 1, Decimal.saturate 0, Decimal.saturate 0⟩ := by
    decide +kernel
  have hdistinct : (markedUpdates.updates.map (·.1)).Nodup := by decide +kernel
  have hnewer : ∀ update ∈ markedUpdates.updates, rrcVersionIsOlder
      ⟨Decimal.saturate 1, Decimal.saturate 0, Decimal.saturate 0⟩ update.1 = true := by
    decide +kernel
  obtain ⟨events, hlog, hinfix⟩ := version_never_ahead twoUpdatesPlatform
    (stopAt_atomic (show rrcVersionfile ≠ CStr.lit "c" by decide)) (by decide) markedUpdates hfiles
    hdistinct (w := ⟨cardOf100, 0, 0, []⟩) hstart hnewer
  have hpaths : deletedPaths markedUpdates.deletedFiles
      ⟨Decimal.saturate 1, Decimal.saturate 0, Decimal.saturate 1⟩ = [CStr.lit "b"] := by
    decide +kernel
  have hmem : (⟨Decimal.saturate 1, Decimal.saturate 0, Decimal.saturate 1⟩, CStr.lit "u") ∈
      markedUpdates.updates :=
    List.mem_cons_self ..
  have hdone := hinfix _ hmem (by decide +kernel)
  rw [installEvents, hu, hpaths] at hdone
  refine ⟨by decide +kernel, by decide +kernel, by decide +kernel, ?_⟩
  rw [stoppedUpdates, hlog]
  exact hdone

/-- A server whose archive has `version.txt` before the file `a`. -/
def markerPlatform : Platform CStr where
  canon name := if name = CStr.lit "RetroRewind6/version.txt" then rrcVersionfile else name
  serve _ := [[1]]
  openZip _ := .ok
    [⟨some (CStr.lit "RetroRewind6/version.txt"), some 5,
      [⟨(CStr.lit "1.0.1").bytes, List.cons_ne_nil _ _, by decide⟩]⟩,
      ⟨some (CStr.lit "a"), some 1, [.singleton 7]⟩]

/-- The write of `version.txt` is torn after five bytes. -/
def tornVersion : Stdio.Env CStr Question
  | _, .fwrite path => if path = rrcVersionfile then .halt 5 else .ok 1000
  | _, _ => .ok 1000

/-- The `fclose` of `a` fails, and nothing of the buffer reaches the card. -/
def failingFclose : Stdio.Env CStr Question
  | _, .fwrite path => if path = CStr.lit "a" then .ok 0 else .ok 1000
  | _, .fclose path => if path = CStr.lit "a" then .fail EIO 0 0 else .ok 1000
  | _, _ => .ok 1000

/-- **The version can run ahead.**  Installed is 1.0.0, and `a` has one byte in each
archive.  In each of three runs `version.txt` has the version of an update and `a` does
not have this byte: the archive of 1.0.1 has `version.txt` itself and the run stops in
`a`; the write of 1.2.34 is torn, so that the file has the version of the next update,
1.2.3, which deletes `b`; the `fclose` of `a` fails, and the updates succeed. -/
theorem version_can_run_ahead :
    (let run := rrcUpdateDoUpdatesWithState markerPlatform
        ⟨0, [(⟨Decimal.saturate 1, Decimal.saturate 0, Decimal.saturate 1⟩, CStr.lit "u")], []⟩
        (stopAt (CStr.lit "a")) ⟨cardOf100, 0, 0, []⟩;
      parsedVersion (run.2.card rrcVersionfile) =
        some ⟨Decimal.saturate 1, Decimal.saturate 0, Decimal.saturate 1⟩ ∧
      run.2.card (CStr.lit "a") = some []) ∧
    (let run := rrcUpdateDoUpdatesWithState oneFilePlatform
        ⟨0, [(⟨Decimal.saturate 1, Decimal.saturate 2, Decimal.saturate 34⟩, CStr.lit "u"),
          (⟨Decimal.saturate 1, Decimal.saturate 2, Decimal.saturate 3⟩, CStr.lit "v")],
          [(⟨Decimal.saturate 1, Decimal.saturate 2, Decimal.saturate 3⟩, CStr.lit "b")]⟩
        tornVersion ⟨cardOf100, 0, 0, []⟩;
      parsedVersion (run.2.card rrcVersionfile) =
        some ⟨Decimal.saturate 1, Decimal.saturate 2, Decimal.saturate 3⟩ ∧
      run.2.card (CStr.lit "b") = some [0]) ∧
    (let run := rrcUpdateDoUpdatesWithState oneFilePlatform
        ⟨0, [(⟨Decimal.saturate 1, Decimal.saturate 0, Decimal.saturate 1⟩, CStr.lit "u")], []⟩
        failingFclose ⟨cardOf100, 0, 0, []⟩;
      run.1.isOk = true ∧ parsedVersion (run.2.card rrcVersionfile) =
        some ⟨Decimal.saturate 1, Decimal.saturate 0, Decimal.saturate 1⟩ ∧
      run.2.card (CStr.lit "a") = some []) := by
  decide +kernel

end RrLauncher
