/-
# A run of the updater

A run reads the installed version, takes the entries of the two lists of the server
that are newer, and does these updates.  It can stop anywhere (`updateRun_cases`); the
next run starts again from `version.txt`.
-/

import RrLauncher.Update.Update

namespace RrLauncher

open Stdio

variable {κ : Type} [DecidableEq κ]

/-! ### A run -/

/-- A result that was computed. -/
def Routine.ofExcept {α : Type} (r : Except (Stop RrcResultError) α) : Routine κ α := fun _ w => (r, w)

/-- A run: what `rrc_update_do_updates` does with the two lists of the server where all
its prompts are answered with yes. -/
def updateRun (p : Platform κ) (versionsfile deletedVersionsfile : CStr) : Routine κ Unit := do
  let current ← rrcUpdateGetCurrentVersion p.canon
  if current.major.val < 0 then Prog.halt -- "failed to read current version file"
  else do
    let updates ← Routine.ofExcept
      (rrcVersionsfileGetNecessaryUrlsAndVersions versionsfile current)
    if updates = [] then return ()
    else do
      let deletedFiles ← Routine.ofExcept
        (rrcVersionsfileParseDeletedFiles deletedVersionsfile current)
      rrcUpdateDoUpdatesWithState p ⟨0, updates, deletedFiles⟩

/-- **What a run may meet**: any call may fail or be the last one, but no `fclose`
fails, and `version.txt` is written as a whole or not at all. -/
structure AtomicVersion (p : Platform κ) (env : Stdio.Env κ Question) : Prop where
  closes : env.Closes
  fopen : ∀ n flushed, env n (.fopenWrite (p.canon rrcVersionfile)) = .halt flushed → flushed = 0
  fwrite : ∀ n, ∃ flushed, env n (.fwrite (p.canon rrcVersionfile)) = .ok flushed
  fclose : ∀ n, ∃ flushed, env n (.fclose (p.canon rrcVersionfile)) = .ok flushed

/-- The card after some runs that stopped somewhere, or did not. -/
inductive AfterRuns (p : Platform κ) (versionsfile deletedVersionsfile : CStr)
    (card : κ → Option Bytes) : (κ → Option Bytes) → Prop
  | start : AfterRuns p versionsfile deletedVersionsfile card card
  | run {w : World κ} {env : Stdio.Env κ Question}
      (h : AfterRuns p versionsfile deletedVersionsfile card w.card) (henv : AtomicVersion p env) :
      AfterRuns p versionsfile deletedVersionsfile card
        (updateRun p versionsfile deletedVersionsfile env w).2.card

/-- The entries of a list that was parsed; none, where it does not parse. -/
def entriesOf (r : Except (Stop RrcResultError) (List (RrcVersion × CStr))) :
    List (RrcVersion × CStr) := r.toOption.getD []

/-- The entries that are newer than a version. -/
def newerThan (version : RrcVersion) (entries : List (RrcVersion × CStr)) : List (RrcVersion × CStr) :=
  entries.filter fun entry => rrcVersionIsOlder version entry.1

/-! ### What an update is for -/

/-- **An update**: the files of its archive are on the card, in order, the archive is
not, what the update deletes is removed, and the version is written. -/
def installUpdate (p : Platform κ) (deletedFiles : List (RrcVersion × CStr)) (card : κ → Option Bytes)
    (update : RrcVersion × CStr) : κ → Option Bytes :=
  let extracted := (p.updateFiles update).foldl
    (fun card file => Function.update card (p.canon file.1) (some file.2)) card
  let cleaned := Function.update extracted (p.canon rrcUpdateZipName) none
  let removed := (deletedPaths deletedFiles update.1).foldl
    (fun card path => Function.update card (p.canon path) none) cleaned
  Function.update removed (p.canon rrcVersionfile) (some (versionRender update.1))

/-- What an update does to the card, as an overlay. -/
def updateOverlay (p : Platform κ) (deletedFiles : List (RrcVersion × CStr))
    (update : RrcVersion × CStr) : Overlay κ (Option Bytes) :=
  (installOverlay p deletedFiles update).seq
    (Overlay.single (p.canon rrcVersionfile) (some (versionRender update.1)))

/-- Extracting files, as an overlay, is writing them one after the other. Of two with the same path
the later one counts. -/
theorem apply_filesOverlay (p : Platform κ) (files : List (CStr × Bytes)) (c : κ → Option Bytes) :
    (filesOverlay p files).apply c =
      files.foldl (fun card file => Function.update card (p.canon file.1) (some file.2)) c := by
  rw [filesOverlay, Overlay.apply_seqAll, List.foldl_map]
  simp only [Overlay.apply_single]

/-- Deleting files, as an overlay, is taking them away one after the other. -/
theorem apply_deletionsOverlay (p : Platform κ) (paths : List CStr) (c : κ → Option Bytes) :
    (deletionsOverlay p paths).apply c =
      paths.foldl (fun card path => Function.update card (p.canon path) none) c := by
  rw [deletionsOverlay, Overlay.apply_seqAll, List.foldl_map]
  simp only [Overlay.apply_single]

/-- **The overlay of an update is what the update is for.** -/
theorem apply_updateOverlay (p : Platform κ) (deletedFiles : List (RrcVersion × CStr))
    (update : RrcVersion × CStr) (c : κ → Option Bytes) :
    (updateOverlay p deletedFiles update).apply c = installUpdate p deletedFiles c update := by
  -- that the archive was on the card is forgotten when it is removed
  have hforget : ((filesOverlay p (p.updateFiles update)).seq
        ((Overlay.single (p.canon rrcUpdateZipName) none).seq
          (deletionsOverlay p (deletedPaths deletedFiles update.1)))).AgreeOff
      (Function.update c (p.canon rrcUpdateZipName) (some (p.download update.2))) c := by
    intro k hk
    refine Function.update_of_ne (fun hzip => ?_) _ _
    have hsingle := (Overlay.seq_eq_none.mp (Overlay.seq_eq_none.mp hk).2).1
    rw [hzip, Overlay.single, if_pos rfl] at hsingle
    cases hsingle
  rw [updateOverlay, installOverlay, Overlay.apply_seq, Overlay.apply_seq, Overlay.apply_single,
    Overlay.apply_single, Overlay.apply_congr hforget, Overlay.apply_seq, Overlay.apply_seq,
    apply_filesOverlay, Overlay.apply_single, apply_deletionsOverlay]
  rfl

/-- The card with some updates on it. -/
def installed (p : Platform κ) (deletedFiles : List (RrcVersion × CStr))
    (updates : List (RrcVersion × CStr)) (card : κ → Option Bytes) : κ → Option Bytes :=
  updates.foldl (installUpdate p deletedFiles) card

/-- What is installed behind some updates is the overlay of each of them on top of the one before,
applied to the card. -/
theorem installed_eq_apply (p : Platform κ) (deletedFiles updates : List (RrcVersion × CStr))
    (c : κ → Option Bytes) :
    installed p deletedFiles updates c =
      (Overlay.seqAll (updates.map (updateOverlay p deletedFiles))).apply c := by
  rw [Overlay.apply_seqAll, List.foldl_map, installed]
  simp only [apply_updateOverlay]

/-! ### One update -/

variable {env : Stdio.Env κ Question} {p : Platform κ}

/-- **The version is written as a whole or not at all.** -/
theorem rrcUpdateSetCurrentVersion_atomic (henv : AtomicVersion p env) (version : RrcVersion)
    (w : World κ) :
    let run := rrcUpdateSetCurrentVersion p.canon version env w
    run.1 = .ok () ∨ (run.2.card = w.card ∧ run.2.log = w.log) := by
  rw [rrcUpdateSetCurrentVersion]
  split
  · cases hreply : env w.calls (.fopenWrite (p.canon rrcVersionfile)) with
    | ok n =>
      left
      obtain ⟨n₁, hwrite⟩ := henv.fwrite (w.calls + 1)
      obtain ⟨n₂, hclose⟩ := henv.fclose (w.calls + 2)
      simp only [fopenWriteOr, fwriteOr, Prog.bind_run, fopenWrite, hreply, Prog.pure_run]
      simp only [fwrite, World.set, World.tick, hwrite, flush, ne_eq, not_true_eq_false, if_false,
        Prog.pure_run]
      simp only [fclose, World.tick, hclose]
      rfl
    | fail errno accepted n =>
      right
      rw [fopenWriteOr_fail hreply]
      exact ⟨rfl, rfl⟩
    | halt n =>
      right
      simp only [fopenWriteOr, Prog.bind_run, fopenWrite, hreply, henv.fopen _ _ hreply]
      exact ⟨rfl, rfl⟩
  · exact Or.inr ⟨rfl, rfl⟩

/-- **An update that succeeds** applied its overlay and logged its steps in order. However it ends,
nothing but what it is about has changed. -/
theorem effectAt_doUpdate (hcloses : env.Closes) (deletedFiles : List (RrcVersion × CStr))
    (update : RrcVersion × CStr) (w : World κ) :
    EffectAt env (doUpdate p deletedFiles update) w (updateOverlay p deletedFiles update)
      ((.wrote (p.canon rrcUpdateZipName) (p.download update.2) ::
        installEvents p deletedFiles update) ++
          [.wrote (p.canon rrcVersionfile) (versionRender update.1)]) :=
  (effectAt_installFiles p hcloses deletedFiles update w).bind fun _ w₁ _ =>
    effect_rrcUpdateSetCurrentVersion p.canon env update.1 w₁

/-- **An update that stops** changed nothing but what its files set. -/
theorem doUpdate_stopped (henv : AtomicVersion p env) {deletedFiles : List (RrcVersion × CStr)}
    {update : RrcVersion × CStr} {w w' : World κ} {stop : Stop RrcResultError}
    (h : doUpdate p deletedFiles update env w = (.error stop, w')) :
    (installOverlay p deletedFiles update).AgreeOff w'.card w.card := by
  obtain ⟨hframe, -, -⟩ := effectAt_installFiles p henv.closes deletedFiles update w
  rw [doUpdate, Prog.bind_run] at h
  split at h
  · rename_i u w₁ hrun
    rw [hrun] at hframe
    have hatomic := rrcUpdateSetCurrentVersion_atomic henv update.1 w₁
    rw [h] at hatomic
    rcases hatomic with hok | ⟨hcard, -⟩
    · cases hok
    · rw [show w'.card = w₁.card from hcard]
      exact hframe
  · rename_i stop' w₁ hrun
    cases h
    rw [hrun] at hframe
    exact hframe

/-! ### The two lists -/

/-- The version that is installed after some updates. -/
def lastVersion (start : RrcVersion) (done : List (RrcVersion × CStr)) : RrcVersion :=
  (done.getLast?.map (·.1)).getD start

/-- **The lists are recomputed right**: after some of the updates, the newer ones are the
rest. -/
theorem newerThan_lastVersion {start : RrcVersion} {entries done rest : List (RrcVersion × CStr)}
    (hsorted : entries.Pairwise fun a b => rrcVersionIsOlder a.1 b.1 = true)
    (h : newerThan start entries = done ++ rest) :
    newerThan (lastVersion start done) entries = rest := by
  rcases List.eq_nil_or_concat done with rfl | ⟨before, last, rfl⟩
  · exact h
  rw [List.concat_eq_append] at h ⊢
  have hlast : lastVersion start (before ++ [last]) = last.1 := by
    rw [lastVersion, List.getLast?_concat]
    rfl
  have hmem : last ∈ newerThan start entries := by
    rw [h]
    simp
  have holder : rrcVersionIsOlder start last.1 = true := (List.mem_filter.mp hmem).2
  have hpairwise : (before ++ [last] ++ rest).Pairwise fun a b => rrcVersionIsOlder a.1 b.1 = true := by
    rw [← h]
    exact hsorted.filter _
  rw [List.append_assoc, List.singleton_append, List.pairwise_append, List.pairwise_cons] at hpairwise
  obtain ⟨-, ⟨hrest, -⟩, hbefore⟩ := hpairwise
  have hfilter : newerThan last.1 entries = (newerThan start entries).filter
      fun entry => rrcVersionIsOlder last.1 entry.1 := by
    rw [newerThan, newerThan, List.filter_filter]
    refine List.filter_congr fun entry _ => ?_
    by_cases hentry : rrcVersionIsOlder last.1 entry.1 = true
    · rw [hentry, rrcVersionIsOlder_trans holder hentry]
      rfl
    · rw [Bool.not_eq_true] at hentry
      rw [hentry, Bool.false_and]
  have hnone : ∀ entry ∈ before ++ [last], ¬ rrcVersionIsOlder last.1 entry.1 = true := by
    intro entry hentry
    rw [Bool.not_eq_true]
    rcases List.mem_append.mp hentry with hentry | hentry
    · exact rrcVersionIsOlder_asymm (hbefore entry hentry last (List.mem_cons_self ..))
    · rw [List.mem_singleton.mp hentry]
      exact rrcVersionIsOlder_irrefl last.1
  rw [hlast, hfilter, h, List.filter_append, List.filter_eq_nil_iff.mpr hnone, List.nil_append]
  exact List.filter_eq_self.mpr hrest

/-- What an update deletes does not depend on which older deletions were left out. -/
theorem deletedPaths_newerThan {current version : RrcVersion}
    (h : rrcVersionIsOlder current version = true) (deleted : List (RrcVersion × CStr)) :
    deletedPaths (newerThan current deleted) version = deletedPaths deleted version := by
  rw [deletedPaths, deletedPaths, newerThan, List.filterMap_filter]
  refine List.filterMap_congr fun file _ => ?_
  by_cases hfile : rrcVersionEquals file.1 version = true
  · rw [(rrcVersionEquals_iff _ _).mp hfile, if_pos h]
  · rw [if_neg hfile, ite_self]

/-- Leaving out what is deleted for older versions changes nothing of an update to a newer one. -/
theorem updateOverlay_newerThan {current : RrcVersion} {update : RrcVersion × CStr}
    (h : rrcVersionIsOlder current update.1 = true) (deleted : List (RrcVersion × CStr)) :
    updateOverlay p (newerThan current deleted) update = updateOverlay p deleted update := by
  rw [updateOverlay, updateOverlay, installOverlay, installOverlay, deletedPaths_newerThan h]

/-- The same for the part of an update in front of its version. -/
theorem installOverlay_newerThan {current : RrcVersion} {update : RrcVersion × CStr}
    (h : rrcVersionIsOlder current update.1 = true) (deleted : List (RrcVersion × CStr)) :
    installOverlay p (newerThan current deleted) update = installOverlay p deleted update := by
  rw [installOverlay, installOverlay, deletedPaths_newerThan h]

/-- **What a run does**: it stops before it changes anything, or does the updates that are
newer than the version it read. -/
theorem updateRun_cases (p : Platform κ) (versionsfile deletedVersionsfile : CStr)
    (env : Stdio.Env κ Question) (w : World κ) :
    let run := updateRun p versionsfile deletedVersionsfile env w
    (run.2.card = w.card ∧ ∀ u, run.1 ≠ .ok u) ∨
    ∃ current w₁, w₁.card = w.card ∧
      parsedVersion (w.card (p.canon rrcVersionfile)) = some current ∧
      run = Prog.forEach (newerThan current (entriesOf (versionsfileEntries versionsfile)))
        (doUpdate p (newerThan current (entriesOf (deletedFilesEntries deletedVersionsfile))))
        env w₁ := by
  intro run
  have hread := quiet_rrcUpdateGetCurrentVersion p.canon env w
  have hrun : run = (rrcUpdateGetCurrentVersion p.canon >>= _) env w := rfl
  rw [Prog.bind_run] at hrun
  split at hrun
  · rename_i current w₁ hcurrent
    rw [hcurrent] at hread
    have hversion := rrcUpdateGetCurrentVersion_ok p.canon hcurrent
    split at hrun
    · left
      rw [hrun]
      exact ⟨hread.1, fun u hu => by cases hu⟩
    · rw [getNecessary_eq_filter] at hrun
      cases hentries : versionsfileEntries versionsfile with
      | error stop =>
        left
        rw [hentries] at hrun
        rw [hrun]
        exact ⟨hread.1, fun u hu => by cases hu⟩
      | ok entries =>
        have hnewer : newerThan current (entriesOf (.ok entries)) =
            entries.filter fun entry => rrcVersionIsOlder current entry.1 := rfl
        rw [hentries] at hrun
        simp only [Except.map, Routine.ofExcept, Prog.bind_run] at hrun
        split at hrun
        · rename_i hnil
          right
          refine ⟨current, w₁, hread.1, hversion, ?_⟩
          rw [hrun, hnewer, hnil]
          rfl
        · rw [parseDeletedFiles_eq_filter] at hrun
          cases hdeleted : deletedFilesEntries deletedVersionsfile with
          | error stop =>
            left
            rw [hdeleted] at hrun
            rw [hrun]
            exact ⟨hread.1, fun u hu => by cases hu⟩
          | ok deleted =>
            right
            rw [hdeleted] at hrun
            exact ⟨current, w₁, hread.1, hversion, hrun⟩
  · rename_i stop w₁ hcurrent
    left
    rw [hcurrent] at hread
    rw [hrun]
    exact ⟨hread.1, fun u hu => by cases hu⟩

end RrLauncher
