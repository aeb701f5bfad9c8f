/-
# Updates that were interrupted

Between runs the card is the old one with some updates on it, and perhaps with a part
of the next one, which touches nothing but what that update sets (`Progress`).  Doing
that update again sets all of it, so a run that gets to its end leaves what a single
run would have left (`resumed_updates_end_alike`).
-/

import RrLauncher.Update.UpdateRun

namespace RrLauncher

open Stdio

variable {κ : Type} [DecidableEq κ] {env : Stdio.Env κ Question} {p : Platform κ}

/-- Neither an archive nor a deletion names `version.txt` or the archive itself. -/
structure NamesApart (p : Platform κ) (entries deleted : List (RrcVersion × CStr)) : Prop where
  names : p.canon rrcVersionfile ≠ p.canon rrcUpdateZipName
  files : ∀ update ∈ entries, ∀ file ∈ p.updateFiles update,
    p.canon file.1 ≠ p.canon rrcVersionfile ∧ p.canon file.1 ≠ p.canon rrcUpdateZipName
  deletions : ∀ file ∈ deleted,
    p.canon file.2 ≠ p.canon rrcVersionfile ∧ p.canon file.2 ≠ p.canon rrcUpdateZipName

/-- What the next update sets before its version is written. -/
def nextOverlay (p : Platform κ) (deleted : List (RrcVersion × CStr)) :
    List (RrcVersion × CStr) → Overlay κ (Option Bytes)
  | [] => Overlay.nothing
  | update :: _ => installOverlay p deleted update

/-- **The card between runs**: some of the updates are on it, and perhaps a part of the
next one. -/
def Progress (p : Platform κ) (entries deleted : List (RrcVersion × CStr)) (start : RrcVersion)
    (card₀ card : κ → Option Bytes) : Prop :=
  ∃ done rest, newerThan start entries = done ++ rest ∧
    (nextOverlay p deleted rest).AgreeOff card (installed p deleted done card₀)

variable {entries deleted : List (RrcVersion × CStr)} {start : RrcVersion}
  {card₀ card : κ → Option Bytes}

/-- Deleting files leaves alone every file that has none of their paths. -/
theorem deletionsOverlay_eq_none {paths : List CStr} {k : κ} (h : ∀ path ∈ paths, p.canon path ≠ k) :
    deletionsOverlay p paths k = none := by
  rw [deletionsOverlay, Overlay.seqAll_eq_none]
  intro q hq
  obtain ⟨path, hpath, rfl⟩ := List.mem_map.mp hq
  exact if_neg (h path hpath).symm

/-- Extracting files leaves alone every file that has none of their paths. -/
theorem filesOverlay_eq_none {files : List (CStr × Bytes)} {k : κ}
    (h : ∀ file ∈ files, p.canon file.1 ≠ k) : filesOverlay p files k = none := by
  rw [filesOverlay, Overlay.seqAll_eq_none]
  intro q hq
  obtain ⟨file, hfile, rfl⟩ := List.mem_map.mp hq
  exact if_neg (h file hfile).symm

/-- A path that is deleted for a version stands in the list of deleted files. -/
theorem mem_deletedPaths {version : RrcVersion} {path : CStr}
    (h : path ∈ deletedPaths deleted version) : ∃ file ∈ deleted, file.2 = path := by
  obtain ⟨file, hfile, hpath⟩ := List.mem_filterMap.mp h
  split at hpath
  · exact ⟨file, hfile, Option.some.inj hpath⟩
  · cases hpath

/-- The files of an update leave `version.txt` alone, as none of its archive and of its deletions
has that name. -/
theorem installOverlay_versionfile (hapart : NamesApart p entries deleted)
    {update : RrcVersion × CStr} (h : update ∈ entries) :
    installOverlay p deleted update (p.canon rrcVersionfile) = none := by
  rw [installOverlay, Overlay.seq_eq_none, Overlay.seq_eq_none, Overlay.seq_eq_none]
  refine ⟨if_neg hapart.names, filesOverlay_eq_none fun file hfile => (hapart.files _ h _ hfile).1,
    if_neg hapart.names, deletionsOverlay_eq_none fun path hpath => ?_⟩
  obtain ⟨file, hfile, rfl⟩ := mem_deletedPaths hpath
  exact (hapart.deletions file hfile).1

/-- What the remaining updates would write has no part in the version file, since no archive and no
list of deleted files names it. -/
theorem nextOverlay_versionfile (hapart : NamesApart p entries deleted)
    {rest : List (RrcVersion × CStr)} (h : ∀ update ∈ rest, update ∈ entries) :
    nextOverlay p deleted rest (p.canon rrcVersionfile) = none := by
  cases rest with
  | nil => rfl
  | cons update rest => exact installOverlay_versionfile hapart (h update (List.mem_cons_self ..))

/-- The version of the last update is the installed one. -/
theorem parsedVersion_installed (hstart : parsedVersion (card₀ (p.canon rrcVersionfile)) = some start)
    (deleted done : List (RrcVersion × CStr)) :
    parsedVersion (installed p deleted done card₀ (p.canon rrcVersionfile)) =
      some (lastVersion start done) := by
  rcases List.eq_nil_or_concat done with rfl | ⟨before, last, rfl⟩
  · exact hstart
  rw [List.concat_eq_append, installed, List.foldl_append, List.foldl_cons, List.foldl_nil,
    installUpdate, Function.update_self, parsedVersion_render, lastVersion, List.getLast?_concat]
  rfl

/-- **Doing the next update again** forgets what was done of it. -/
theorem agreeOff_apply_seqAll {rest done tail : List (RrcVersion × CStr)} (hrest : rest = done ++ tail)
    {c c' : κ → Option Bytes} (h : (nextOverlay p deleted rest).AgreeOff c c') :
    (nextOverlay p deleted tail).AgreeOff
      ((Overlay.seqAll (done.map (updateOverlay p deleted))).apply c)
      ((Overlay.seqAll (done.map (updateOverlay p deleted))).apply c') := by
  cases done with
  | nil =>
    rw [List.nil_append] at hrest
    exact hrest ▸ h
  | cons update done =>
    rw [hrest] at h
    have hupdate : (updateOverlay p deleted update).AgreeOff c c' :=
      fun k hk => h k (Overlay.seq_eq_none.mp hk).1
    rw [List.map_cons, Overlay.seqAll_cons, Overlay.apply_seq, Overlay.apply_seq,
      Overlay.apply_congr hupdate]
    exact Overlay.AgreeOff.refl _ _

/-- What is installed behind two lists of updates is what the second one puts on top of the first.
-/
theorem installed_append (deleted done done' : List (RrcVersion × CStr)) (c : κ → Option Bytes) :
    installed p deleted (done ++ done') c =
      (Overlay.seqAll (done'.map (updateOverlay p deleted))).apply (installed p deleted done c) := by
  rw [← installed_eq_apply, installed, List.foldl_append]
  rfl

/-- **One run keeps the progress**, and if it succeeds all updates are on the card. -/
theorem Progress.run {versionsfile deletedVersionsfile : CStr}
    (hentries : entriesOf (versionsfileEntries versionsfile) = entries)
    (hdeleted : entriesOf (deletedFilesEntries deletedVersionsfile) = deleted)
    (hsorted : entries.Pairwise fun a b => rrcVersionIsOlder a.1 b.1 = true)
    (hapart : NamesApart p entries deleted)
    (hstart : parsedVersion (card₀ (p.canon rrcVersionfile)) = some start) {w : World κ}
    (h : Progress p entries deleted start card₀ w.card) (henv : AtomicVersion p env) :
    let run := updateRun p versionsfile deletedVersionsfile env w
    Progress p entries deleted start card₀ run.2.card ∧
      ∀ u, run.1 = .ok u → run.2.card = installed p deleted (newerThan start entries) card₀ := by
  intro run
  obtain ⟨done, rest, hnewer, hagree⟩ := h
  rcases updateRun_cases p versionsfile deletedVersionsfile env w with ⟨hcard, hstops⟩ |
    ⟨current, w₁, hcard, hversion, hrun⟩
  · refine ⟨⟨done, rest, hnewer, ?_⟩, fun u hu => absurd hu (hstops u)⟩
    rwa [show run.2.card = w.card from hcard]
  have hmem : ∀ update ∈ rest, update ∈ entries := fun update hupdate =>
    List.mem_of_mem_filter (hnewer ▸ List.mem_append_right done hupdate)
  -- the version that was read is that of the last update that was done
  obtain rfl : current = lastVersion start done := by
    rw [hagree _ (nextOverlay_versionfile hapart hmem), parsedVersion_installed hstart] at hversion
    exact (Option.some.inj hversion).symm
  rw [hentries, hdeleted, newerThan_lastVersion hsorted hnewer] at hrun
  have hrest : newerThan (lastVersion start done) entries = rest := newerThan_lastVersion hsorted hnewer
  have holder : ∀ update ∈ rest, rrcVersionIsOlder (lastVersion start done) update.1 = true := by
    intro update hupdate
    rw [← hrest, newerThan, List.mem_filter] at hupdate
    exact hupdate.2
  rw [← hcard] at hagree
  obtain ⟨done', w₂, hdone, hend⟩ := Prog.forEach_cases rest
    (doUpdate p (newerThan (lastVersion start done) deleted)) env w₁
  have hw₂ : w₂.card = (Overlay.seqAll (done'.map
      (updateOverlay p (newerThan (lastVersion start done) deleted)))).apply w₁.card :=
    ((Effect.forEach done' fun update _ =>
      effectAt_doUpdate henv.closes _ update) w₁).done _ w₂ hdone |>.1
  have hsame : ∀ tail, rest = done' ++ tail →
      (nextOverlay p deleted tail).AgreeOff w₂.card (installed p deleted (done ++ done') card₀) := by
    intro tail htail
    have hmap : done'.map (updateOverlay p (newerThan (lastVersion start done) deleted)) =
        done'.map (updateOverlay p deleted) :=
      List.map_congr_left fun update hupdate => updateOverlay_newerThan
        (holder update (htail ▸ List.mem_append_left tail hupdate)) deleted
    rw [hw₂, hmap, installed_append]
    exact agreeOff_apply_seqAll htail hagree
  rcases hend with ⟨hall, hok⟩ | ⟨update, tail, stop, w', htail, hstopped, herror⟩
  · -- all of them were done
    have hfinal := hsame [] (by rw [hall, List.append_nil])
    have hrun' : run = (.ok (), w₂) := hrun.trans hok
    rw [hrun']
    refine ⟨⟨done ++ done', [], by rw [hnewer, hall, List.append_nil], hfinal⟩, fun u _ => ?_⟩
    rw [hnewer, hall]
    exact Overlay.agreeOff_nothing hfinal
  · -- it stopped in the next one
    have hrun' : run = (.error stop, w') := hrun.trans herror
    rw [hrun']
    refine ⟨⟨done ++ done', update :: tail, by rw [hnewer, htail, List.append_assoc], ?_⟩,
      fun u hu => by cases hu⟩
    have hpart := doUpdate_stopped henv hstopped
    have hupdate : update ∈ rest := by simp [htail]
    rw [installOverlay_newerThan (holder update hupdate)] at hpart
    exact hpart.trans (hsame (update :: tail) htail)

/-- **The progress after any runs** that stopped anywhere: some of the updates are installed as a
whole, the next one possibly in part, and the version is that of the last whole one. -/
theorem AfterRuns.progress {versionsfile deletedVersionsfile : CStr}
    (hsorted : (entriesOf (versionsfileEntries versionsfile)).Pairwise fun a b =>
      rrcVersionIsOlder a.1 b.1 = true)
    (hapart : NamesApart p (entriesOf (versionsfileEntries versionsfile))
      (entriesOf (deletedFilesEntries deletedVersionsfile)))
    (hstart : parsedVersion (card₀ (p.canon rrcVersionfile)) = some start)
    (h : AfterRuns p versionsfile deletedVersionsfile card₀ card) :
    Progress p (entriesOf (versionsfileEntries versionsfile))
      (entriesOf (deletedFilesEntries deletedVersionsfile)) start card₀ card := by
  induction h with
  | start => exact ⟨[], _, rfl, Overlay.AgreeOff.refl _ _⟩
  | run h henv ih => exact (ih.run rfl rfl hsorted hapart hstart henv).1

/-- **Resumed updates end like one that was not interrupted.**  After any runs that
stopped anywhere, a run that succeeds leaves the card with all updates on it that are
newer than the version at the start, which is what any single run from the start
leaves that succeeds. -/
theorem resumed_updates_end_alike (p : Platform κ) (versionsfile deletedVersionsfile : CStr)
    (hsorted : (entriesOf (versionsfileEntries versionsfile)).Pairwise fun a b =>
      rrcVersionIsOlder a.1 b.1 = true)
    (hapart : NamesApart p (entriesOf (versionsfileEntries versionsfile))
      (entriesOf (deletedFilesEntries deletedVersionsfile)))
    {start : RrcVersion} {card₀ : κ → Option Bytes}
    (hstart : parsedVersion (card₀ (p.canon rrcVersionfile)) = some start) {w : World κ}
    (hruns : AfterRuns p versionsfile deletedVersionsfile card₀ w.card) {env : Stdio.Env κ Question}
    (henv : AtomicVersion p env) {w' : World κ}
    (hlast : updateRun p versionsfile deletedVersionsfile env w = (.ok (), w')) :
    w'.card = installed p (entriesOf (deletedFilesEntries deletedVersionsfile))
      (newerThan start (entriesOf (versionsfileEntries versionsfile))) card₀ ∧
    ∀ env₀ w₀ w₀', AtomicVersion p env₀ → w₀.card = card₀ →
      updateRun p versionsfile deletedVersionsfile env₀ w₀ = (.ok (), w₀') →
        w'.card = w₀'.card := by
  have hend : ∀ env w w', AtomicVersion p env →
      AfterRuns p versionsfile deletedVersionsfile card₀ w.card →
      updateRun p versionsfile deletedVersionsfile env w = (.ok (), w') →
      w'.card = installed p (entriesOf (deletedFilesEntries deletedVersionsfile))
        (newerThan start (entriesOf (versionsfileEntries versionsfile))) card₀ := by
    intro env w w' henv hruns hlast
    have hdone := ((hruns.progress hsorted hapart hstart).run rfl rfl hsorted hapart hstart henv).2 ()
    rw [hlast] at hdone
    exact hdone rfl
  refine ⟨hend env w w' henv hruns hlast, fun env₀ w₀ w₀' henv₀ hcard₀ hlast₀ => ?_⟩
  rw [hend env w w' henv hruns hlast,
    hend env₀ w₀ w₀' henv₀ (hcard₀ ▸ AfterRuns.start) hlast₀]

/-- A server whose one update has the file `a` in its archive. -/
def oneFilePlatform : Platform CStr where
  canon := id
  serve := fun _ => [[1]]
  openZip := fun _ => .ok [⟨some (CStr.lit "a"), some 1, [.singleton 7]⟩]

/-- A card with version 1.0.0. -/
def cardOf100 : CStr → Option Bytes := fun name =>
  if name = rrcVersionfile then some (CStr.lit "1.0.0").bytes else some [0]

/-- Every call works, but the run stops in the middle of one file. -/
def stopAt (file : CStr) : Stdio.Env CStr Question
  | _, .fwrite path => if path = file then .halt 0 else .ok 1000
  | _, _ => .ok 1000

/-- Where the run stops in the middle of another file, `version.txt` is written as a whole. -/
theorem stopAt_atomic {p : Platform CStr} {file : CStr} (hfile : p.canon rrcVersionfile ≠ file) :
    AtomicVersion p (stopAt file) := by
  constructor
  · intro n path errno accepted flushed h
    cases h
  · intro n flushed h
    cases h
  · exact fun n => ⟨1000, if_neg hfile⟩
  · exact fun n => ⟨1000, rfl⟩

omit [DecidableEq κ] in
/-- A run that succeeded ended in some world, with nothing as its result. -/
theorem exists_of_isOk {α : Type} {run : Except α Unit × World κ} (h : run.1.isOk = true) :
    ∃ w', run = (.ok (), w') := by
  obtain ⟨r, w'⟩ := run
  cases r with
  | ok u => exact ⟨w', rfl⟩
  | error stop => cases h

/-- The update to 1.0.1, which removes `b`: its first run stops in the middle of `a`. -/
theorem resumed_updates_end_alike_101 :
    ∃ w' : World CStr,
      updateRun oneFilePlatform (CStr.lit "1.0.1 u") (CStr.lit "1.0.1 b") (stopAt (CStr.lit "c"))
        (updateRun oneFilePlatform (CStr.lit "1.0.1 u") (CStr.lit "1.0.1 b")
          (stopAt (CStr.lit "a")) ⟨cardOf100, 0, 0, []⟩).2 = (.ok (), w') ∧
      w'.card (CStr.lit "a") = some [7] ∧ w'.card (CStr.lit "b") = none := by
  have hentries : entriesOf (versionsfileEntries (CStr.lit "1.0.1 u")) =
      [(⟨Decimal.saturate 1, Decimal.saturate 0, Decimal.saturate 1⟩, CStr.lit "u")] := by
    decide +kernel
  have hdeleted : entriesOf (deletedFilesEntries (CStr.lit "1.0.1 b")) =
      [(⟨Decimal.saturate 1, Decimal.saturate 0, Decimal.saturate 1⟩, CStr.lit "b")] := by
    decide +kernel
  have hfiles : ∀ update, oneFilePlatform.updateFiles update = [(CStr.lit "a", [7])] :=
    fun update => show archiveFiles _ = _ by decide +kernel
  have hsorted : (entriesOf (versionsfileEntries (CStr.lit "1.0.1 u"))).Pairwise
      fun a b => rrcVersionIsOlder a.1 b.1 = true := by
    rw [hentries]
    exact List.pairwise_singleton _ _
  have hapart : NamesApart oneFilePlatform (entriesOf (versionsfileEntries (CStr.lit "1.0.1 u")))
      (entriesOf (deletedFilesEntries (CStr.lit "1.0.1 b"))) := by
    refine ⟨by decide, fun update _ file hfile => ?_, fun file hfile => ?_⟩
    · rw [hfiles, List.mem_singleton] at hfile
      subst hfile
      decide
    · rw [hdeleted, List.mem_singleton] at hfile
      subst hfile
      decide
  have hstart : parsedVersion (cardOf100 (oneFilePlatform.canon rrcVersionfile)) =
      some ⟨Decimal.saturate 1, Decimal.saturate 0, Decimal.saturate 0⟩ := by
    decide +kernel
  have hruns : AfterRuns oneFilePlatform (CStr.lit "1.0.1 u") (CStr.lit "1.0.1 b") cardOf100
      (updateRun oneFilePlatform (CStr.lit "1.0.1 u") (CStr.lit "1.0.1 b") (stopAt (CStr.lit "a"))
        ⟨cardOf100, 0, 0, []⟩).2.card :=
    AfterRuns.run (w := ⟨cardOf100, 0, 0, []⟩) AfterRuns.start (stopAt_atomic (by decide))
  have hok : (updateRun oneFilePlatform (CStr.lit "1.0.1 u") (CStr.lit "1.0.1 b")
      (stopAt (CStr.lit "c")) (updateRun oneFilePlatform (CStr.lit "1.0.1 u") (CStr.lit "1.0.1 b")
        (stopAt (CStr.lit "a")) ⟨cardOf100, 0, 0, []⟩).2).1.isOk = true := by
    decide +kernel
  obtain ⟨w', hlast⟩ := exists_of_isOk hok
  obtain ⟨hcard, -⟩ := resumed_updates_end_alike oneFilePlatform _ _ hsorted hapart hstart hruns
    (stopAt_atomic (by decide)) hlast
  refine ⟨w', hlast, ?_⟩
  rw [hcard, hentries, hdeleted]
  decide +kernel

end RrLauncher
