/-
# `version.txt`

The two routines of `update.c` that read and write the installed version.
`canon` maps the names that the program gives to `fopen` to files of the card.
Writing opens the file with `"w"`, which empties it: what a failed write leaves
there is a prefix of the new text.
-/

import RrLauncher.Lib.Stdio.WholeFile
import RrLauncher.Update.Versionutils

namespace RrLauncher

open Stdio

variable {κ : Type} [DecidableEq κ] (canon : CStr → κ)

/-- `RRC_VERSIONFILE`, in a build that is not a beta. -/
def rrcVersionfile : CStr := CStr.lit "/RetroRewind6/version.txt"

/-- `rrc_update_get_current_version`.  A `read` that fails is not noticed by the
source, which goes on with an uninitialized buffer; such a run ends here. -/
def rrcUpdateGetCurrentVersion : Routine κ RrcVersion := do
  let some content ← fopenRead (canon rrcVersionfile)
    | failErrno "Failed to open version file /RetroRewind6/version.txt for reading"
  let some _ ← ask .stat | failErrno "Failed to stat version file to get its file size"
  let some _ ← ask .readerRead | Prog.halt
  if content = [] then failErrno "Failed to read version string from file"
  else do
    let some _ ← ask .readerClose | failErrno "Failed to close version file"
    match rrcVersionFromString (CStr.ofBuffer content) with
    | .ok version => return version
    | .error e => Prog.throw e

/-- `rrc_update_set_current_version`. -/
def rrcUpdateSetCurrentVersion (version : RrcVersion) : Routine κ Unit := do
  let out := versionRender version
  if out.length < 32 then do
    let file ← fopenWriteOr (canon rrcVersionfile)
      (failErrno "Failed to open version file for writing")
    let file ← fwriteOr file out (failErrno "Failed to write version string")
    if ← fclose file then return ()
    else failErrno "Failed to close version file"
  else Prog.halt -- "version string too long"

/-- **Writing the version** sets the contents of `version.txt` to the rendered version where it
succeeds, and changes no other file. -/
theorem effect_rrcUpdateSetCurrentVersion (env : Stdio.Env κ Question) (version : RrcVersion) :
    Effect env (rrcUpdateSetCurrentVersion canon version)
      (Overlay.single (canon rrcVersionfile) (some (versionRender version)))
      [.wrote (canon rrcVersionfile) (versionRender version)] := by
  rw [rrcUpdateSetCurrentVersion]
  split
  · exact Effect.writeFile (Opens.fopenWriteOr (Opens.of_fails (fails_failErrno _) _))
      (Writes.fwriteOr (fails_failErrno _) _ _) (Quiet.pure ()) (Or.inl (fails_failErrno _))
  · exact Fails.halt.effect _ _

/-- The version that a file has. -/
def parsedVersion (content : Option Bytes) : Option RrcVersion :=
  match content with
  | none | some [] => none
  | some content => (rrcVersionFromString (CStr.ofBuffer content)).toOption

/-- A version that was rendered to the file parses back to the same three numbers. -/
theorem parsedVersion_render (v : RrcVersion) : parsedVersion (some (versionRender v)) = some v := by
  have hne : versionRender v ≠ [] := by
    rw [versionRender]
    exact List.append_ne_nil_of_right_ne_nil _ (List.cons_ne_nil _ _)
  have hbuf : CStr.ofBuffer (versionRender v) = versionString v :=
    CStr.ofBuffer_bytes_of_noNul (versionString v)
  cases hr : versionRender v with
  | nil => exact absurd hr hne
  | cons c s =>
    rw [parsedVersion, ← hr, hbuf, rrcVersionFromString_render]
    · rfl
    · simp

omit [DecidableEq κ] in
/-- Reading the installed version changes nothing on the card, whatever is read. -/
theorem quiet_rrcUpdateGetCurrentVersion (env : Stdio.Env κ Question) :
    Quiet env (rrcUpdateGetCurrentVersion canon) := by
  refine (Quiet.fopenRead _).bind ?_
  rintro (_ | content)
  · exact (fails_failErrno _).quiet
  refine (Quiet.ask _).bind ?_
  rintro (_ | n)
  · exact (fails_failErrno _).quiet
  refine (Quiet.ask _).bind ?_
  rintro (_ | n)
  · exact Fails.halt.quiet
  dsimp only
  split
  · exact (fails_failErrno _).quiet
  refine (Quiet.ask _).bind ?_
  rintro (_ | n)
  · exact (fails_failErrno _).quiet
  dsimp only
  split
  · exact Quiet.pure _
  · exact (Fails.throw _).quiet

omit [DecidableEq κ] in
/-- A version that was read is the one that the file has. -/
theorem rrcUpdateGetCurrentVersion_ok {env : Stdio.Env κ Question} {w w' : World κ} {version : RrcVersion}
    (h : rrcUpdateGetCurrentVersion canon env w = (.ok version, w')) :
    parsedVersion (w.card (canon rrcVersionfile)) = some version := by
  rcases Prog.bind_ok h with ⟨_ | content, w₁, hopen, h⟩
  · exact ((fails_failErrno _).not_ok h).elim
  rcases Prog.bind_ok h with ⟨_ | n, w₂, -, h⟩
  · exact ((fails_failErrno _).not_ok h).elim
  rcases Prog.bind_ok h with ⟨_ | n, w₃, -, h⟩
  · cases h
  rw [fopenRead_ok hopen]
  dsimp only at h
  split at h
  · exact ((fails_failErrno _).not_ok h).elim
  rename_i hne
  rcases Prog.bind_ok h with ⟨_ | n, w₄, -, h⟩
  · exact ((fails_failErrno _).not_ok h).elim
  cases content with
  | nil => exact absurd rfl hne
  | cons c content =>
    rw [parsedVersion]
    · cases hparse : rrcVersionFromString (CStr.ofBuffer (c :: content)) with
      | ok v =>
        rw [hparse] at h
        cases h
        rfl
      | error e =>
        rw [hparse] at h
        cases h
    · simp

omit [DecidableEq κ] in
/-- **Reading the version**, where every call works, gives the one that the file
has, or fails. -/
theorem rrcUpdateGetCurrentVersion_works {env : Stdio.Env κ Question} (hworks : env.Works) (w : World κ)
    (version : RrcVersion) :
    (∃ w', rrcUpdateGetCurrentVersion canon env w = (.ok version, w')) ↔
      parsedVersion (w.card (canon rrcVersionfile)) = some version := by
  have hask : ∀ (question : Question) (w : World κ),
      ∃ n, ask (ε := RrcResultError) question env w = (.ok (some n), w.tick) := by
    intro question w
    obtain ⟨n, hn⟩ := hworks w.calls (.ask question)
    exact ⟨n, by rw [ask, hn]⟩
  obtain ⟨_, hstat⟩ := hask .stat w.tick
  obtain ⟨_, hread⟩ := hask .readerRead w.tick.tick
  obtain ⟨_, hclose⟩ := hask .readerClose w.tick.tick.tick
  rw [rrcUpdateGetCurrentVersion, Prog.bind_run]
  cases hcard : w.card (canon rrcVersionfile) with
  | none =>
    obtain ⟨n, hn⟩ := hworks w.calls (.fopenRead (canon rrcVersionfile))
    rw [fopenRead, hn, hcard]
    simp [parsedVersion, failErrno, Prog.bind_run, Prog.getErrno, Prog.throw]
  | some content =>
    rw [fopenRead_works hworks hcard]
    simp only [Prog.bind_run, hstat, hread]
    cases content with
    | nil => simp [parsedVersion, failErrno, Prog.bind_run, Prog.getErrno, Prog.throw]
    | cons c content =>
      simp only [reduceCtorEq, if_false, Prog.bind_run, hclose, parsedVersion]
      cases rrcVersionFromString (CStr.ofBuffer (c :: content)) with
      | error e => simp [Prog.throw, Except.toOption]
      | ok v => simp [Prog.pure_run, Except.toOption]

/-! ### Writing and reading -/

/-- `rrc_update_set_current_version`, then `rrc_update_get_current_version`, as the next start does.
-/
def storeAndRead (version : RrcVersion) : Routine κ RrcVersion := do
  rrcUpdateSetCurrentVersion canon version
  rrcUpdateGetCurrentVersion canon

/-- Writing a version, where every call works, succeeds if its text fits the buffer. -/
theorem rrcUpdateSetCurrentVersion_works {env : Stdio.Env κ Question} (hworks : env.Works)
    {version : RrcVersion} (hfits : (versionRender version).length < 32) (w : World κ) :
    ∃ w', rrcUpdateSetCurrentVersion canon version env w = (.ok (), w') := by
  rw [rrcUpdateSetCurrentVersion, if_pos hfits, Prog.bind_run, fopenWriteOr_works hworks]
  obtain ⟨file, w₁, hwrite⟩ := fwriteOr_works hworks ⟨canon rrcVersionfile, []⟩
    (versionRender version) (failErrno "Failed to write version string")
    (w.tick.set (canon rrcVersionfile) (some []))
  obtain ⟨w₂, hclose⟩ := fclose_works (ε := RrcResultError) hworks file w₁
  refine ⟨w₂, ?_⟩
  simp only [Prog.bind_run, hwrite, hclose, if_true, Prog.pure_run]

/-- What was written by a call that succeeded is what the file has, and it parses to that version.
-/
theorem parsedVersion_set {env : Stdio.Env κ Question} {version : RrcVersion} {w w' : World κ}
    (hrun : rrcUpdateSetCurrentVersion canon version env w = (.ok (), w')) :
    parsedVersion (w'.card (canon rrcVersionfile)) = some version := by
  obtain ⟨hcard, -⟩ := (effect_rrcUpdateSetCurrentVersion canon env version w).done () w' hrun
  rw [hcard, Overlay.apply_single, Function.update_self, parsedVersion_render]

/-- Whatever calls fail, a version that is read behind a write that succeeded is the one that
was written. -/
theorem storeAndRead_ok {env : Stdio.Env κ Question} {version read : RrcVersion} {w w' : World κ}
    (hrun : storeAndRead canon version env w = (.ok read, w')) : read = version := by
  obtain ⟨⟨⟩, w₁, hset, hget⟩ := Prog.bind_ok hrun
  have hread := rrcUpdateGetCurrentVersion_ok canon hget
  rw [parsedVersion_set canon hset] at hread
  exact (Option.some.inj hread).symm

/-- **A version that was written reads back**, whatever the three numbers are, as long as the
text fits the buffer; so versions that were read back compare like those that were written. -/
theorem version_file_round_trip {env : Stdio.Env κ Question} (hworks : env.Works) (a b : RrcVersion)
    (ha : (versionRender a).length < 32) (hb : (versionRender b).length < 32) (w : World κ) :
    ∃ w₁ w₂, storeAndRead canon a env w = (.ok a, w₁) ∧ storeAndRead canon b env w₁ = (.ok b, w₂) ∧
      ∀ a' b', (storeAndRead canon a env w).1 = .ok a' → (storeAndRead canon b env w₁).1 = .ok b' →
        rrcVersionIsOlder a' b' = rrcVersionIsOlder a b := by
  have hrun : ∀ (v : RrcVersion), (versionRender v).length < 32 → ∀ w : World κ,
      ∃ w', storeAndRead canon v env w = (.ok v, w') := by
    intro v hv w
    obtain ⟨w₁, hset⟩ := rrcUpdateSetCurrentVersion_works canon hworks hv w
    obtain ⟨w₂, hget⟩ := (rrcUpdateGetCurrentVersion_works canon hworks w₁ v).mpr
      (parsedVersion_set canon hset)
    refine ⟨w₂, ?_⟩
    rw [storeAndRead, Prog.bind_run, hset]
    exact hget
  obtain ⟨w₁, h₁⟩ := hrun a ha w
  obtain ⟨w₂, h₂⟩ := hrun b hb w₁
  refine ⟨w₁, w₂, h₁, h₂, fun a' b' ha' hb' => ?_⟩
  rw [storeAndRead_ok canon (Prod.ext ha' rfl), storeAndRead_ok canon (Prod.ext hb' rfl)]

/-- A version with a negative number and the largest one, and the one behind it. -/
theorem version_file_round_trip_extremes :
    ∃ w₁ w₂, storeAndRead (id : CStr → CStr) ⟨⟨-1, by decide⟩, 0, ⟨2147483647, by decide⟩⟩
        (fun _ _ => .ok 0) ⟨fun _ => none, 0, 0, []⟩ =
          (.ok ⟨⟨-1, by decide⟩, 0, ⟨2147483647, by decide⟩⟩, w₁) ∧
      storeAndRead (id : CStr → CStr) ⟨0, 0, 0⟩ (fun _ _ => .ok 0) w₁ = (.ok ⟨0, 0, 0⟩, w₂) := by
  have hworks : Stdio.Env.Works (fun _ _ => .ok 0 : Stdio.Env CStr Question) := fun _ _ => ⟨0, rfl⟩
  obtain ⟨w₁, w₂, h₁, h₂, -⟩ := version_file_round_trip (id : CStr → CStr) hworks
    ⟨⟨-1, by decide⟩, 0, ⟨2147483647, by decide⟩⟩ ⟨0, 0, 0⟩ (by decide +kernel)
    (by decide +kernel) ⟨fun _ => none, 0, 0, []⟩
  exact ⟨w₁, w₂, h₁, h₂⟩

end RrLauncher
