/-
# Files as a whole

A file that is opened, written and closed has the effect of setting its contents
(`Effect.writeFile`, `Effect.fillFile`), and one that is removed is not there
(`Effect.remove`).
-/

import RrLauncher.Lib.Stdio.Writing

namespace Stdio

variable {κ ι ε α β : Type} [DecidableEq κ]

/-- **What `fclose` does**: if it succeeds the file has all that was given to it,
and a prefix otherwise. -/
theorem fclose_spec (env : Env κ ι) {file : File κ} {w : World κ} {c : Bytes}
    (h : Holds file w c) :
    (∀ w', fclose (ε := ε) file env w = (.ok true, w') →
      w'.card = Function.update w.card file.path (some c) ∧
        w'.log = w.log ++ [.wrote file.path c]) ∧
    ((fclose (ε := ε) file env w).1 ≠ .ok true →
      Partly file.path c w (fclose (ε := ε) file env w).2) := by
  rw [fclose]
  split
  · refine ⟨fun w' heq => ?_, fun hne => absurd rfl hne⟩
    obtain ⟨b, hb, hc⟩ := h
    simp only [Prod.mk.injEq, true_and] at heq
    subst heq
    simp [flush, World.set, World.tick, hb, hc]
  · rename_i errno accepted m _
    obtain ⟨-, -, hpartly⟩ := flush_spec (show Holds file (w.failed errno) c from h) m
    exact ⟨fun w' heq => by simp at heq, fun _ => hpartly.of_card rfl rfl List.prefix_rfl⟩
  · rename_i m _
    obtain ⟨-, -, hpartly⟩ := flush_spec (show Holds file w.tick c from h) m
    exact ⟨fun w' heq => by simp at heq, fun _ => hpartly.of_card rfl rfl List.prefix_rfl⟩

/-- **What `fopen` for writing does**: it empties the file, or leaves the card
alone, or stops somewhere between. -/
theorem fopenWrite_spec (env : Env κ ι) (path : κ) (w : World κ) :
    (∀ k ≠ path, (fopenWrite (ε := ε) path env w).2.card k = w.card k) ∧
    (fopenWrite (ε := ε) path env w).2.log = w.log ∧
    (∀ file w', fopenWrite (ε := ε) path env w = (.ok (some file), w') →
      file = ⟨path, []⟩ ∧ w'.card path = some []) ∧
    ∀ w', fopenWrite (ε := ε) path env w = (.ok none, w') → w'.card = w.card := by
  have hne : ∀ k ≠ path, (w.tick.set path (some [])).card k = w.card k :=
    fun k hk => Function.update_of_ne hk _ _
  rw [fopenWrite]
  split
  · refine ⟨hne, rfl, fun file w' heq => ?_, fun w' heq => by simp at heq⟩
    simp only [Prod.mk.injEq, Except.ok.injEq, Option.some.injEq] at heq
    obtain ⟨rfl, rfl⟩ := heq
    exact ⟨rfl, Function.update_self ..⟩
  · refine ⟨fun _ _ => rfl, rfl, fun file w' heq => by simp at heq, fun w' heq => ?_⟩
    simp only [Prod.mk.injEq, true_and] at heq
    rw [← heq]
    rfl
  · refine ⟨fun k hk => ?_, ?_, fun file w' heq => by simp at heq, fun w' heq => by simp at heq⟩
    · split
      · rfl
      · exact hne k hk
    · split <;> rfl

/-- Opening a file for writing opens it, if what is done where that fails does so in turn, or fails
as well. -/
theorem Opens.fopenWriteOr {env : Env κ ι} {onNone : Prog κ ι ε (File κ)} {path : κ}
    (h : Opens env onNone path) : Opens env (Stdio.fopenWriteOr path onNone) path := by
  intro w
  obtain ⟨hframe, hlog, hsome, hnone⟩ := fopenWrite_spec (ε := ε) env path w
  rw [Stdio.fopenWriteOr, Prog.bind_run]
  split
  · rename_i a w₁ hrun
    rw [hrun] at hframe hlog
    cases a with
    | some file =>
      refine ⟨hframe, hlog, fun file' w' heq => ?_⟩
      simp only [Prog.pure_run, Prod.mk.injEq, Except.ok.injEq] at heq
      obtain ⟨rfl, rfl⟩ := heq
      exact hsome _ _ hrun
    | none =>
      have hcard := hnone w₁ hrun
      obtain ⟨hframe', hlog', hok⟩ := h w₁
      exact ⟨fun k hk => (hframe' k hk).trans (hframe k hk), hlog'.trans hlog, hok⟩
  · rename_i stop w₁ hrun
    rw [hrun] at hframe hlog
    exact ⟨hframe, hlog, fun file w' heq => by cases heq⟩

/-- An `fopen` that fails leaves the card alone, and only what is to be done then is run. -/
theorem fopenWriteOr_fail {env : Env κ ι} {path : κ} {w : World κ} {errno accepted n : ℕ}
    (h : env w.calls (.fopenWrite path) = .fail errno accepted n) (onNone : Prog κ ι ε (File κ))
    (f : File κ → Prog κ ι ε α) :
    (fopenWriteOr path onNone >>= f) env w = (onNone >>= f) env (w.failed errno) := by
  simp only [fopenWriteOr, Prog.bind_run, fopenWrite, h]

/-- Closing a file, and what follows: the file has all that was given to it if
this succeeds, where an `fclose` that fails is an error or does not happen. -/
theorem closing_spec {env : Env κ ι} (rest : Bool → Prog κ ι ε α) {file : File κ} {c : Bytes}
    (hclosed : Quiet env (rest true))
    (hfailed : Fails env (rest false) ∨
      ∀ n errno accepted flushed, env n (.fclose file.path) ≠ .fail errno accepted flushed)
    {w : World κ} (h : Holds file w c) :
    let run := (fclose file >>= rest) env w
    (∀ k ≠ file.path, run.2.card k = w.card k) ∧ w.log <+: run.2.log ∧
      ∀ a w', run = (.ok a, w') → w'.card = Function.update w.card file.path (some c) ∧
        w'.log = w.log ++ [.wrote file.path c] := by
  obtain ⟨htrue, hother⟩ := fclose_spec (ε := ε) env h
  simp only [Prog.bind_run]
  split
  · rename_i closed w₁ hrun
    cases closed with
    | true =>
      obtain ⟨hcard, hlog⟩ := htrue w₁ hrun
      obtain ⟨hcard', hlog'⟩ := hclosed w₁
      refine ⟨fun k hk => by rw [hcard', hcard, Function.update_of_ne hk],
        by rw [hlog', hlog]; exact List.prefix_append _ _, fun a w' heq => ?_⟩
      rw [heq] at hcard' hlog'
      exact ⟨hcard'.trans hcard, hlog'.trans hlog⟩
    | false =>
      rcases hfailed with hfails | hnever
      · have hpartly := hother (by rw [hrun]; simp)
        rw [hrun] at hpartly
        obtain ⟨hcard', hlog'⟩ := hfails.quiet w₁
        refine ⟨fun k hk => by rw [hcard', hpartly.frame k hk],
          prefix_of_eq (hlog'.trans hpartly.log),
          fun a w' heq => absurd (by rw [heq]) (hfails.stops w₁ a)⟩
      · rw [fclose] at hrun
        split at hrun
        · simp at hrun
        · exact absurd ‹_› (hnever _ _ _ _)
        · simp at hrun
  · rename_i stop w₁ hrun
    have hpartly := hother (by rw [hrun]; simp)
    rw [hrun] at hpartly
    exact ⟨hpartly.frame, prefix_of_eq hpartly.log, fun a w' heq => by cases heq⟩

/-- However a program ends that writes and closes a file, only that file changed, and
it has a prefix of what was given to it. -/
theorem Writes.closing {env : Env κ ι} {m : Prog κ ι ε (File κ)} {rest : Bool → Prog κ ι ε α}
    {file : File κ} {bytes : Bytes} (hm : Writes env m file bytes)
    (hrest : ∀ closed, Quiet env (rest closed)) {w : World κ} {c : Bytes} (h : Holds file w c) :
    let run := (do rest (← fclose (← m))) env w
    (∀ k ≠ file.path, run.2.card k = w.card k) ∧
      ∃ b, run.2.card file.path = some b ∧ b <+: c ++ bytes := by
  obtain ⟨hpartly, hok⟩ := hm w c h
  simp only [Prog.bind_run m]
  split
  · rename_i file₁ w₁ hrun₁
    rw [hrun₁] at hpartly
    obtain ⟨hpath, hholds⟩ := hok file₁ w₁ hrun₁
    obtain ⟨hclosed, hother⟩ := fclose_spec (ε := ε) env hholds
    rw [hpath] at hclosed hother
    simp only [Prog.bind_run]
    by_cases htrue : (fclose (ε := ε) file₁ env w₁).1 = .ok true
    · have hrun : fclose (ε := ε) file₁ env w₁ = (.ok true, (fclose (ε := ε) file₁ env w₁).2) :=
        Prod.ext htrue rfl
      rw [hrun]
      obtain ⟨hcard, -⟩ := hclosed _ hrun
      simp only [(hrest true _).1, hcard]
      refine ⟨fun k hk => ?_, _, Function.update_self .., List.prefix_rfl⟩
      rw [Function.update_of_ne hk, hpartly.frame k hk]
    · have hpartly' := hother htrue
      split
      · rename_i closed w₂ hrun₂
        rw [hrun₂] at hpartly'
        rw [(hrest closed w₂).1]
        exact ⟨fun k hk => by rw [hpartly'.frame k hk, hpartly.frame k hk], hpartly'.onCard⟩
      · rename_i stop w₂ hrun₂
        rw [hrun₂] at hpartly'
        exact ⟨fun k hk => by rw [hpartly'.frame k hk, hpartly.frame k hk], hpartly'.onCard⟩
  · rename_i stop w₁ hrun₁
    rw [hrun₁] at hpartly
    exact ⟨hpartly.frame, hpartly.onCard⟩

/-- A program that writes and closes a file and succeeds wrote all of it, where an
`fclose` that fails is an error or does not happen. -/
theorem Writes.closed {env : Env κ ι} {m : Prog κ ι ε (File κ)} {rest : Bool → Prog κ ι ε α}
    {file : File κ} {bytes : Bytes} (hm : Writes env m file bytes)
    (hclosed : Quiet env (rest true))
    (hfailed : Fails env (rest false) ∨
      ∀ n errno accepted flushed, env n (.fclose file.path) ≠ .fail errno accepted flushed)
    {w w' : World κ} {c : Bytes} (h : Holds file w c) {a : α}
    (hrun : (do rest (← fclose (← m))) env w = (.ok a, w')) :
    w'.card file.path = some (c ++ bytes) := by
  obtain ⟨file₁, w₁, hrun₁, hrest⟩ := Prog.bind_ok hrun
  obtain ⟨hpath, hholds⟩ := (hm w c h).2 file₁ w₁ hrun₁
  rw [← hpath] at hfailed
  obtain ⟨hcard, -⟩ := (closing_spec rest hclosed hfailed hholds).2.2 a w' hrest
  rw [hcard, hpath, Function.update_self]

/-- The effect of setting one key: no other key changes however the program ends, and if it succeeds
the key has the content. -/
theorem Effect.single {env : Env κ ι} {m : Prog κ ι ε α} {path : κ} {content : Option Bytes}
    {events : List (Event κ)}
    (h : ∀ w, (∀ k ≠ path, (m env w).2.card k = w.card k) ∧ w.log <+: (m env w).2.log ∧
      ∀ a w', m env w = (.ok a, w') → w'.card path = content ∧ w'.log = w.log ++ events) :
    Effect env m (Overlay.single path content) events := by
  intro w
  obtain ⟨hframe, hgrows, hdone⟩ := h w
  refine ⟨fun k hk => hframe k fun hkp => ?_, hgrows, fun a w' heq => ?_⟩
  · rw [Overlay.single, if_pos hkp] at hk
    cases hk
  · obtain ⟨hpath, hlog⟩ := hdone a w' heq
    rw [heq] at hframe
    refine ⟨funext fun k => ?_, hlog⟩
    rw [Overlay.apply_single]
    rcases eq_or_ne k path with rfl | hk
    · rw [hpath, Function.update_self]
    · rw [Function.update_of_ne hk]
      exact hframe k hk

/-- The effect of opening a file, and of a rest that sets the contents of an empty file. -/
theorem Effect.opened {env : Env κ ι} {opened : Prog κ ι ε (File κ)} {rest : File κ → Prog κ ι ε α}
    {path : κ} {content : Option Bytes} {events : List (Event κ)} (hopen : Opens env opened path)
    (hrest : ∀ w, w.card path = some [] →
      (∀ k ≠ path, (rest ⟨path, []⟩ env w).2.card k = w.card k) ∧
        w.log <+: (rest ⟨path, []⟩ env w).2.log ∧
        ∀ a w', rest ⟨path, []⟩ env w = (.ok a, w') →
          w'.card path = content ∧ w'.log = w.log ++ events) :
    Effect env (opened >>= rest) (Overlay.single path content) events := by
  refine Effect.single fun w => ?_
  obtain ⟨hframe, hlog, hok⟩ := hopen w
  rw [Prog.bind_run]
  split
  · rename_i file w₁ hrun
    rw [hrun] at hframe hlog
    obtain ⟨rfl, hempty⟩ := hok file w₁ hrun
    obtain ⟨hframe', hgrows, hdone⟩ := hrest w₁ hempty
    rw [hlog] at hgrows hdone
    exact ⟨fun k hk => (hframe' k hk).trans (hframe k hk), hgrows, hdone⟩
  · rename_i stop w₁ hrun
    rw [hrun] at hframe hlog
    exact ⟨hframe, prefix_of_eq hlog, fun a w' heq => by cases heq⟩

/-- **Writing a file as a whole** sets its contents: it is opened, written and
closed. -/
theorem Effect.writeFile {env : Env κ ι} {opened : Prog κ ι ε (File κ)}
    {body : File κ → Prog κ ι ε (File κ)} {rest : Bool → Prog κ ι ε α} {path : κ} {bytes : Bytes}
    (hopen : Opens env opened path) (hbody : Writes env (body ⟨path, []⟩) ⟨path, []⟩ bytes)
    (hclosed : Quiet env (rest true))
    (hfailed : Fails env (rest false) ∨
      ∀ n errno accepted flushed, env n (.fclose path) ≠ .fail errno accepted flushed) :
    Effect env (do
      let file ← opened
      let file ← body file
      rest (← Stdio.fclose file)) (Overlay.single path (some bytes)) [.wrote path bytes] := by
  refine Effect.opened hopen fun w hempty => ?_
  obtain ⟨hpartly, hok⟩ := hbody w [] ⟨[], hempty, rfl⟩
  rw [Prog.bind_run]
  split
  · rename_i file w₁ hrun
    rw [hrun] at hpartly
    obtain ⟨hpath, hholds⟩ := hok file w₁ hrun
    obtain ⟨hframe, hgrows, hdone⟩ := closing_spec rest hclosed (hpath ▸ hfailed) hholds
    rw [hpath] at hframe hdone
    rw [hpartly.log] at hgrows hdone
    refine ⟨fun k hk => (hframe k hk).trans (hpartly.frame k hk), hgrows, fun a w' heq => ?_⟩
    obtain ⟨hcard, hlog⟩ := hdone a w' heq
    exact ⟨by rw [hcard, Function.update_self, List.nil_append], hlog⟩
  · rename_i stop w₁ hrun
    rw [hrun] at hpartly
    exact ⟨hpartly.frame, prefix_of_eq hpartly.log, fun a w' heq => by cases heq⟩

/-- **Filling a file as a whole** sets its contents: it is opened, given the bytes and
closed, and what went wrong is looked at after that. -/
theorem Effect.fillFile {γ : Type} {env : Env κ ι} {opened : Prog κ ι ε (File κ)}
    {body : File κ → Prog κ ι ε (Option γ × File κ)} {finish : Option γ → Prog κ ι ε α} {path : κ}
    {bytes : Bytes} (hopen : Opens env opened path)
    (hbody : Fills env (body ⟨path, []⟩) ⟨path, []⟩ bytes) (hnone : Quiet env (finish none))
    (hsome : ∀ e, Fails env (finish (some e)))
    (hnever : ∀ n errno accepted flushed, env n (.fclose path) ≠ .fail errno accepted flushed) :
    Effect env (do
      let file ← opened
      let r ← body file
      let _ ← Stdio.fclose r.2
      finish r.1) (Overlay.single path (some bytes)) [.wrote path bytes] := by
  have hquiet : ∀ r, Quiet env (finish r) := by
    rintro (_ | e)
    · exact hnone
    · exact (hsome e).quiet
  refine Effect.opened hopen fun w hempty => ?_
  obtain ⟨hpartly, hok⟩ := hbody w [] ⟨[], hempty, rfl⟩
  rw [Prog.bind_run]
  split
  · rename_i r w₁ hrun
    rw [hrun] at hpartly
    obtain ⟨hpath, b, -, hholds, hall⟩ := hok r.1 r.2 w₁ hrun
    obtain ⟨hframe, hgrows, hdone⟩ := closing_spec (fun _ => finish r.1) (hquiet r.1)
      (Or.inr (hpath ▸ hnever)) hholds
    rw [hpath] at hframe hdone
    rw [hpartly.log] at hgrows hdone
    refine ⟨fun k hk => (hframe k hk).trans (hpartly.frame k hk), hgrows, fun a w' heq => ?_⟩
    -- it succeeds only if nothing went wrong
    have hr : r.1 = none := by
      obtain ⟨_, w₂, -, hfinish⟩ := Prog.bind_ok heq
      cases hcase : r.1 with
      | none => rfl
      | some e =>
        rw [hcase] at hfinish
        exact absurd (by rw [hfinish]) ((hsome e).stops w₂ a)
    obtain ⟨hcard, hlog⟩ := hdone a w' heq
    rw [hall hr, List.nil_append] at hcard hlog
    exact ⟨by rw [hcard, Function.update_self], hlog⟩
  · rename_i stop w₁ hrun
    rw [hrun] at hpartly
    exact ⟨hpartly.frame, prefix_of_eq hpartly.log, fun a w' heq => by cases heq⟩

/-- **What `remove` does**: where it succeeds, or finds no file, there is none. -/
theorem remove_spec (env : Env κ ι) (path : κ) (w : World κ) :
    (∀ k ≠ path, (remove (ε := ε) path env w).2.card k = w.card k) ∧
    w.log <+: (remove (ε := ε) path env w).2.log ∧
    ∀ removed w', remove (ε := ε) path env w = (.ok removed, w') →
      (removed = true ∨ w'.errno = ENOENT) →
        w'.card = Function.update w.card path none ∧ w'.log = w.log ++ [.removed path] := by
  have hne : ∀ k ≠ path, (w.tick.set path none).card k = w.card k :=
    fun k hk => Function.update_of_ne hk _ _
  rw [remove]
  split
  · split
    · refine ⟨hne, List.prefix_append _ _, fun removed w' heq _ => ?_⟩
      simp only [Prod.mk.injEq] at heq
      rw [← heq.2]
      exact ⟨rfl, rfl⟩
    · rename_i hmissing
      refine ⟨fun _ _ => rfl, List.prefix_append _ _, fun removed w' heq _ => ?_⟩
      simp only [Prod.mk.injEq] at heq
      rw [← heq.2, ← hmissing, Function.update_eq_self]
      exact ⟨rfl, rfl⟩
  · refine ⟨fun _ _ => rfl, List.prefix_rfl, fun removed w' heq hor => ?_⟩
    rename_i errno _ _ _
    simp only [Prod.mk.injEq, Except.ok.injEq] at heq
    rw [← heq.1, ← heq.2] at hor
    simp only [Bool.false_eq_true, false_or, World.failed] at hor
    split at hor
    · cases hor
    · exact absurd hor ‹_›
  · refine ⟨fun k hk => ?_, prefix_of_eq ?_, fun removed w' heq => by simp at heq⟩
    · split
      · rfl
      · exact hne k hk
    · split <;> rfl

/-- **Removing a file**, where every failure that leaves it there is an error. -/
theorem Effect.remove {env : Env κ ι} {rest : Bool → Prog κ ι ε α} {path : κ}
    (hquiet : ∀ removed, Quiet env (rest removed))
    (hstops : ∀ w a, w.errno ≠ ENOENT → (rest false env w).1 ≠ .ok a) :
    Effect env (Stdio.remove path >>= rest) (Overlay.single path none) [.removed path] := by
  refine Effect.single fun w => ?_
  obtain ⟨hframe, hgrows, hdone⟩ := remove_spec (ε := ε) env path w
  simp only [Prog.bind_run]
  split
  · rename_i removed w₁ hrun₁
    rw [hrun₁] at hframe hgrows
    obtain ⟨hcard, hlog⟩ := hquiet removed w₁
    refine ⟨fun k hk => by rw [hcard, hframe k hk], by rwa [hlog], fun a w' heq => ?_⟩
    have hgone : removed = true ∨ w₁.errno = ENOENT := by
      cases removed with
      | true => exact Or.inl rfl
      | false =>
        refine Or.inr (by_contra fun hne => hstops w₁ a hne ?_)
        rw [heq]
    obtain ⟨hcard', hlog'⟩ := hdone removed w₁ hrun₁ hgone
    rw [heq] at hcard hlog
    exact ⟨by rw [hcard, hcard', Function.update_self], hlog.trans hlog'⟩
  · rename_i stop w₁ hrun₁
    rw [hrun₁] at hframe hgrows
    exact ⟨hframe, hgrows, fun a w' heq => by cases heq⟩

end Stdio
