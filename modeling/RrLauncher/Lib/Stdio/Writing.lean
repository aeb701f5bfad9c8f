/-
# Writing to a file

What a program gives to a file that is open: however the program ends, only this file
changed, and it has a prefix of what was given to it (`Writes`, `Fills`).
-/

import RrLauncher.Lib.Stdio.Effects

namespace Stdio

variable {κ ι ε α β : Type}

/-- The bytes that were given to a file: what is on the card and what waits. -/
def Holds (file : File κ) (w : World κ) (content : Bytes) : Prop :=
  ∃ b, w.card file.path = some b ∧ b ++ file.pending = content

/-- From `w` to `w'` only one file changed, and it has a prefix of `content`. -/
structure Partly (path : κ) (content : Bytes) (w w' : World κ) : Prop where
  frame : ∀ k ≠ path, w'.card k = w.card k
  log : w'.log = w.log
  onCard : ∃ b, w'.card path = some b ∧ b <+: content

/-- A file that was given some bytes has a prefix of them on the card: what is missing waits in the
buffer. -/
theorem Holds.partly {file : File κ} {w w' : World κ} {c : Bytes} (h : Holds file w c)
    (hcard : w'.card = w.card) (hlog : w'.log = w.log) : Partly file.path c w w' := by
  obtain ⟨b, hb, rfl⟩ := h
  exact ⟨fun k _ => by rw [hcard], hlog, b, by rw [hcard, hb], List.prefix_append _ _⟩

/-- More bytes in the buffer of a file are more bytes that were given to it. The card does not have
to see them yet. -/
theorem Holds.push {file : File κ} {w : World κ} {c : Bytes} (h : Holds file w c) {w' : World κ}
    (hcard : w'.card = w.card) (bytes : Bytes) :
    Holds ⟨file.path, file.pending ++ bytes⟩ w' (c ++ bytes) := by
  obtain ⟨b, hb, hc⟩ := h
  exact ⟨b, by rw [hcard, hb], by rw [← List.append_assoc, hc]⟩

/-- What changed only one file from a world on did so from any world with the same card and the same
log, and a prefix of the bytes is one of more bytes. -/
theorem Partly.of_card {path : κ} {c c' : Bytes} {w w₁ w' : World κ} (h : Partly path c w₁ w')
    (hcard : w₁.card = w.card) (hlog : w₁.log = w.log) (hc : c <+: c') : Partly path c' w w' := by
  obtain ⟨b, hb, hbc⟩ := h.onCard
  exact ⟨fun k hk => by rw [h.frame k hk, hcard], h.log.trans hlog, b, hb, hbc.trans hc⟩

/-- One part of a program after the other: if each of them changed only the one file, both did. -/
theorem Partly.trans {path : κ} {c c' : Bytes} {w w₁ w' : World κ} (h : Partly path c w w₁)
    (h' : Partly path c' w₁ w') : Partly path c' w w' :=
  ⟨fun k hk => (h'.frame k hk).trans (h.frame k hk), h'.log.trans h.log, h'.onCard⟩

/-- A part that leaves the card alone, and after it the file may be given more. -/
theorem Partly.quiet {path : κ} {c c' : Bytes} {w w₁ w' : World κ} (h : Partly path c w w₁)
    (hcard : w'.card = w₁.card) (hlog : w'.log = w₁.log) (hc : c <+: c') : Partly path c' w w' := by
  obtain ⟨b, hb, hbc⟩ := h.onCard
  exact ⟨fun k hk => by rw [hcard, h.frame k hk], hlog.trans h.log, b, by rw [hcard, hb],
    hbc.trans hc⟩

/-! ### Writing a file -/

/-- **A program that writes** `bytes` to the file it is given: however it ends only
that file changed, and has a prefix of what was given to it; and if it succeeds
all the bytes were taken. -/
def Writes (env : Env κ ι) (m : Prog κ ι ε (File κ)) (file : File κ) (bytes : Bytes) : Prop :=
  ∀ w c, Holds file w c → Partly file.path (c ++ bytes) w (m env w).2 ∧
    ∀ file' w', m env w = (.ok file', w') → file'.path = file.path ∧ Holds file' w' (c ++ bytes)

namespace Writes

variable {env : Env κ ι} {m : Prog κ ι ε (File κ)} {f : File κ → Prog κ ι ε (File κ)} {file : File κ}
  {bytes bytes' : Bytes}

/-- A program that returns the file as it is gives it no bytes. -/
theorem pure (file : File κ) : Writes env (Pure.pure file : Prog κ ι ε _) file [] := by
  intro w c h
  rw [List.append_nil]
  refine ⟨h.partly rfl rfl, fun file' w' heq => ?_⟩
  rw [Prog.pure_run, Prod.mk.injEq, Except.ok.injEq] at heq
  obtain ⟨rfl, rfl⟩ := heq
  exact ⟨rfl, h⟩

/-- **Writes compose**: a program that gives some bytes to a file, and then one that gives it more,
together give it all of them, and wherever they stop the card has a prefix. -/
theorem bind (hm : Writes env m file bytes)
    (hf : ∀ file', file'.path = file.path → Writes env (f file') file' bytes') :
    Writes env (m >>= f) file (bytes ++ bytes') := by
  intro w c h
  obtain ⟨hpartly, hok⟩ := hm w c h
  rw [← List.append_assoc, Prog.bind_run]
  split
  · rename_i file' w₁ hrun
    rw [hrun] at hpartly
    obtain ⟨hpath, hholds⟩ := hok file' w₁ hrun
    obtain ⟨hpartly', hok'⟩ := hf file' hpath w₁ _ hholds
    rw [hpath] at hpartly' hok'
    exact ⟨hpartly.trans hpartly', hok'⟩
  · rename_i stop w₁ hrun
    rw [hrun] at hpartly
    refine ⟨hpartly.of_card rfl rfl (List.prefix_append _ _), fun file' w' heq => by cases heq⟩

/-- A first part that leaves the card alone. -/
theorem bind_quiet {γ : Type} {q : Prog κ ι ε γ} {f : γ → Prog κ ι ε (File κ)}
    (hq : Quiet env q) (hf : ∀ a, Writes env (f a) file bytes) : Writes env (q >>= f) file bytes := by
  intro w c h
  obtain ⟨hcard, hlog⟩ := hq w
  rw [Prog.bind_run]
  split
  · rename_i a w₁ hrun
    rw [hrun] at hcard hlog
    obtain ⟨b, hb, hc⟩ := h
    obtain ⟨hpartly, hok⟩ := hf a w₁ c ⟨b, by rw [hcard, hb], hc⟩
    exact ⟨hpartly.of_card hcard hlog List.prefix_rfl, hok⟩
  · rename_i stop w₁ hrun
    rw [hrun] at hcard hlog
    exact ⟨(h.partly hcard hlog).of_card rfl rfl (List.prefix_append _ _),
      fun file' w' heq => by cases heq⟩

/-- An error branch writes nothing, so it keeps whatever is promised where the program succeeds. -/
theorem of_fails (hm : Fails env m) (file : File κ) (bytes : Bytes) : Writes env m file bytes := by
  intro w c h
  refine ⟨(h.partly (hm.quiet w).1 (hm.quiet w).2).of_card rfl rfl (List.prefix_append _ _),
    fun file' w' heq => absurd (by rw [heq]) (hm.stops w file')⟩

end Writes

/-- A program that opens a file for writing: it changes no other file, and if it
succeeds the file is empty. -/
def Opens (env : Env κ ι) (m : Prog κ ι ε (File κ)) (path : κ) : Prop :=
  ∀ w, (∀ k ≠ path, (m env w).2.card k = w.card k) ∧ (m env w).2.log = w.log ∧
    ∀ file w', m env w = (.ok file, w') → file = ⟨path, []⟩ ∧ w'.card path = some []

namespace Opens

variable {env : Env κ ι} {m : Prog κ ι ε (File κ)} {path : κ}

/-- A program that always fails never gets to open a file. -/
theorem of_fails (h : Fails env m) (path : κ) : Opens env m path := fun w =>
  ⟨fun k _ => by rw [(h.quiet w).1], (h.quiet w).2, fun file w' heq =>
    absurd (by rw [heq]) (h.stops w file)⟩

/-- A first part that leaves the card alone may stand in front of what opens the file. -/
theorem bind_quiet {γ : Type} {q : Prog κ ι ε γ} {f : γ → Prog κ ι ε (File κ)} (hq : Quiet env q)
    (hf : ∀ a, Opens env (f a) path) : Opens env (q >>= f) path := by
  intro w
  obtain ⟨hcard, hlog⟩ := hq w
  rw [Prog.bind_run]
  split
  · rename_i a w₁ hrun
    rw [hrun] at hcard hlog
    obtain ⟨hframe, hlog', hok⟩ := hf a w₁
    exact ⟨fun k hk => by rw [hframe k hk, hcard], hlog'.trans hlog, hok⟩
  · rename_i stop w₁ hrun
    rw [hrun] at hcard hlog
    exact ⟨fun k _ => by rw [hcard], hlog, fun file w' heq => by cases heq⟩

end Opens

/-- **A program that gives a file as many of the bytes as it can**, and says what kept it
from giving all of them. -/
def Fills {γ : Type} (env : Env κ ι) (m : Prog κ ι ε (Option γ × File κ)) (file : File κ)
    (bytes : Bytes) : Prop :=
  ∀ w c, Holds file w c → Partly file.path (c ++ bytes) w (m env w).2 ∧
    ∀ r file' w', m env w = (.ok (r, file'), w') →
      file'.path = file.path ∧ ∃ b, b <+: bytes ∧ Holds file' w' (c ++ b) ∧ (r = none → b = bytes)

/-- A program that only says what went wrong. -/
structure Reports {γ : Type} (env : Env κ ι) (m : Prog κ ι ε (Option γ × File κ)) (file : File κ) :
    Prop where
  quiet : Quiet env m
  result : ∀ w r file' w', m env w = (.ok (r, file'), w') → r ≠ none ∧ file' = file

namespace Fills

variable {γ : Type} {env : Env κ ι} {file : File κ} {bytes : Bytes}

/-- A program that returns the file as it is, and reports nothing, gives it no bytes. -/
theorem pure (file : File κ) :
    Fills env (Pure.pure (none, file) : Prog κ ι ε (Option γ × File κ)) file [] := by
  intro w c h
  rw [List.append_nil]
  refine ⟨h.partly rfl rfl, fun r file' w' heq => ?_⟩
  rw [Prog.pure_run, Prod.mk.injEq, Except.ok.injEq, Prod.mk.injEq] at heq
  obtain ⟨⟨rfl, rfl⟩, rfl⟩ := heq
  exact ⟨rfl, [], List.prefix_rfl, by rwa [List.append_nil], fun _ => rfl⟩

/-- A program that reports an error and leaves the file alone promises nothing of the bytes that it
was to write. -/
theorem of_reports {m : Prog κ ι ε (Option γ × File κ)} (hm : Reports env m file) (bytes : Bytes) :
    Fills env m file bytes := by
  intro w c h
  obtain ⟨hcard, hlog⟩ := hm.quiet w
  refine ⟨(h.partly hcard hlog).of_card rfl rfl (List.prefix_append _ _), fun r file' w' heq => ?_⟩
  obtain ⟨hr, rfl⟩ := hm.result w r file' w' heq
  rw [heq] at hcard
  obtain ⟨b, hb, hc⟩ := h
  exact ⟨rfl, [], List.nil_prefix, ⟨b, by rw [hcard, hb], by rw [hc, List.append_nil]⟩,
    fun hnone => absurd hnone hr⟩

/-- A first part that leaves the card alone. -/
theorem bind_quiet {δ : Type} {q : Prog κ ι ε δ} {f : δ → Prog κ ι ε (Option γ × File κ)}
    (hq : Quiet env q) (hf : ∀ a, Fills env (f a) file bytes) : Fills env (q >>= f) file bytes := by
  intro w c h
  obtain ⟨hcard, hlog⟩ := hq w
  rw [Prog.bind_run]
  split
  · rename_i a w₁ hrun
    rw [hrun] at hcard hlog
    obtain ⟨b, hb, hc⟩ := h
    obtain ⟨hpartly, hok⟩ := hf a w₁ c ⟨b, by rw [hcard, hb], hc⟩
    exact ⟨hpartly.of_card hcard hlog List.prefix_rfl, hok⟩
  · rename_i stop w₁ hrun
    rw [hrun] at hcard hlog
    exact ⟨(h.partly hcard hlog).of_card rfl rfl (List.prefix_append _ _),
      fun r file' w' heq => by cases heq⟩

end Fills

/-- A failure of a file that the program goes on with. -/
theorem Reports.pure {γ : Type} {env : Env κ ι} (e : γ) (file : File κ) :
    Reports env (Pure.pure (some e, file) : Prog κ ι ε (Option γ × File κ)) file := by
  refine ⟨Quiet.pure _, fun w r file' w' heq => ?_⟩
  rw [Prog.pure_run, Prod.mk.injEq, Except.ok.injEq, Prod.mk.injEq] at heq
  obtain ⟨⟨rfl, rfl⟩, rfl⟩ := heq
  exact ⟨by simp, rfl⟩

/-- Returning the `errno` of the moment reports a failure and leaves the file and the card as they
are. -/
theorem Reports.errno {γ : Type} {env : Env κ ι} (f : ℕ → γ) (file : File κ) :
    Reports env (do return (some (f (← Prog.getErrno)), file) : Prog κ ι ε (Option γ × File κ))
      file := by
  refine ⟨Quiet.getErrno.bind fun _ => Quiet.pure _, fun w r file' w' heq => ?_⟩
  simp only [Prog.bind_run, Prog.getErrno, Prog.pure_run, Prod.mk.injEq, Except.ok.injEq] at heq
  obtain ⟨⟨rfl, rfl⟩, rfl⟩ := heq
  exact ⟨by simp, rfl⟩

section Files

variable [DecidableEq κ]

/-- Flushing moves bytes from the buffer to the card and keeps, in all, what was given to the file.
No other file is changed. -/
theorem flush_spec {file : File κ} {w : World κ} {c : Bytes} (h : Holds file w c) (n : ℕ) :
    (flush file n w).1.path = file.path ∧ Holds (flush file n w).1 (flush file n w).2 c ∧
      Partly file.path c w (flush file n w).2 := by
  obtain ⟨b, hb, hc⟩ := h
  have hcard : (flush file n w).2.card file.path = some (b ++ file.pending.take n) := by
    simp [flush, World.set, hb]
  refine ⟨rfl, ⟨_, hcard, ?_⟩, ?_, rfl, _, hcard, ?_⟩
  · rw [flush, List.append_assoc, List.take_append_drop, hc]
  · exact fun k hk => Function.update_of_ne hk _ _
  · rw [← hc]
    exact (List.prefix_append_right_inj b).mpr (List.take_prefix _ _)

/-- **What `fwrite` does**: however it ends, the card has a prefix of all that was
given to the file; the number it returns is how many bytes it took. -/
theorem fwrite_spec (env : Env κ ι) {file : File κ} {w : World κ} {c : Bytes}
    (h : Holds file w c) (bytes : Bytes) :
    Partly file.path (c ++ bytes) w (fwrite (ε := ε) file bytes env w).2 ∧
      ∀ n file' w', fwrite (ε := ε) file bytes env w = (.ok (n, file'), w') →
        file'.path = file.path ∧ n ≤ bytes.length ∧ Holds file' w' (c ++ bytes.take n) := by
  rw [fwrite]
  split
  · rename_i m _
    obtain ⟨hpath, hholds, hpartly⟩ := flush_spec (h.push (show w.tick.card = w.card from rfl) bytes) m
    refine ⟨hpartly.of_card rfl rfl List.prefix_rfl, fun n file' w' heq => ?_⟩
    simp only [Prod.mk.injEq, Except.ok.injEq] at heq
    obtain ⟨⟨rfl, rfl⟩, rfl⟩ := heq
    rw [List.take_length]
    exact ⟨hpath, Nat.le_refl _, hholds⟩
  · rename_i errno accepted m _
    obtain ⟨hpath, hholds, hpartly⟩ := flush_spec (h.push (show (w.failed errno).card = w.card from rfl)
      (bytes.take (min accepted (bytes.length - 1)))) m
    refine ⟨hpartly.of_card rfl rfl ?_, fun n file' w' heq => ?_⟩
    · exact (List.prefix_append_right_inj c).mpr (List.take_prefix _ _)
    · simp only [Prod.mk.injEq, Except.ok.injEq] at heq
      obtain ⟨⟨rfl, rfl⟩, rfl⟩ := heq
      exact ⟨hpath, by omega, hholds⟩
  · rename_i m _
    obtain ⟨-, -, hpartly⟩ := flush_spec (h.push (show w.tick.card = w.card from rfl) bytes) m
    exact ⟨hpartly.of_card rfl rfl List.prefix_rfl, fun n file' w' heq => by cases heq⟩

/-- An `fwrite`, and the rest where it is not short. -/
theorem Fills.fwrite {γ : Type} {env : Env κ ι} {file : File κ} {bytes bytes' : Bytes}
    {rest : ℕ × File κ → Prog κ ι ε (Option γ × File κ)}
    (hshort : ∀ n file', n ≠ bytes.length → Reports env (rest (n, file')) file')
    (hrest : ∀ file', Fills env (rest (bytes.length, file')) file' bytes') :
    Fills env (Stdio.fwrite file bytes >>= rest) file (bytes ++ bytes') := by
  intro w c h
  obtain ⟨hpartly, hok⟩ := fwrite_spec (ε := ε) env h bytes
  rw [Prog.bind_run]
  split
  · rename_i res w₁ hrun
    rw [hrun] at hpartly
    obtain ⟨n, file₁⟩ := res
    obtain ⟨hpath, hle, hholds⟩ := hok n file₁ w₁ hrun
    by_cases hn : n = bytes.length
    · subst hn
      rw [List.take_length] at hholds
      obtain ⟨hpartly', hok'⟩ := hrest file₁ w₁ _ hholds
      rw [hpath, List.append_assoc] at hpartly'
      refine ⟨hpartly.trans hpartly', fun r file' w' heq => ?_⟩
      obtain ⟨hpath', b, hb, hholds', hall⟩ := hok' r file' w' heq
      refine ⟨hpath'.trans hpath, bytes ++ b, (List.prefix_append_right_inj bytes).mpr hb,
        by rwa [List.append_assoc] at hholds', fun hnone => by rw [hall hnone]⟩
    · -- the short one: the rest is not written
      obtain ⟨hquiet, hresult⟩ := hshort n file₁ hn
      obtain ⟨hcard, hlog⟩ := hquiet w₁
      refine ⟨hpartly.quiet hcard hlog ?_, fun r file' w' heq => ?_⟩
      · exact (List.prefix_append_right_inj c).mpr (List.prefix_append _ _)
      · obtain ⟨hr, rfl⟩ := hresult w₁ r file' w' heq
        rw [heq] at hcard
        obtain ⟨b, hb, hc⟩ := hholds
        exact ⟨hpath, _, (List.take_prefix _ _).trans (List.prefix_append _ _),
          ⟨b, by rw [hcard, hb], hc⟩, fun hnone => absurd hnone hr⟩
  · rename_i stop w₁ hrun
    rw [hrun] at hpartly
    refine ⟨hpartly.of_card rfl rfl ?_, fun r file' w' heq => by cases heq⟩
    exact (List.prefix_append_right_inj c).mpr (List.prefix_append _ _)

/-- **What `fwrite`s in turn do**: the file is given a prefix of all of it, and all
of it if no error came back. -/
theorem fills_fwriteItems (env : Env κ ι) (file : File κ) (items : List (Bytes × (ℕ → ε))) :
    Fills env (fwriteItems file items) file (items.flatMap (·.1)) := by
  induction items generalizing file with
  | nil => exact Fills.pure file
  | cons item items ih =>
    rw [fwriteItems, List.flatMap_cons]
    refine Fills.fwrite (fun n file' hn => ?_) fun file' => ?_
    · simp only [if_pos hn]
      exact Reports.errno item.2 file'
    · simp only [ne_eq, not_true_eq_false, if_false]
      exact ih file'

/-- One write, where a short one ends in an error: the file is given all of the bytes if the program
succeeds, and has a prefix of them on the card however it ends. -/
theorem Writes.fwriteOr {env : Env κ ι} {onShort : Prog κ ι ε (File κ)} (hfails : Fails env onShort)
    (file : File κ) (bytes : Bytes) :
    Writes env (Stdio.fwriteOr file bytes onShort) file bytes := by
  intro w c h
  obtain ⟨hpartly, hok⟩ := fwrite_spec (ε := ε) env h bytes
  rw [Stdio.fwriteOr, Prog.bind_run]
  split
  · rename_i r w₁ hrun
    rw [hrun] at hpartly
    obtain ⟨hpath, -, hholds⟩ := hok r.1 r.2 w₁ hrun
    by_cases hn : r.1 ≠ bytes.length
    · simp only [if_pos hn]
      obtain ⟨hcard, hlog⟩ := hfails.quiet w₁
      exact ⟨hpartly.quiet hcard hlog List.prefix_rfl,
        fun file' w' heq => absurd (by rw [heq]) (hfails.stops w₁ file')⟩
    · simp only [if_neg hn]
      rw [not_not.mp hn, List.take_length] at hholds
      refine ⟨hpartly, fun file' w' heq => ?_⟩
      rw [Prog.pure_run, Prod.mk.injEq, Except.ok.injEq] at heq
      obtain ⟨rfl, rfl⟩ := heq
      exact ⟨hpath, hholds⟩
  · rename_i stop w₁ hrun
    rw [hrun] at hpartly
    exact ⟨hpartly, fun file' w' heq => by cases heq⟩

/-- `fwrite`s in turn whose result is checked, before more that is written. -/
theorem Writes.fwriteItemsOr {env : Env κ ι} {rest : Option ε × File κ → Prog κ ι ε (File κ)}
    {file : File κ} {items : List (Bytes × (ℕ → ε))} {bytes : Bytes}
    (hfails : ∀ e file', Fails env (rest (some e, file')))
    (hrest : ∀ file', file'.path = file.path → Writes env (rest (none, file')) file' bytes) :
    Writes env (fwriteItems file items >>= rest) file (items.flatMap (·.1) ++ bytes) := by
  intro w c h
  obtain ⟨hpartly, hok⟩ := fills_fwriteItems env file items w c h
  rw [Prog.bind_run, ← List.append_assoc]
  split
  · rename_i r w₁ hrun
    rw [hrun] at hpartly
    obtain ⟨hpath, b, -, hholds, hall⟩ := hok r.1 r.2 w₁ hrun
    rcases r with ⟨_ | e, file'⟩
    · rw [hall rfl] at hholds
      obtain ⟨hpartly', hok'⟩ := hrest file' hpath w₁ _ hholds
      rw [show file'.path = file.path from hpath] at hpartly' hok'
      exact ⟨hpartly.trans hpartly', hok'⟩
    · obtain ⟨hcard, hlog⟩ := (hfails e file').quiet w₁
      exact ⟨hpartly.quiet hcard hlog (List.prefix_append _ _),
        fun file'' w' heq => absurd (by rw [heq]) ((hfails e file').stops w₁ file'')⟩
  · rename_i stop w₁ hrun
    rw [hrun] at hpartly
    exact ⟨hpartly.of_card rfl rfl (List.prefix_append _ _), fun file' w' heq => by cases heq⟩

end Files

end Stdio
