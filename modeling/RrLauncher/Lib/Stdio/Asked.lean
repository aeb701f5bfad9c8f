/-
# The calls a run makes

A program over the card keeps no record of its calls, but the environment knows of
them: a run makes a call exactly if another reply to it makes it another run
(`Asks`).  A reply always shows, since a program that is halted at a call is no longer
running, and one that was not halted there is.  A program that does not depend on the
replies to a call never makes it (`Avoids`), and so programs are put together from
programs that avoid a call.
-/

import RrLauncher.Lib.Stdio.Effects

namespace Stdio

variable {κ ι ε α β : Type}

/-- Environments that differ at most in their replies to one call. -/
def SameBut (call : Call κ ι) (env env' : Env κ ι) : Prop := ∀ n c, c ≠ call → env' n c = env n c

/-- **The run makes the call**: with another reply to it this is another run. -/
def Asks (m : Prog κ ι ε α) (env : Env κ ι) (w : World κ) (call : Call κ ι) : Prop :=
  ∃ env', SameBut call env env' ∧ m env' w ≠ m env w

/-- No run of the program makes the call. -/
def Avoids (m : Prog κ ι ε α) (call : Call κ ι) : Prop :=
  ∀ env env' w, SameBut call env env' → m env' w = m env w

/-- Two replies that make different runs show that the call is made, whatever the reply
is that it really gets. -/
theorem asks_of_ne {m : Prog κ ι ε α} {env env₁ env₂ : Env κ ι} {w : World κ} {call : Call κ ι}
    (h₁ : SameBut call env env₁) (h₂ : SameBut call env env₂) (hne : m env₁ w ≠ m env₂ w) :
    Asks m env w call := by
  by_cases h : m env₁ w = m env w
  · exact ⟨env₂, h₂, fun heq => hne (h.trans heq.symm)⟩
  · exact ⟨env₁, h₁, h⟩

namespace Avoids

variable {call : Call κ ι} {m : Prog κ ι ε α} {f : α → Prog κ ι ε β}

/-- A program that only returns a value makes no call. -/
theorem pure (a : α) : Avoids (Pure.pure a : Prog κ ι ε α) call := fun _ _ _ _ => rfl

/-- A program that only stops with an error makes no call. -/
theorem throw (e : ε) : Avoids (Prog.throw e : Prog κ ι ε α) call := fun _ _ _ _ => rfl

/-- A program that stops at once makes no call. -/
theorem halt : Avoids (Prog.halt : Prog κ ι ε α) call := fun _ _ _ _ => rfl

/-- Looking at `errno` is no call of the library, so it avoids every call. -/
theorem getErrno : Avoids (Prog.getErrno : Prog κ ι ε ℕ) call := fun _ _ _ _ => rfl

/-- Two programs one after the other avoid a call if each of them does, the second for every value
that the first may hand on. -/
theorem bind (hm : Avoids m call) (hf : ∀ a, Avoids (f a) call) : Avoids (m >>= f) call := by
  intro env env' w hsame
  rw [Prog.bind_run, Prog.bind_run, hm env env' w hsame]
  split
  · exact hf _ env env' _ hsame
  · rfl

/-- A first part that avoids the call, and what it is followed by. -/
theorem not_asks_bind (hm : Avoids m call) {env : Env κ ι} {w : World κ}
    (hf : ∀ a w', m env w = (.ok a, w') → Avoids (f a) call) : ¬ Asks (m >>= f) env w call := by
  rintro ⟨env', hsame, hne⟩
  apply hne
  rw [Prog.bind_run, Prog.bind_run, hm env env' w hsame]
  split
  · exact hf _ _ ‹_› env env' _ hsame
  · rfl

/-- A loop that is over at the first element that fails a test. -/
theorem forEach_takeWhile {γ : Type} {xs : List γ} {test : γ → Bool} {body : γ → Prog κ ι ε Unit}
    (hgood : ∀ x ∈ xs.takeWhile test, Avoids (body x) call)
    (hbad : ∀ x, test x = false → Avoids (body x) call ∧ ∀ env, Fails env (body x)) :
    Avoids (Prog.forEach xs body) call := by
  induction xs with
  | nil => exact pure ()
  | cons x xs ih =>
    by_cases hx : test x = true
    · rw [List.takeWhile_cons_of_pos hx, List.forall_mem_cons] at hgood
      exact hgood.1.bind fun _ => ih hgood.2
    · obtain ⟨havoids, hfails⟩ := hbad x (Bool.not_eq_true _ ▸ hx)
      intro env env' w hsame
      rw [Prog.forEach, Prog.bind_run, Prog.bind_run, havoids env env' w hsame]
      split
      · exact ((hfails env).not_ok ‹_›).elim
      · rfl

/-- A loop avoids a call if its body does so at every element of the list. -/
theorem forEach {γ : Type} {xs : List γ} {body : γ → Prog κ ι ε Unit}
    (h : ∀ x ∈ xs, Avoids (body x) call) : Avoids (Prog.forEach xs body) call := by
  induction xs with
  | nil => exact pure ()
  | cons x xs ih =>
    rw [List.forall_mem_cons] at h
    exact h.1.bind fun _ => ih h.2

/-- A question to the system avoids every call other than that question itself. -/
theorem ask {question : ι} (hne : .ask question ≠ call) :
    Avoids (Stdio.ask question : Prog κ ι ε _) call := by
  intro env env' w hsame
  rw [Stdio.ask, Stdio.ask, hsame _ _ hne]

/-- Opening a file for reading avoids every call other than the opening of that path. -/
theorem fopenRead {path : κ} (hne : .fopenRead path ≠ call) :
    Avoids (Stdio.fopenRead path : Prog κ ι ε _) call := by
  intro env env' w hsame
  rw [Stdio.fopenRead, Stdio.fopenRead, hsame _ _ hne]

/-- Making a folder avoids every call other than the making of that folder. -/
theorem mkdir {path : κ} (hne : .mkdir path ≠ call) :
    Avoids (Stdio.mkdir path : Prog κ ι ε _) call := by
  intro env env' w hsame
  rw [Stdio.mkdir, Stdio.mkdir, hsame _ _ hne]

variable [DecidableEq κ]

/-- Writing to a file avoids a call other than a write to its path, provided that what is done after
a short write avoids it too. -/
theorem fwriteOr {file : File κ} {bytes : Bytes} {onShort : Prog κ ι ε (File κ)}
    (hne : .fwrite file.path ≠ call) (hshort : Avoids onShort call) :
    Avoids (Stdio.fwriteOr file bytes onShort) call := by
  refine bind (fun env env' w hsame => ?_) ?_
  · rw [fwrite, fwrite, hsame _ _ hne]
  · rintro ⟨written, file'⟩
    dsimp only
    split
    · exact hshort
    · exact pure file'

/-- Closing a file avoids every call other than the closing of that path. -/
theorem fclose {file : File κ} (hne : .fclose file.path ≠ call) :
    Avoids (Stdio.fclose file : Prog κ ι ε _) call := by
  intro env env' w hsame
  rw [Stdio.fclose, Stdio.fclose, hsame _ _ hne]

/-- Opening a file for writing avoids a call other than that opening, provided that what is done
where it fails avoids it too. -/
theorem fopenWriteOr {path : κ} {onNone : Prog κ ι ε (File κ)} (hne : .fopenWrite path ≠ call)
    (hnone : Avoids onNone call) : Avoids (Stdio.fopenWriteOr path onNone) call := by
  refine bind (fun env env' w hsame => ?_) ?_
  · rw [fopenWrite, fopenWrite, hsame _ _ hne]
  · rintro (_ | file)
    · exact hnone
    · exact pure file

end Avoids

/-! ### Where a run stops -/

/-- A program that stops in its first part stops as a whole, and what would follow is not run. -/
theorem Prog.bind_stops {m : Prog κ ι ε α} {env : Env κ ι} {w : World κ} {stop : Stop ε}
    (h : (m env w).1 = .error stop) (f : α → Prog κ ι ε β) : ((m >>= f) env w).1 = .error stop := by
  rw [Prog.bind_run]
  split
  · rename_i a w' hrun
    rw [hrun] at h
    cases h
  · rename_i stop' w' hrun
    rw [hrun] at h
    exact congrArg Except.error (Except.error.inj h)

/-- A loop each of whose turns succeeds, whatever world it starts in, succeeds as a whole. -/
theorem Prog.forEach_ok {γ : Type} {xs : List γ} {body : γ → Prog κ ι ε Unit} {env : Env κ ι}
    (h : ∀ x ∈ xs, ∀ w, ∃ w', body x env w = (.ok (), w')) (w : World κ) :
    ∃ w', Prog.forEach xs body env w = (.ok (), w') := by
  induction xs generalizing w with
  | nil => exact ⟨w, rfl⟩
  | cons x xs ih =>
    rw [List.forall_mem_cons] at h
    obtain ⟨w₁, hrun⟩ := h.1 w
    obtain ⟨w', hrest⟩ := ih h.2 w₁
    refine ⟨w', ?_⟩
    rw [Prog.forEach, Prog.bind_run, hrun]
    exact hrest

/-- A loop whose first turns succeed goes on with the others. -/
theorem Prog.forEach_append {γ : Type} {xs : List γ} {body : γ → Prog κ ι ε Unit} {env : Env κ ι}
    {w w' : World κ} (h : Prog.forEach xs body env w = (.ok (), w')) (ys : List γ) :
    Prog.forEach (xs ++ ys) body env w = Prog.forEach ys body env w' := by
  induction xs generalizing w with
  | nil =>
    obtain rfl : w = w' := congrArg Prod.snd h
    rfl
  | cons x xs ih =>
    obtain ⟨u, w₁, hrun, hrest⟩ := Prog.bind_ok h
    rw [List.cons_append, Prog.forEach, Prog.bind_run, hrun]
    exact ih hrest

end Stdio
