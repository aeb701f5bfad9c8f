/-
# What a close leaves behind

A failing `fclose` may lose what was still in the buffer.  A program that notes, for
each file that it closes, what is then on the card and what was lost tells from its
notes what the card has afterwards (`Notes`): the last closing of a file decides.  The
files are all there if and only if the last closing of each lost nothing
(`complete_iff_lastKept`).

The noting program is not the program that runs; `discard` forgets the notes.
-/

import RrLauncher.Lib.Stdio.WholeFile

namespace Stdio

variable {κ ι ε α β : Type}

namespace Prog

instance : LawfulMonad (Prog κ ι ε) := by
  refine LawfulMonad.mk' (Prog κ ι ε) (fun m => ?_) (fun _ _ => rfl) (fun m f g => ?_)
  · funext env w
    change (m >>= pure) env w = m env w
    rw [bind_run]
    rcases m env w with ⟨_ | a, w'⟩ <;> rfl
  · funext env w
    simp only [bind_run]
    rcases m env w with ⟨_ | a, w'⟩ <;> rfl

/-- The program without its result. -/
def discard (m : Prog κ ι ε α) : Prog κ ι ε Unit := do
  let _ ← m
  return ()

/-- The results of the program for each element in turn. -/
def collect (xs : List α) (f : α → Prog κ ι ε (List β)) : Prog κ ι ε (List β) :=
  match xs with
  | [] => return []
  | x :: rest => do
    let ys ← f x
    let zs ← collect rest f
    return ys ++ zs

/-- A program that only returns a value does nothing once its result is forgotten. -/
@[simp] theorem discard_pure (a : α) : discard (pure a : Prog κ ι ε α) = pure () := rfl

/-- A program that stops with an error has no result to forget. -/
@[simp] theorem discard_throw (e : ε) : discard (throw e : Prog κ ι ε α) = throw e := rfl

/-- A program that stops at once has no result to forget. -/
@[simp] theorem discard_halt : discard (halt : Prog κ ι ε α) = halt := rfl

/-- Of two programs one after the other only the second one's result is forgotten, since it needs
that of the first one. -/
@[simp] theorem discard_bind (m : Prog κ ι ε α) (f : α → Prog κ ι ε β) :
    discard (m >>= f) = m >>= fun a => discard (f a) := bind_assoc _ _ _

/-- The result of a choice is forgotten in both of its branches. -/
@[simp] theorem discard_ite (c : Prop) [Decidable c] (m m' : Prog κ ι ε α) :
    discard (if c then m else m') = if c then discard m else discard m' :=
  apply_ite discard c m m'

/-- Without the results a loop that collects them is a loop. -/
theorem discard_collect (xs : List α) (f : α → Prog κ ι ε (List β)) :
    discard (collect xs f) = forEach xs fun x => discard (f x) := by
  induction xs with
  | nil => rfl
  | cons x rest ih =>
    simp only [collect, forEach, discard_bind, ← ih]
    rw [discard, bind_assoc]
    rfl

/-- A program without its result succeeds exactly where the one with it does, in the same world. -/
theorem discard_ok {m : Prog κ ι ε α} {env : Env κ ι} {w w' : World κ} :
    discard m env w = (.ok (), w') ↔ ∃ a, m env w = (.ok a, w') := by
  constructor
  · intro h
    obtain ⟨a, w₁, hrun, hrest⟩ := bind_ok h
    obtain rfl : w₁ = w' := congrArg Prod.snd hrest
    exact ⟨a, hrun⟩
  · rintro ⟨a, hrun⟩
    rw [discard, bind_run, hrun]
    rfl

end Prog

/-- How a file was closed: what the card then has of it, and what was lost. -/
structure Closing (κ : Type) where
  path : κ
  kept : Bytes
  lost : Bytes
  deriving DecidableEq

/-- The file as it was given. -/
def Closing.given (c : Closing κ) : κ × Bytes := (c.path, c.kept ++ c.lost)

/-- The file as the card has it. -/
def Closing.onCard (c : Closing κ) : κ × Option Bytes := (c.path, some c.kept)

/-- What the answer to an `fclose` leaves in the buffer. -/
def unflushed (file : File κ) : Reply → Bytes
  | .ok _ => []
  | .fail _ _ n => file.pending.drop n
  | .halt n => file.pending.drop n

/-- No file was closed for the last time with bytes in its buffer. -/
def LastKept (closings : List (Closing κ)) : Prop :=
  ∀ pre c post, closings = pre ++ c :: post → (∀ later ∈ post, later.path ≠ c.path) → c.lost = []

/-- **The files are complete**: each has what it was given last, and the others are as
before. -/
structure Complete (files : List (κ × Bytes)) (card card' : κ → Option Bytes) : Prop where
  written : ∀ pre file post, files = pre ++ file :: post →
    (∀ later ∈ post, later.1 ≠ file.1) → card' file.1 = some file.2
  others : ∀ k, (∀ file ∈ files, file.1 ≠ k) → card' k = card k

section Files

variable [DecidableEq κ]

/-- `fclose(file)`, with a note of what is then on the card and what was lost. -/
def fcloseNoting (file : File κ) : Prog κ ι ε (Closing κ) := fun env w =>
  match fclose file env w with
  | (.ok _, w') =>
    (.ok ⟨file.path, (w'.card file.path).getD [], unflushed file (env w.calls (.fclose file.path))⟩, w')
  | (.error stop, w') => (.error stop, w')

/-- Without its notes, the noting program closes the file as the program does that runs. -/
theorem discard_fcloseNoting (file : File κ) :
    Prog.discard (fcloseNoting file : Prog κ ι ε _) = Prog.discard (fclose file) := by
  funext env w
  rw [Prog.discard, Prog.discard, Prog.bind_run, Prog.bind_run, fcloseNoting]
  split <;> split <;> simp_all [Prog.pure_run]

/-- **A close that succeeds or fails** leaves on the card what it notes. -/
theorem fcloseNoting_spec {env : Env κ ι} {file : File κ} {w w' : World κ} {content : Bytes}
    {c : Closing κ} (h : Holds file w content)
    (hrun : fcloseNoting (ε := ε) file env w = (.ok c, w')) :
    c.given = (file.path, content) ∧ w'.card = Function.update w.card file.path (some c.kept) := by
  obtain ⟨b, hb, rfl⟩ := h
  rw [fcloseNoting, fclose] at hrun
  cases hreply : env w.calls (.fclose file.path) with
  | ok n =>
    simp only [hreply, Prod.mk.injEq, Except.ok.injEq] at hrun
    obtain ⟨rfl, rfl⟩ := hrun
    simp [Closing.given, unflushed, flush, World.set, World.tick, hb]
  | fail errno accepted n =>
    simp only [hreply, Prod.mk.injEq, Except.ok.injEq] at hrun
    obtain ⟨rfl, rfl⟩ := hrun
    simp [Closing.given, unflushed, flush, World.set, World.failed, World.tick, hb]
  | halt n => simp [hreply] at hrun

/-- **A program that writes files and notes how it closed them**: where it succeeds it was
given these files, and the card is as its notes say. -/
def Notes (env : Env κ ι) (m : Prog κ ι ε (List (Closing κ))) (files : List (κ × Bytes)) : Prop :=
  ∀ w closings w', m env w = (.ok closings, w') → closings.map Closing.given = files ∧
    w'.card = (Overlay.setAll (closings.map Closing.onCard)).apply w.card

namespace Notes

variable {env : Env κ ι} {m : Prog κ ι ε (List (Closing κ))} {files files' : List (κ × Bytes)}

/-- A program that always fails and leaves the card alone notes nothing, so it accounts for any
files that it might have been given. -/
theorem of_fails (hm : Fails env m) (files : List (κ × Bytes)) : Notes env m files :=
  fun _ _ _ hrun => (hm.not_ok hrun).elim

/-- A program that leaves the card alone, and notes nothing where it succeeds, accounts for no
files. -/
theorem of_quiet (hm : Quiet env m) (hnil : ∀ w closings w', m env w = (.ok closings, w') →
    closings = []) : Notes env m [] := by
  intro w closings w' hrun
  obtain rfl := hnil w closings w' hrun
  refine ⟨rfl, ?_⟩
  rw [← (hm w).1, hrun]
  rfl

/-- A first part that leaves the card alone. -/
theorem bind_quiet {q : Prog κ ι ε α} {f : α → Prog κ ι ε (List (Closing κ))} (hq : Quiet env q)
    (hf : ∀ a, Notes env (f a) files) : Notes env (q >>= f) files := by
  intro w closings w' hrun
  obtain ⟨a, w₁, hfirst, hrest⟩ := Prog.bind_ok hrun
  obtain ⟨hgiven, hcard⟩ := hf a w₁ closings w' hrest
  refine ⟨hgiven, ?_⟩
  rw [hcard, ← (hq w).1, hfirst]

/-- Notes of one part, and of the next: together they account for the files of both, in order. -/
theorem append {m' : Prog κ ι ε (List (Closing κ))} (hm : Notes env m files)
    (hm' : Notes env m' files') :
    Notes env (do
      let cs ← m
      let cs' ← m'
      return cs ++ cs') (files ++ files') := by
  intro w closings w' hrun
  obtain ⟨cs, w₁, hfirst, hrest⟩ := Prog.bind_ok hrun
  obtain ⟨cs', w₂, hsecond, hpure⟩ := Prog.bind_ok hrest
  obtain ⟨rfl, rfl⟩ : cs ++ cs' = closings ∧ w₂ = w' := by
    rwa [Prog.pure_run, Prod.mk.injEq, Except.ok.injEq] at hpure
  obtain ⟨hgiven, hcard⟩ := hm w cs w₁ hfirst
  obtain ⟨hgiven', hcard'⟩ := hm' w₁ cs' w₂ hsecond
  constructor
  · rw [List.map_append, hgiven, hgiven']
  · rw [hcard', hcard, List.map_append, Overlay.setAll_append, Overlay.apply_seq]

/-- The notes of a loop account for the files of all of its turns, in their order. -/
theorem collect {xs : List α} {f : α → Prog κ ι ε (List (Closing κ))} {g : α → List (κ × Bytes)}
    (h : ∀ x, Notes env (f x) (g x)) : Notes env (Prog.collect xs f) (xs.flatMap g) := by
  induction xs with
  | nil => exact of_quiet (Quiet.pure _) fun w closings w' hrun => by cases hrun; rfl
  | cons x rest ih =>
    rw [Prog.collect, List.flatMap_cons]
    exact (h x).append ih

/-- **A file that is opened, written and closed** is noted. -/
theorem writeFile {opened : Prog κ ι ε (File κ)} {body : File κ → Prog κ ι ε (File κ)} {path : κ}
    {bytes : Bytes} (hopen : Opens env opened path)
    (hbody : Writes env (body ⟨path, []⟩) ⟨path, []⟩ bytes) :
    Notes env (do
      let file ← opened
      let file ← body file
      let c ← fcloseNoting file
      return [c]) [(path, bytes)] := by
  intro w closings w' hrun
  obtain ⟨file, w₁, hfirst, hrun⟩ := Prog.bind_ok hrun
  obtain ⟨file', w₂, hsecond, hrun⟩ := Prog.bind_ok hrun
  obtain ⟨c, w₃, hthird, hpure⟩ := Prog.bind_ok hrun
  obtain ⟨rfl, rfl⟩ : [c] = closings ∧ w₃ = w' := by
    rwa [Prog.pure_run, Prod.mk.injEq, Except.ok.injEq] at hpure
  -- the file was empty when it was opened, and then given all the bytes
  obtain ⟨hframe, -, hopened⟩ := hopen w
  rw [hfirst] at hframe
  obtain ⟨rfl, hempty⟩ := hopened file w₁ hfirst
  obtain ⟨hpartly, hwritten⟩ := hbody w₁ [] ⟨[], hempty, rfl⟩
  rw [hsecond] at hpartly
  obtain ⟨hpath, hholds⟩ := hwritten file' w₂ hsecond
  obtain ⟨hgiven, hcard⟩ := fcloseNoting_spec hholds hthird
  rw [hpath] at hgiven hcard
  have hc : c.path = path := congrArg Prod.fst hgiven
  refine ⟨by rw [List.map_singleton, hgiven, List.nil_append], ?_⟩
  have hset : Overlay.setAll ([c].map Closing.onCard) = Overlay.single path (some c.kept) := by
    rw [← hc]
    rfl
  rw [hset, Overlay.apply_single, hcard]
  funext k
  by_cases hk : k = path
  · rw [hk, Function.update_self, Function.update_self]
  · rw [Function.update_of_ne hk, Function.update_of_ne hk, hpartly.frame k hk, hframe k hk]

end Notes

/-- **The files are complete** exactly if no last closing lost something. -/
theorem complete_iff_lastKept {files : List (κ × Bytes)} {closings : List (Closing κ)}
    {card card' : κ → Option Bytes} (hgiven : closings.map Closing.given = files)
    (hcard : card' = (Overlay.setAll (closings.map Closing.onCard)).apply card) :
    Complete files card card' ↔ LastKept closings := by
  subst hgiven hcard
  constructor
  · rintro ⟨hwritten, -⟩ pre c post rfl hlast
    have hkept : Overlay.setAll ((pre ++ c :: post).map Closing.onCard) c.path = some (some c.kept) := by
      rw [List.map_append, List.map_cons]
      exact Overlay.setAll_of_last (List.forall_mem_map.mpr hlast)
    have hall := hwritten (pre.map Closing.given) c.given (post.map Closing.given) (by simp)
      (List.forall_mem_map.mpr hlast)
    rw [show c.given.1 = c.path from rfl, Overlay.apply_of_some hkept, Option.some.injEq] at hall
    exact List.self_eq_append_right.mp hall
  · intro hlast
    constructor
    · intro pre file post hfiles hlater
      obtain ⟨pre, cs, rfl, rfl, hcs⟩ := List.map_eq_append_iff.mp hfiles
      obtain ⟨c, post, rfl, rfl, rfl⟩ := List.map_eq_cons_iff.mp hcs
      rw [List.forall_mem_map] at hlater
      have hkept : Overlay.setAll ((pre ++ c :: post).map Closing.onCard) c.path = some (some c.kept) := by
        rw [List.map_append, List.map_cons]
        exact Overlay.setAll_of_last (List.forall_mem_map.mpr hlater)
      rw [show c.given.1 = c.path from rfl, Overlay.apply_of_some hkept, Closing.given,
        hlast pre c post rfl hlater, List.append_nil]
    · intro k hk
      rw [List.forall_mem_map] at hk
      have hother : ∀ s ∈ closings.map Closing.onCard, s.1 ≠ k := List.forall_mem_map.mpr hk
      exact Overlay.apply_of_none (Overlay.setAll_eq_none.mpr hother) _

end Files

end Stdio
