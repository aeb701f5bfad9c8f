/-
# Runs that write down what they do

A run does one thing after another and may stop early with an error.  What it did before
is kept: a loop has done the work of the elements before the first one it stops at
(`steps_forEach`).
-/

import Mathlib.Data.List.TakeWhile

/-- What a run did, and the error it stopped with. -/
structure Trace (ε α : Type) where
  steps : List α
  stop : Option ε

namespace Trace

variable {ε α β γ : Type}

/-- A run that has nothing to do. -/
def done : Trace ε α := ⟨[], none⟩

/-- A run of one step, which does not stop. -/
def emit (a : α) : Trace ε α := ⟨[a], none⟩

/-- A run that stops with an error at once. -/
def fail (e : ε) : Trace ε α := ⟨[], some e⟩

/-- One run after the other, where the first one does not stop. -/
def seq (t u : Trace ε α) : Trace ε α :=
  match t.stop with
  | none => ⟨t.steps ++ u.steps, u.stop⟩
  | some e => ⟨t.steps, some e⟩

/-- Go on after an error. -/
def ignoring {ε' : Type} (t : Trace ε α) : Trace ε' α := ⟨t.steps, none⟩

/-- The same run, where each step is called something else. -/
def map (f : α → β) (t : Trace ε α) : Trace ε β := ⟨t.steps.map f, t.stop⟩

/-- The run for each element in turn. -/
def forEach : List β → (β → Trace ε α) → Trace ε α
  | [], _ => done
  | x :: rest, f => (f x).seq (forEach rest f)

/-- Of three runs in turn it does not matter which two are put together first, an early stop
included. -/
theorem seq_assoc (t u v : Trace ε α) : (t.seq u).seq v = t.seq (u.seq v) := by
  rcases t with ⟨steps, _ | e⟩
  · rcases u with ⟨steps', _ | e'⟩
    · simp [seq]
    · rfl
  · rfl

/-- Steps may be renamed in two runs in turn, or in each of them before they are put together. -/
theorem map_seq (f : α → β) (t u : Trace ε α) : (t.seq u).map f = (t.map f).seq (u.map f) := by
  rcases t with ⟨steps, _ | e⟩
  · exact congrArg (Trace.mk · u.stop) (List.map_append ..)
  · rfl

/-- Renaming steps twice is renaming them once, by both maps. -/
theorem map_map (f : α → β) (g : β → γ) (t : Trace ε α) :
    (t.map f).map g = t.map fun a => g (f a) := by
  rw [map, map, map, List.map_map]
  rfl

/-- What two runs in turn did, one of them did. -/
theorem mem_steps_seq {t u : Trace ε α} {a : α} (h : a ∈ (t.seq u).steps) :
    a ∈ t.steps ∨ a ∈ u.steps := by
  rcases t with ⟨steps, _ | e⟩
  · exact List.mem_append.mp h
  · exact Or.inl h

/-- A loop over two lists put together is a loop over the first one, and then a loop over the second
one. -/
theorem forEach_append (xs ys : List β) (f : β → Trace ε α) :
    forEach (xs ++ ys) f = (forEach xs f).seq (forEach ys f) := by
  induction xs with
  | nil => rfl
  | cons x rest ih => rw [List.cons_append, forEach, forEach, ih, seq_assoc]

/-- A loop over the images of elements is a loop over these elements. -/
theorem forEach_map (xs : List γ) (g : γ → β) (f : β → Trace ε α) :
    forEach (xs.map g) f = forEach xs fun x => f (g x) := by
  induction xs with
  | nil => rfl
  | cons x rest ih => rw [List.map_cons, forEach, forEach, ih]

/-- A loop in a loop is one loop over all elements of the inner ones, an early stop included. -/
theorem forEach_flatMap (xs : List γ) (g : γ → List β) (f : β → Trace ε α) :
    forEach (xs.flatMap g) f = forEach xs fun x => forEach (g x) f := by
  induction xs with
  | nil => rfl
  | cons x rest ih => rw [List.flatMap_cons, forEach_append, ih, forEach]

/-- Two loops that do the same at each element of the list are the same run. -/
theorem forEach_congr {xs : List β} {f g : β → Trace ε α} (h : ∀ x ∈ xs, f x = g x) :
    forEach xs f = forEach xs g := by
  induction xs with
  | nil => rfl
  | cons x rest ih =>
    rw [List.forall_mem_cons] at h
    rw [forEach, forEach, h.1, ih h.2]

/-- **What a loop did**: the work of the elements before the first one that is not good,
where such an element stops it at once. -/
theorem steps_forEach {f : β → Trace ε α} {good : β → Bool}
    (hgood : ∀ x, good x = true → (f x).stop = none)
    (hbad : ∀ x, good x = false → (f x).steps = [] ∧ (f x).stop ≠ none) (xs : List β) :
    (forEach xs f).steps = (xs.takeWhile good).flatMap fun x => (f x).steps := by
  induction xs with
  | nil => rfl
  | cons x rest ih =>
    rw [forEach, seq, List.takeWhile_cons]
    cases hx : good x with
    | true =>
      rw [hgood x hx, if_pos rfl, List.flatMap_cons, ← ih]
    | false =>
      obtain ⟨hsteps, hstop⟩ := hbad x hx
      obtain ⟨e, he⟩ := Option.ne_none_iff_exists'.mp hstop
      rw [he]
      exact hsteps

end Trace
