/-
# What a program does to the card

What a program does to the card is an overlay (`Effect`): however it ends, the
keys outside the overlay are as before, and if it succeeds the card is the old
one with the overlay on it.  Effects compose like the programs do.
-/

import RrLauncher.Lib.Stdio

namespace Stdio

variable {κ ι ε α β : Type}

/-! ### Programs that leave the card alone -/

/-- A program that changes neither the card nor the log. -/
def Quiet (env : Env κ ι) (m : Prog κ ι ε α) : Prop :=
  ∀ w, (m env w).2.card = w.card ∧ (m env w).2.log = w.log

/-- A quiet program that never succeeds: the error branches. -/
structure Fails (env : Env κ ι) (m : Prog κ ι ε α) : Prop where
  quiet : Quiet env m
  stops : ∀ w a, (m env w).1 ≠ .ok a

section Quiet

variable {env : Env κ ι} {m : Prog κ ι ε α} {f : α → Prog κ ι ε β}

/-- A program that does nothing leaves the card and the log as they are. -/
theorem Quiet.pure (a : α) : Quiet env (Pure.pure a : Prog κ ι ε α) := fun _ => ⟨rfl, rfl⟩

/-- Reading `errno` leaves the card and the log as they are. -/
theorem Quiet.getErrno : Quiet env (Prog.getErrno : Prog κ ι ε ℕ) := fun _ => ⟨rfl, rfl⟩

/-- A question is quiet, whatever is answered: it counts as a call, but it is none on the card. -/
theorem Quiet.ask (question : ι) : Quiet env (Stdio.ask question : Prog κ ι ε _) := fun w => by
  rw [Stdio.ask]
  split <;> exact ⟨rfl, rfl⟩

/-- Opening a file for reading is quiet; it fails where there is no such file, or where the
environment says so. -/
theorem Quiet.fopenRead (path : κ) : Quiet env (Stdio.fopenRead path : Prog κ ι ε _) := fun w => by
  rw [Stdio.fopenRead]
  split
  · split <;> exact ⟨rfl, rfl⟩
  · exact ⟨rfl, rfl⟩
  · exact ⟨rfl, rfl⟩

/-- Making a directory is quiet, since the model of the card has files only. -/
theorem Quiet.mkdir (path : κ) : Quiet env (Stdio.mkdir path : Prog κ ι ε _) := fun w => by
  rw [Stdio.mkdir]
  split <;> exact ⟨rfl, rfl⟩

/-- Two quiet programs, one after the other, are quiet, wherever the first one stops. -/
theorem Quiet.bind (hm : Quiet env m) (hf : ∀ a, Quiet env (f a)) : Quiet env (m >>= f) := by
  intro w
  have hfirst := hm w
  rw [Prog.bind_run]
  split
  · rename_i a w₁ hrun
    rw [hrun] at hfirst
    exact ⟨(hf a w₁).1.trans hfirst.1, (hf a w₁).2.trans hfirst.2⟩
  · rename_i stop w₁ hrun
    rw [hrun] at hfirst
    exact hfirst

/-- So is a loop whose body is quiet.  The induction is on the list. -/
theorem Quiet.forEach {γ : Type} (xs : List γ) {body : γ → Prog κ ι ε Unit}
    (h : ∀ x, Quiet env (body x)) : Quiet env (Prog.forEach xs body) := by
  induction xs with
  | nil => exact Quiet.pure ()
  | cons x xs ih => exact (h x).bind fun _ => ih

/-- A program that never succeeds does not end with a result. -/
theorem Fails.not_ok (hm : Fails env m) {w w' : World κ} {a : α} (h : m env w = (.ok a, w')) :
    False := hm.stops w a (by rw [h])

/-- Throwing an error leaves the card and the log as they are, and never succeeds. -/
theorem Fails.throw (e : ε) : Fails env (Prog.throw e : Prog κ ι ε α) :=
  ⟨fun _ => ⟨rfl, rfl⟩, fun _ _ => by simp [Prog.throw]⟩

/-- Losing the power never succeeds, and leaves what is on the card at that moment. -/
theorem Fails.halt : Fails env (Prog.halt : Prog κ ι ε α) :=
  ⟨fun _ => ⟨rfl, rfl⟩, fun _ _ => by simp [Prog.halt]⟩

/-- A quiet program in front of one that never succeeds never succeeds either. -/
theorem Fails.bind (hm : Quiet env m) (hf : ∀ a, Fails env (f a)) : Fails env (m >>= f) := by
  refine ⟨hm.bind fun a => (hf a).quiet, fun w b hb => ?_⟩
  rw [Prog.bind_run] at hb
  split at hb
  · exact (hf _).stops _ b hb
  · cases hb

end Quiet

/-! ### Effects -/

/-- A log that did not grow begins with the log from before. -/
theorem prefix_of_eq {γ : Type} {l l' : List γ} (h : l' = l) : l <+: l' := h ▸ List.prefix_rfl

/-- **The effect of a program from one world**: however it ends it changes the keys of
the overlay only, and the log grows; and if it succeeds it applied the overlay and
logged the events. -/
structure EffectAt (env : Env κ ι) (m : Prog κ ι ε α) (w : World κ) (p : Overlay κ (Option Bytes))
    (events : List (Event κ)) : Prop where
  frame : p.AgreeOff (m env w).2.card w.card
  grows : w.log <+: (m env w).2.log
  done : ∀ a w', m env w = (.ok a, w') → w'.card = p.apply w.card ∧ w'.log = w.log ++ events

/-- **The effect of a program** from every world. -/
def Effect (env : Env κ ι) (m : Prog κ ι ε α) (p : Overlay κ (Option Bytes))
    (events : List (Event κ)) : Prop := ∀ w, EffectAt env m w p events

/-- **Effects compose**, the second one from where the first part ended. -/
theorem EffectAt.bind {env : Env κ ι} {m : Prog κ ι ε α} {f : α → Prog κ ι ε β} {w : World κ}
    {p q : Overlay κ (Option Bytes)} {events events' : List (Event κ)}
    (hm : EffectAt env m w p events)
    (hf : ∀ a w₁, m env w = (.ok a, w₁) → EffectAt env (f a) w₁ q events') :
    EffectAt env (m >>= f) w (p.seq q) (events ++ events') := by
  obtain ⟨hframe, hgrows, hdone⟩ := hm
  constructor
  · intro k hk
    obtain ⟨hp, hq⟩ := Overlay.seq_eq_none.mp hk
    have hfirst := hframe k hp
    rw [Prog.bind_run]
    split
    · rename_i a w₁ hrun
      rw [hrun] at hfirst
      exact ((hf a w₁ hrun).frame k hq).trans hfirst
    · rename_i stop w₁ hrun
      rw [hrun] at hfirst
      exact hfirst
  · rw [Prog.bind_run]
    split
    · rename_i a w₁ hrun
      rw [hrun] at hgrows
      exact hgrows.trans (hf a w₁ hrun).grows
    · rename_i stop w₁ hrun
      rw [hrun] at hgrows
      exact hgrows
  · intro b w' h
    obtain ⟨a, w₁, hrun, hrest⟩ := Prog.bind_ok h
    obtain ⟨hcard, hlog⟩ := hdone a w₁ hrun
    obtain ⟨hcard', hlog'⟩ := (hf a w₁ hrun).done b w' hrest
    rw [hcard', hcard, Overlay.apply_seq, hlog', hlog, List.append_assoc]
    exact ⟨rfl, rfl⟩

/-- A quiet program has the effect of none: the empty overlay, and no events. -/
theorem Quiet.effect {env : Env κ ι} {m : Prog κ ι ε α} (h : Quiet env m) :
    Effect env m Overlay.nothing [] := by
  intro w
  obtain ⟨hcard, hlog⟩ := h w
  refine ⟨fun k _ => by rw [hcard], prefix_of_eq hlog, fun a w' hw => ?_⟩
  rw [hw] at hcard hlog
  rw [hcard, hlog, List.append_nil]
  exact ⟨rfl, rfl⟩

/-- A program that never succeeds has every effect: it leaves the card alone, and there is no
success to speak of. -/
theorem Fails.effect {env : Env κ ι} {m : Prog κ ι ε α} (h : Fails env m)
    (p : Overlay κ (Option Bytes)) (events : List (Event κ)) : Effect env m p events := by
  intro w
  obtain ⟨hcard, hlog⟩ := h.quiet w
  exact ⟨fun k _ => by rw [hcard], prefix_of_eq hlog, fun a w' hw => absurd (by rw [hw]) (h.stops w a)⟩

/-- A first part without effect, whose result is known: what follows has the effect that it has for
this result. -/
theorem EffectAt.bind_quiet {env : Env κ ι} {m : Prog κ ι ε α} {f : α → Prog κ ι ε β} {w : World κ}
    {q : Overlay κ (Option Bytes)} {events : List (Event κ)} (hm : Quiet env m)
    (hf : ∀ a w₁, m env w = (.ok a, w₁) → w₁.card = w.card → EffectAt env (f a) w₁ q events) :
    EffectAt env (m >>= f) w q events := by
  have h := (hm.effect w).bind fun a w₁ hrun => hf a w₁ hrun (by rw [← (hm w).1, hrun])
  rwa [Overlay.nothing_seq] at h

namespace Effect

variable {env : Env κ ι} {m : Prog κ ι ε α} {f : α → Prog κ ι ε β}
  {p q : Overlay κ (Option Bytes)} {events events' : List (Event κ)}

/-- **Effects compose**: two programs one after the other have the overlay of the second on top of
that of the first, and log the events of both. -/
theorem bind (hm : Effect env m p events) (hf : ∀ a, Effect env (f a) q events') :
    Effect env (m >>= f) (p.seq q) (events ++ events') := fun w =>
  (hm w).bind fun a w₁ _ => hf a w₁

/-- A first part that leaves the card alone adds nothing to the effect of what follows it. -/
theorem bind_quiet (hm : Quiet env m) (hf : ∀ a, Effect env (f a) q events') :
    Effect env (m >>= f) q events' := fun _ =>
  EffectAt.bind_quiet hm fun a w₁ _ _ => hf a w₁

/-- The effect of a loop is that of its turns, one on top of the other, with their events in order.
-/
theorem forEach {γ : Type} (xs : List γ) {body : γ → Prog κ ι ε Unit}
    {ps : γ → Overlay κ (Option Bytes)} {es : γ → List (Event κ)}
    (h : ∀ x ∈ xs, Effect env (body x) (ps x) (es x)) :
    Effect env (Prog.forEach xs body) (Overlay.seqAll (xs.map ps)) (xs.flatMap es) := by
  induction xs with
  | nil => exact (Quiet.pure ()).effect
  | cons x xs ih =>
    rw [List.forall_mem_cons] at h
    exact h.1.bind fun _ => ih h.2

/-- The effect of a loop that does something for some of the elements. -/
theorem forEach_filterMap {γ δ : Type} (xs : List γ) (pick : γ → Option δ)
    {body : γ → Prog κ ι ε Unit} {set : δ → Overlay κ (Option Bytes)} {event : δ → Event κ}
    (hsome : ∀ x y, pick x = some y → Effect env (body x) (set y) [event y])
    (hnone : ∀ x, pick x = none → Quiet env (body x)) :
    Effect env (Prog.forEach xs body) (Overlay.seqAll ((xs.filterMap pick).map set))
      ((xs.filterMap pick).map event) := by
  induction xs with
  | nil => exact (Quiet.pure ()).effect
  | cons x xs ih =>
    cases hpick : pick x with
    | none =>
      rw [List.filterMap_cons_none hpick]
      exact bind_quiet (hnone x hpick) fun _ => ih
    | some y =>
      rw [List.filterMap_cons_some hpick]
      exact (hsome x y hpick).bind fun _ => ih

end Effect

/-- **Where a loop ends**: it did its work for some elements, and either these were all or
it stopped in the work for the next one. -/
theorem Prog.forEach_cases {γ : Type} (xs : List γ) (body : γ → Prog κ ι ε Unit) (env : Env κ ι)
    (w : World κ) :
    ∃ done w₁, Prog.forEach done body env w = (.ok (), w₁) ∧
      ((xs = done ∧ Prog.forEach xs body env w = (.ok (), w₁)) ∨
        ∃ x rest stop w', xs = done ++ x :: rest ∧ body x env w₁ = (.error stop, w') ∧
          Prog.forEach xs body env w = (.error stop, w')) := by
  induction xs generalizing w with
  | nil => exact ⟨[], w, rfl, Or.inl ⟨rfl, rfl⟩⟩
  | cons x xs ih =>
    rw [Prog.forEach, Prog.bind_run]
    split
    · rename_i u w₁ hrun
      obtain ⟨done, w₂, hdone, hend⟩ := ih w₁
      refine ⟨x :: done, w₂, ?_, ?_⟩
      · rw [Prog.forEach, Prog.bind_run, hrun]
        exact hdone
      · rcases hend with ⟨rfl, hrest⟩ | ⟨y, rest, stop, w', rfl, hbody, hrest⟩
        · exact Or.inl ⟨rfl, hrest⟩
        · exact Or.inr ⟨y, rest, stop, w', rfl, hbody, hrest⟩
    · rename_i stop w' hrun
      exact ⟨[], w, rfl, Or.inr ⟨x, xs, stop, w', rfl, hrun, rfl⟩⟩

/-! ### One key -/

/-- From `w` the program keeps the contents of a key or removes it. -/
def KeepsAt (env : Env κ ι) (m : Prog κ ι ε α) (w : World κ) (k : κ) : Prop :=
  (m env w).2.card k = w.card k ∨ (m env w).2.card k = none

namespace KeepsAt

variable {env : Env κ ι} {m : Prog κ ι ε α} {f : α → Prog κ ι ε β} {w : World κ} {k : κ}

/-- A quiet program keeps every key of the card, whatever it was. -/
theorem of_quiet (h : Quiet env m) : KeepsAt env m w k := Or.inl (by rw [(h w).1])

/-- A program keeps the keys outside of its overlay, however it ends. -/
theorem of_effectAt {p : Overlay κ (Option Bytes)} {events : List (Event κ)}
    (h : EffectAt env m w p events) (hk : p k = none) : KeepsAt env m w k := Or.inl (h.frame k hk)

/-- Two programs, one after the other, keep a key or remove it if both do; the second one starts
where the first one ended. -/
theorem bind (hm : KeepsAt env m w k)
    (hf : ∀ a w₁, m env w = (.ok a, w₁) → KeepsAt env (f a) w₁ k) : KeepsAt env (m >>= f) w k := by
  unfold KeepsAt at hm ⊢
  rw [Prog.bind_run]
  split
  · rename_i a w₁ hrun
    rw [hrun] at hm
    rcases hf a w₁ hrun with hsame | hnone
    · rw [hsame]
      exact hm
    · exact Or.inr hnone
  · rename_i stop w₁ hrun
    rw [hrun] at hm
    exact hm

/-- So does a loop whose body does, from any world. -/
theorem forEach {γ : Type} (xs : List γ) {body : γ → Prog κ ι ε Unit}
    (h : ∀ x w, KeepsAt env (body x) w k) (w : World κ) :
    KeepsAt env (Prog.forEach xs body) w k := by
  induction xs generalizing w with
  | nil => exact Or.inl rfl
  | cons x xs ih => exact (h x w).bind fun _ w₁ _ => ih w₁

/-- `remove` removes one key and keeps all others, or fails and keeps that one, too. -/
theorem remove [DecidableEq κ] (path : κ) (w : World κ) :
    KeepsAt env (Stdio.remove path : Prog κ ι ε Bool) w k := by
  have hset : (w.tick.set path none).card k = w.card k ∨ (w.tick.set path none).card k = none := by
    by_cases hk : k = path
    · subst hk
      exact Or.inr (Function.update_self ..)
    · exact Or.inl (Function.update_of_ne hk _ _)
  unfold KeepsAt
  rw [Stdio.remove]
  split
  · split
    · exact hset
    · exact Or.inl rfl
  · exact Or.inl rfl
  · dsimp only
    split
    · exact Or.inl rfl
    · exact hset

end KeepsAt

end Stdio
