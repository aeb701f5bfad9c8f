/-
# Computations that observe

A computation over a state observes what can be seen of the state if its answer depends on
that alone, and it keeps what can be seen.  Its other effects (what is cached, which transfers
there were) are then of no account, and computations that observe compose
(`Observes.bind`).  `good` is what they rely on and keep.
-/

import Mathlib.Init

universe u

/-- On every good state that looks like `v` the answer is `a`, and the state is good then and
looks the same. -/
def Observes {σ α ν : Type u} (good : σ → Prop) (view : σ → ν) (v : ν) (m : StateM σ α) (a : α) : Prop :=
  ∀ s, good s → view s = v → (m s).1 = a ∧ good (m s).2 ∧ view (m s).2 = v

namespace Observes

variable {σ α β ν : Type u} {good : σ → Prop} {view : σ → ν} {v : ν} {a : α} {b : β}

/-- Returning an answer changes nothing, so it is the observed one from every state. -/
theorem pure (a : α) : Observes good view v (pure a) a := fun _ hs hv => ⟨rfl, hs, hv⟩

/-- **One after the other**: if a step is observed to answer something, and what follows it, given
that answer, to answer something else, then both together give the latter and leave the view as it
was. -/
theorem bind {m : StateM σ α} {f : α → StateM σ β} (hm : Observes good view v m a)
    (hf : Observes good view v (f a) b) : Observes good view v (m >>= f) b := by
  intro s hs hv
  obtain ⟨hanswer, hgood, hview⟩ := hm s hs hv
  have hstep : (m >>= f) s = f (m s).1 (m s).2 := rfl
  rw [hstep, hanswer]
  exact hf _ hgood hview

/-- A function of the answer is observed where the answer is. -/
theorem map {m : StateM σ α} (f : α → β) (hm : Observes good view v m a) :
    Observes good view v (f <$> m) (f a) := by
  intro s hs hv
  obtain ⟨hanswer, hgood, hview⟩ := hm s hs hv
  have hstep : (f <$> m) s = (f (m s).1, (m s).2) := rfl
  rw [hstep, hanswer]
  exact ⟨rfl, hgood, hview⟩

/-- A choice is observed to answer the same if the branch that is taken is. -/
theorem ite {c : Prop} [Decidable c] {m m' : StateM σ α} (hm : c → Observes good view v m a)
    (hm' : ¬ c → Observes good view v m' a) : Observes good view v (if c then m else m') a := by
  split
  · exact hm ‹_›
  · exact hm' ‹_›

end Observes
