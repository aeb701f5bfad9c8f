/-
# Overlays

An overlay says what some keys of a store are set to and leaves the others alone.
Setting keys is idempotent, and what an overlay sets does not depend on what was
there: this is why work that was interrupted can be done again from the start.
After an attempt that got as far as it got, the store agrees with the one before
it wherever the overlay says nothing, and applying the overlay to either gives the
same (`Overlay.apply_congr`).
-/

import Mathlib.Logic.Function.Basic

universe u v

/-- What some keys are set to. -/
def Overlay (κ : Type u) (β : Type v) : Type max u v := κ → Option β

namespace Overlay

variable {κ : Type u} {β : Type v}

/-- The store with the overlay on it. -/
def apply (p : Overlay κ β) (c : κ → β) : κ → β := fun k => (p k).getD (c k)

/-- The overlay that sets nothing. -/
def nothing : Overlay κ β := fun _ => none

/-- The overlay that sets one key. -/
def single [DecidableEq κ] (k : κ) (b : β) : Overlay κ β := fun k' => if k' = k then some b else none

/-- One overlay after the other. -/
def seq (p q : Overlay κ β) : Overlay κ β := fun k => (q k).or (p k)

/-- Overlays one on top of the other in their order, the last one uppermost. -/
def seqAll (ps : List (Overlay κ β)) : Overlay κ β := ps.foldr seq nothing

/-- Two stores agree wherever the overlay says nothing. -/
def AgreeOff (p : Overlay κ β) (c c' : κ → β) : Prop := ∀ k, p k = none → c k = c' k

/-- Where an overlay says nothing, the contents below show through. -/
theorem apply_of_none {p : Overlay κ β} {k : κ} (h : p k = none) (c : κ → β) :
    p.apply c k = c k := by
  rw [apply, h, Option.getD_none]

/-- Where an overlay has a value, that value is seen, whatever is below. -/
theorem apply_of_some {p : Overlay κ β} {k : κ} {b : β} (h : p k = some b) (c : κ → β) :
    p.apply c k = b := by
  rw [apply, h, Option.getD_some]

/-- The overlay of one cell changes that cell alone, as an update of the function does. -/
theorem apply_single [DecidableEq κ] (k : κ) (b : β) (c : κ → β) :
    (single k b).apply c = Function.update c k b := by
  funext k'
  by_cases h : k' = k
  · subst h
    simp [apply, single]
  · simp [apply, single, h]

/-- Two overlays on top of each other leave a cell alone exactly if both of them do. -/
theorem seq_eq_none {p q : Overlay κ β} {k : κ} :
    p.seq q k = none ↔ p k = none ∧ q k = none := by
  rw [seq, Option.or_eq_none_iff, and_comm]

/-- **Overlays compose**: applying two of them put on top of each other is applying the lower one
and then the upper one. -/
theorem apply_seq (p q : Overlay κ β) (c : κ → β) : (p.seq q).apply c = q.apply (p.apply c) := by
  funext k
  cases hq : q k with
  | none => simp [apply, seq, hq]
  | some b => simp [apply, seq, hq]

/-- The empty overlay at the bottom changes nothing. It is the neutral element of putting overlays
on top of each other. -/
@[simp] theorem nothing_seq (p : Overlay κ β) : nothing.seq p = p := by
  funext k
  exact Option.or_none

/-- A list of overlays put on top of each other is the first, with all the others on top of it. -/
theorem seqAll_cons (p : Overlay κ β) (ps : List (Overlay κ β)) :
    seqAll (p :: ps) = p.seq (seqAll ps) := rfl

/-- A list of overlays leaves a cell alone exactly if each of them does. -/
theorem seqAll_eq_none {ps : List (Overlay κ β)} {k : κ} :
    seqAll ps k = none ↔ ∀ p ∈ ps, p k = none := by
  induction ps with
  | nil => simp [seqAll, nothing]
  | cons p ps ih => rw [seqAll_cons, seq_eq_none, ih, List.forall_mem_cons]

/-- Applying a list of overlays as one is applying them one after another, in the order of the list.
-/
theorem apply_seqAll (ps : List (Overlay κ β)) (c : κ → β) :
    (seqAll ps).apply c = ps.foldl (fun c p => p.apply c) c := by
  induction ps generalizing c with
  | nil => rfl
  | cons p ps ih => rw [seqAll_cons, apply_seq, ih, List.foldl_cons]

/-- The overlay that sets keys one after the other. -/
def setAll [DecidableEq κ] (sets : List (κ × β)) : Overlay κ β :=
  seqAll (sets.map fun s => single s.1 s.2)

section SetAll

variable [DecidableEq κ]

/-- The overlay of a list of assignments is that of the first one, with those of the rest on top. -/
theorem setAll_cons (s : κ × β) (sets : List (κ × β)) :
    setAll (s :: sets) = (single s.1 s.2).seq (setAll sets) := rfl

/-- Two lists of assignments, one after the other, are their overlays on top of each other: the
later list wins where both assign. -/
theorem setAll_append (sets sets' : List (κ × β)) :
    setAll (sets ++ sets') = (setAll sets).seq (setAll sets') := by
  induction sets with
  | nil => exact (nothing_seq _).symm
  | cons s sets ih =>
    funext k
    rw [List.cons_append, setAll_cons, setAll_cons, ih]
    exact Option.or_assoc

/-- A list of assignments leaves a cell alone exactly if none of them is for that cell. -/
theorem setAll_eq_none {sets : List (κ × β)} {k : κ} :
    setAll sets k = none ↔ ∀ s ∈ sets, s.1 ≠ k := by
  rw [setAll, seqAll_eq_none, List.forall_mem_map]
  refine forall_congr' fun s => imp_congr_right fun _ => ?_
  by_cases hk : k = s.1 <;> simp [single, hk, eq_comm]

/-- **The last setting of a key** is what it is set to. -/
theorem setAll_of_last {pre post : List (κ × β)} {k : κ} {b : β} (h : ∀ s ∈ post, s.1 ≠ k) :
    setAll (pre ++ (k, b) :: post) k = some b := by
  have hpost : setAll post k = none := setAll_eq_none.mpr h
  rw [setAll_append, setAll_cons]
  simp [seq, hpost, single]

end SetAll

/-- Contents agree with themselves, whatever cells an overlay takes away from the comparison. -/
theorem AgreeOff.refl (p : Overlay κ β) (c : κ → β) : p.AgreeOff c c := fun _ _ => rfl

/-- Contents that agree off an overlay with others in turn agree with what those agree with. So a
run of many steps can be compared step by step. -/
theorem AgreeOff.trans {p : Overlay κ β} {c c' c'' : κ → β} (h : p.AgreeOff c c')
    (h' : p.AgreeOff c' c'') : p.AgreeOff c c'' := fun k hk => (h k hk).trans (h' k hk)

/-- Contents that agree off the empty overlay are equal, as it takes no cell away from the
comparison. -/
theorem agreeOff_nothing {c c' : κ → β} (h : nothing.AgreeOff c c') : c = c' :=
  funext fun k => h k rfl

/-- **Applying an overlay forgets** what it sets: stores that agree elsewhere
become equal. -/
theorem apply_congr {p : Overlay κ β} {c c' : κ → β} (h : p.AgreeOff c c') :
    p.apply c = p.apply c' := by
  funext k
  cases hp : p k with
  | none => rw [apply_of_none hp, apply_of_none hp, h k hp]
  | some b => rw [apply_of_some hp, apply_of_some hp]

end Overlay
