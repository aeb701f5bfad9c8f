/-
# The first place of a list in another one

A search that runs over pieces of a list one after the other: where the list that is looked
for does not begin in a piece, the piece can be taken away (`firstAt_append`).
-/

import Mathlib.Data.List.Infix

namespace Search

universe u

variable {α : Type u}

/-- The rest of the list from the first place on at which it begins with `needle`. -/
def firstAt [DecidableEq α] (needle s : List α) : Option (List α) := s.tails.find? needle.isPrefixOf

/-- Where `rest` follows, `needle` begins at no place of a list. -/
def Clear (needle : List α) : List α → List α → Prop
  | [], _ => True
  | c :: before, rest => ¬ needle <+: c :: (before ++ rest) ∧ Clear needle before rest

section First

variable [DecidableEq α]

/-- A search finds its text where it starts, or else where a search from one further on finds it. -/
theorem firstAt_cons (needle : List α) (c : α) (s : List α) :
    firstAt needle (c :: s) = if needle <+: c :: s then some (c :: s) else firstAt needle s := by
  rw [firstAt, List.tails_cons, List.find?_cons]
  by_cases h : needle <+: c :: s
  · rw [List.isPrefixOf_iff_prefix.mpr h, if_pos h]
  · have hfalse : needle.isPrefixOf (c :: s) = false := by
      rw [← Bool.not_eq_true, List.isPrefixOf_iff_prefix]
      exact h
    rw [hfalse, if_neg h]
    rfl

/-- What begins here is found here, and the search does not go on. -/
theorem firstAt_of_prefix {needle s : List α} (h : needle <+: s) : firstAt needle s = some s := by
  cases s with
  | nil =>
    rw [List.prefix_nil.mp h]
    rfl
  | cons c s => rw [firstAt_cons, if_pos h]

/-- **A piece is skipped** if what is looked for does not begin in it. -/
theorem firstAt_append {needle before rest : List α} (h : Clear needle before rest) :
    firstAt needle (before ++ rest) = firstAt needle rest := by
  induction before with
  | nil => rfl
  | cons c before ih => rw [List.cons_append, firstAt_cons, if_neg h.1, ih h.2]

/-- **What is found** comes behind a piece in which the searched list does not begin, and begins
with it. -/
theorem firstAt_eq_some_iff {needle s t : List α} :
    firstAt needle s = some t ↔
      ∃ before, s = before ++ t ∧ Clear needle before t ∧ needle <+: t := by
  constructor
  · intro h
    induction s with
    | nil =>
      have hstarts := List.isPrefixOf_iff_prefix.mp (List.find?_some h)
      have ht : t ∈ [[]] := List.mem_of_find?_eq_some h
      rw [List.mem_singleton] at ht
      exact ⟨[], ht.symm, trivial, hstarts⟩
    | cons c s ih =>
      rw [firstAt_cons] at h
      split at h
      · rename_i hstarts
        cases h
        exact ⟨[], rfl, trivial, hstarts⟩
      · rename_i hstarts
        obtain ⟨before, rfl, hclear, hprefix⟩ := ih h
        exact ⟨c :: before, rfl, ⟨hstarts, hclear⟩, hprefix⟩
  · rintro ⟨before, rfl, hclear, hstarts⟩
    rw [firstAt_append hclear, firstAt_of_prefix hstarts]

/-- **Nothing is found** if the list is not in the other one. -/
theorem firstAt_eq_none_iff {needle s : List α} : firstAt needle s = none ↔ ¬ needle <:+: s := by
  rw [firstAt, List.find?_eq_none]
  simp only [List.mem_tails, List.isPrefixOf_iff_prefix]
  rw [List.infix_iff_prefix_suffix]
  constructor
  · rintro h ⟨t, hstarts, ht⟩
    exact h t ht hstarts
  · intro h t ht hstarts
    exact h ⟨t, hstarts, ht⟩

end First

/-- **No place** of a piece is one where the other list begins. -/
theorem clear_iff {needle before rest : List α} :
    Clear needle before rest ↔ ∀ b c, before = b ++ c → c ≠ [] → ¬ needle <+: c ++ rest := by
  induction before with
  | nil =>
    refine iff_of_true trivial fun b c h hc => absurd ?_ hc
    exact (List.append_eq_nil_iff.mp h.symm).2
  | cons d before ih =>
    rw [Clear, ih]
    constructor
    · rintro ⟨hhere, hlater⟩ b c h hc
      cases b with
      | nil =>
        rw [List.nil_append] at h
        exact h ▸ hhere
      | cons e b => exact hlater b c (List.cons.inj h).2 hc
    · intro h
      exact ⟨h [] _ rfl (List.cons_ne_nil _ _), fun b c hsplit => h (d :: b) c (hsplit ▸ rfl)⟩

/-- **Where a list is in a longer one**: it begins in the first piece or is in the rest. -/
theorem infix_append_iff {needle before rest : List α} :
    needle <:+: before ++ rest ↔ ¬ Clear needle before rest ∨ needle <:+: rest := by
  induction before with
  | nil => exact (or_iff_right (not_not.mpr trivial)).symm
  | cons c before ih =>
    rw [List.cons_append, List.infix_cons_iff, ih, Clear, ← or_assoc, not_and_or, not_not]

/-- A search goes past two pieces in a row if and only if it goes past the first one with the second
one behind it, and then past that. -/
theorem clear_append {needle a b rest : List α} :
    Clear needle (a ++ b) rest ↔ Clear needle a (b ++ rest) ∧ Clear needle b rest := by
  induction a with
  | nil => exact (and_iff_right trivial).symm
  | cons c a ih => rw [List.cons_append, Clear, Clear, ih, List.append_assoc, and_assoc]

/-- A piece without the first element of what is looked for is skipped. -/
theorem clear_of_head {c : α} {needle before : List α} (h : c ∉ before) (rest : List α) :
    Clear (c :: needle) before rest := by
  induction before with
  | nil => trivial
  | cons d before ih =>
    rw [List.mem_cons, not_or] at h
    refine ⟨fun hstarts => h.1 ?_, ih h.2⟩
    exact (List.cons_prefix_cons.mp hstarts).1

/-- **A piece that what follows cuts off**: if the first element of what is looked for is nowhere
else in it and begins what follows, it is enough that the piece does not hold it. -/
theorem clear_of_not_infix {c : α} {needle before rest : List α} (hc : c ∉ needle)
    (hrest : ∀ d ∈ rest.head?, d = c) (h : ¬ c :: needle <:+: before) :
    Clear (c :: needle) before rest := by
  induction before with
  | nil => trivial
  | cons d before ih =>
    refine ⟨fun hstarts => ?_, ih fun hinside => h ?_⟩
    on_goal 2 => exact hinside.trans (List.suffix_cons d before).isInfix
    rcases List.prefix_or_prefix_of_prefix hstarts (List.prefix_append (d :: before) rest) with
      hinside | ⟨beyond, hbeyond⟩
    · exact h hinside.isInfix
    -- it ends in the piece, since what follows begins with `c`
    cases beyond with
    | nil =>
      rw [List.append_nil] at hbeyond
      exact h (hbeyond ▸ List.infix_rfl)
    | cons e beyond =>
      rw [← hbeyond, ← List.cons_append, List.prefix_append_right_inj] at hstarts
      have he : rest.head? = some e := by
        obtain ⟨after, rfl⟩ := hstarts
        rfl
      rw [List.cons_append, List.cons.injEq] at hbeyond
      refine hc ?_
      rw [← hbeyond.2, ← hrest e he]
      exact List.mem_append_right _ List.mem_cons_self

/-- **Another list of the kind**: one whose first element is nowhere else in it is skipped too, if
neither of the two begins with the other. -/
theorem clear_of_incomparable {c : α} {needle other : List α} (hc : c ∉ other)
    (h : ¬ c :: needle <+: c :: other) (h' : ¬ c :: other <+: c :: needle) (rest : List α) :
    Clear (c :: needle) (c :: other) rest := by
  refine ⟨fun hstarts => ?_, clear_of_head hc rest⟩
  exact (List.prefix_or_prefix_of_prefix hstarts (List.prefix_append (c :: other) rest)).elim h h'

/-- Two lists are compared piece by piece, where an element ends the first piece of both. -/
theorem append_cons_prefix_iff {c : α} {a b x y : List α} (ha : c ∉ a) (hx : c ∉ x) :
    a ++ c :: b <+: x ++ c :: y ↔ a = x ∧ b <+: y := by
  induction a generalizing x with
  | nil =>
    cases x with
    | nil =>
      rw [List.nil_append, List.nil_append, List.cons_prefix_cons]
      exact and_congr_left fun _ => iff_of_true rfl rfl
    | cons e x =>
      refine iff_of_false (fun h => hx ?_) (fun h => by cases h.1)
      exact List.mem_cons.mpr (Or.inl (List.cons_prefix_cons.mp h).1)
  | cons d a ih =>
    rw [List.mem_cons, not_or] at ha
    cases x with
    | nil =>
      refine iff_of_false (fun h => ha.1 ?_) (fun h => by cases h.1)
      exact (List.cons_prefix_cons.mp h).1.symm
    | cons e x =>
      rw [List.mem_cons, not_or] at hx
      rw [List.cons_append, List.cons_append, List.cons_prefix_cons, ih ha.2 hx.2, List.cons.injEq,
        and_assoc]

end Search
