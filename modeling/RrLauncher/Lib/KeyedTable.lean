/-
# Unordered tables with one entry for each key

A table is a list of entries of which no two have the same key, kept in no
particular order: an entry is removed by moving the last one into its place, and
added at the end.  Overriding an entry is removing the one with the same key, if
there is one, and adding the new one.

What such a table means is its lookup function, and the lookup function does not
see the order (`lookup_perm`).  Overriding changes it at one key
(`lookup_override`).
-/

import Mathlib.Data.List.Induction
import Mathlib.Data.List.Perm.Basic
import Mathlib.Data.List.Nodup

namespace KeyedTable

variable {α κ : Type*} {key : α → κ}

/-- Replace element `i` by the last element and drop the last. -/
def swapRemove (l : List α) (i : ℕ) : List α :=
  match l.getLast? with
  | some last => (if i = l.length - 1 then l else l.set i last).dropLast
  | none => l

/-- Removing by swapping removes exactly the element at the index. -/
theorem swapRemove_perm (l : List α) {i : ℕ} (hi : i < l.length) :
    (swapRemove l i).Perm (l.eraseIdx i) := by
  induction l using List.reverseRecOn with
  | nil => simp at hi
  | append_singleton init last =>
    rw [swapRemove, List.getLast?_concat]
    simp only [List.length_append, List.length_singleton, Nat.add_sub_cancel] at hi ⊢
    by_cases h : i = init.length
    · subst h
      rw [if_pos rfl, List.dropLast_concat, List.eraseIdx_append_of_length_le (Nat.le_refl _)]
      simp
    · have hlt : i < init.length := by omega
      rw [if_neg h, List.set_append_left _ _ hlt, List.dropLast_concat,
        List.eraseIdx_append_of_lt_length hlt]
      exact (List.set_perm_cons_eraseIdx hlt last).trans (List.perm_append_singleton last _).symm

/-- Removing by swapping makes a table one entry shorter. An empty table stays empty. -/
theorem length_swapRemove (l : List α) (i : ℕ) : (swapRemove l i).length = l.length - 1 := by
  rw [swapRemove]
  cases hlast : l.getLast? with
  | none => rw [List.getLast?_eq_none_iff.mp hlast, List.length_nil]
  | some last =>
    show (if i = l.length - 1 then l else l.set i last).dropLast.length = _
    rw [List.length_dropLast]
    split
    · rfl
    · rw [List.length_set]

/-- What is at each index after a removal: the last entry at the index of the removed one, and at
the others what was there. -/
theorem getElem?_swapRemove {l : List α} {i j : ℕ} (hj : j < l.length - 1) :
    (swapRemove l i)[j]? = if i = j then l[l.length - 1]? else l[j]? := by
  rw [swapRemove, List.getLast?_eq_getElem?]
  cases hlast : l[l.length - 1]? with
  | none =>
    have := List.getElem?_eq_none_iff.mp hlast
    omega
  | some last =>
    show (if i = l.length - 1 then l else l.set i last).dropLast[j]? = _
    rw [List.getElem?_dropLast]
    by_cases hi : i = l.length - 1
    · rw [if_pos hi, if_pos hj, if_neg (by omega)]
    · rw [if_neg hi, List.length_set, if_pos hj, List.getElem?_set]
      by_cases hij : i = j
      · rw [if_pos hij, if_pos (by omega), if_pos hij]
      · rw [if_neg hij, if_neg hij]

/-- Remove the first entry that satisfies `p`, by swapping; the table as it is,
where none does. -/
def removeFirst (p : α → Bool) (l : List α) : List α :=
  match l.findIdx? p with
  | some i => swapRemove l i
  | none => l

/-- Up to the order, removing an entry by swapping is removing it in place, as the library function
for lists does. -/
theorem removeFirst_perm (p : α → Bool) (l : List α) : (removeFirst p l).Perm (l.eraseP p) := by
  rw [removeFirst, List.eraseP_eq_eraseIdx]
  cases h : l.findIdx? p with
  | none => exact List.Perm.refl _
  | some i => exact swapRemove_perm l (List.findIdx?_eq_some_iff_findIdx_eq.mp h).1

/-- Removing by swapping looks at no entry, so it may be done before or after a function is applied
to all of them. -/
theorem swapRemove_map {β : Type*} (f : α → β) (l : List α) (i : ℕ) :
    (swapRemove l i).map f = swapRemove (l.map f) i := by
  rw [swapRemove, swapRemove, List.getLast?_map]
  cases l.getLast? with
  | none => rfl
  | some last =>
    simp only [Option.map_some, List.length_map, List.map_dropLast]
    split
    · rfl
    · rw [List.map_set]

/-- Removing from a table is removing from an image of it, where `p` sees the image only. -/
theorem removeFirst_map {β : Type*} (f : α → β) (p : β → Bool) (l : List α) :
    (removeFirst (fun a => p (f a)) l).map f = removeFirst p (l.map f) := by
  rw [removeFirst, removeFirst, List.findIdx?_map]
  cases h : l.findIdx? (fun a => p (f a)) with
  | none => rw [show l.findIdx? (p ∘ f) = none from h]
  | some i =>
    rw [show l.findIdx? (p ∘ f) = some i from h]
    exact swapRemove_map f l i

/-- Removing looks at the entries of the table only, so tests that agree on these remove the same
one. -/
theorem removeFirst_congr {p q : α → Bool} {l : List α} (h : ∀ a ∈ l, p a = q a) :
    removeFirst p l = removeFirst q l := by
  have hf : l.findIdx? p = l.findIdx? q := by
    induction l with
    | nil => rfl
    | cons a l ih =>
      rw [List.findIdx?_cons, List.findIdx?_cons, h a List.mem_cons_self,
        ih fun b hb => h b (List.mem_cons_of_mem _ hb)]
  rw [removeFirst, removeFirst, hf]

/-- No two entries have the same key. -/
def Distinct (key : α → κ) (l : List α) : Prop := (l.map key).Nodup

/-- In a table without entries no two have the same key. -/
theorem Distinct.nil : Distinct key [] := List.nodup_nil

/-- That no two entries have the same key does not depend on their order. -/
theorem Distinct.perm {l l' : List α} (h : Distinct key l) (hp : l.Perm l') : Distinct key l' :=
  (hp.map key).nodup_iff.mp h

/-- Leaving entries out cannot make two entries have the same key. -/
theorem Distinct.filter {l : List α} (h : Distinct key l) (p : α → Bool) :
    Distinct key (l.filter p) :=
  h.sublist (List.filter_sublist.map key)

variable [DecidableEq κ]

/-- Among distinct keys, erasing the first entry with a key erases every entry
with it. -/
theorem eraseP_eq_filter {l : List α} (h : Distinct key l) (k : κ) :
    l.eraseP (key · = k) = l.filter (key · ≠ k) := by
  induction l with
  | nil => rfl
  | cons a l ih =>
    obtain ⟨ha, hl⟩ := List.nodup_cons.mp h
    by_cases hk : key a = k
    · subst hk
      have hall : ∀ b ∈ l, decide (key b ≠ key a) = true := fun b hb =>
        decide_eq_true fun hba => ha (hba ▸ List.mem_map_of_mem hb)
      rw [List.eraseP_cons_of_pos (by simp), List.filter_cons_of_neg (by simp),
        List.filter_eq_self.mpr hall]
    · rw [List.eraseP_cons_of_neg (by simpa using hk), ih hl,
        List.filter_cons_of_pos (by simpa using hk)]

/-- Remove the entry with the key of `e`, then add `e`. -/
def override (key : α → κ) (l : List α) (e : α) : List α :=
  removeFirst (key · = key e) l ++ [e]

/-- **Overriding touches one key.**  Up to order, the entries with other keys
stay as they are and `e` is the one entry with its key. -/
theorem override_perm {l : List α} (h : Distinct key l) (e : α) :
    (override key l e).Perm (e :: l.filter (key · ≠ key e)) :=
  (List.perm_append_singleton e _).trans
    (((removeFirst_perm _ l).trans (List.Perm.of_eq (eraseP_eq_filter h _))).cons e)

/-- **Overriding keeps the keys distinct**: the entry with the same key is removed before the new
one is added. -/
theorem Distinct.override {l : List α} (h : Distinct key l) (e : α) :
    Distinct key (override key l e) := by
  refine Distinct.perm ?_ (override_perm h e).symm
  refine List.nodup_cons.mpr ⟨fun hmem => ?_, h.filter _⟩
  obtain ⟨b, hb, hbe⟩ := List.mem_map.mp hmem
  simpa [hbe] using (List.mem_filter.mp hb).2

/-- Behind an override a table has the new entry, and those of the old ones that have another key.
-/
theorem mem_override {l : List α} (h : Distinct key l) {e x : α} :
    x ∈ override key l e ↔ x = e ∨ x ∈ l ∧ key x ≠ key e := by
  rw [(override_perm h e).mem_iff, List.mem_cons, List.mem_filter, decide_eq_true_iff]

/-- The entries with other keys are, up to order, the ones that were there. -/
theorem filter_override_perm {l : List α} (h : Distinct key l) (e : α) :
    ((override key l e).filter (key · ≠ key e)).Perm (l.filter (key · ≠ key e)) := by
  refine ((override_perm h e).filter _).trans ?_
  rw [List.filter_cons_of_neg (by simp), List.filter_filter]
  simp

/-- The entry of a key. -/
def lookup (key : α → κ) (l : List α) (k : κ) : Option α := l.find? (key · = k)

/-- Where the keys are distinct, looking a key up finds the one entry that has it, wherever that
entry is. -/
theorem lookup_eq_some_iff {l : List α} (h : Distinct key l) {k : κ} {e : α} :
    lookup key l k = some e ↔ e ∈ l ∧ key e = k := by
  refine ⟨fun hf => ⟨List.mem_of_find?_eq_some hf, by simpa using List.find?_some hf⟩, ?_⟩
  rintro ⟨he, rfl⟩
  cases hf : lookup key l (key e) with
  | none => exact absurd (decide_eq_true rfl) (List.find?_eq_none.mp hf e he)
  | some b =>
    have hbe : key b = key e := by simpa using List.find?_some hf
    exact congrArg some (List.inj_on_of_nodup_map h (List.mem_of_find?_eq_some hf) he hbe)

/-- **Lookup does not see the order** of a table with distinct keys, so it does not matter in which
order its entries were added and removed. -/
theorem lookup_perm {l l' : List α} (h : Distinct key l) (hp : l.Perm l') (k : κ) :
    lookup key l k = lookup key l' k := by
  refine Option.ext fun e => ?_
  rw [lookup_eq_some_iff h, lookup_eq_some_iff (h.perm hp), hp.mem_iff]

/-- **Overriding changes the lookup at one key**: there it finds the new entry, and at all other
keys what it found before. -/
theorem lookup_override {l : List α} (h : Distinct key l) (e : α) (k : κ) :
    lookup key (override key l e) k = if key e = k then some e else lookup key l k := by
  refine Option.ext fun x => ?_
  rw [lookup_eq_some_iff (h.override e), mem_override h]
  by_cases hk : key e = k
  · simp only [hk, if_true, Option.some.injEq]
    constructor
    · rintro ⟨rfl | ⟨-, hne⟩, hx⟩
      · rfl
      · exact absurd hx hne
    · rintro rfl
      exact ⟨Or.inl rfl, hk⟩
  · rw [if_neg hk, lookup_eq_some_iff h]
    constructor
    · rintro ⟨rfl | ⟨hx, -⟩, hxk⟩
      · exact absurd hxk hk
      · exact ⟨hx, hxk⟩
    · rintro ⟨hx, rfl⟩
      exact ⟨Or.inr ⟨hx, fun he => hk he.symm⟩, rfl⟩

end KeyedTable
