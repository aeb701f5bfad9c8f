/-
# Searching a table sorted by a key that is not unique

A table sorted by a key is searched by halving a half-open window.  Several
entries can have the key that is looked for, and the search may land in the
middle of them, so it walks back to the first one; a caller that wants one entry
of the run then walks forward, comparing entries, until the key changes.

`searchFirst` finds the first index with the key or none (`searchFirst_eq_some`,
`searchFirst_eq_none`), and searching and walking forward is a linear scan of
the whole table (`searchRun_eq_find?`).
-/

import Mathlib.Data.List.Basic
import Mathlib.Order.Lattice

namespace SortedSearch

variable {α κ : Type*} [LinearOrder κ] (key : α → κ) (xs : List α) (k : κ)

/-- The table is sorted by key; equal keys are allowed. -/
def Sorted : Prop := xs.Pairwise fun a b => key a ≤ key b

/-- Walk back from an index as long as the entry before it has the key. -/
def walkBack : (mid : ℕ) → mid < xs.length → ℕ
  | 0, _ => 0
  | mid + 1, h => if key xs[mid] = k then walkBack mid (Nat.lt_of_succ_lt h) else mid + 1

/-- The halving loop on the window `[lo, hi)`; `none` is the `-1` of a search
that fails. -/
def searchWindow (lo hi : ℕ) (hhi : hi ≤ xs.length) : Option ℕ :=
  if hlt : lo < hi then
    let mid := (lo + hi) / 2
    have hmid : mid < xs.length := by omega
    if key xs[mid] = k then some (walkBack key xs k mid hmid)
    else if key xs[mid] < k then searchWindow (mid + 1) hi hhi
    else searchWindow lo mid (by omega)
  else none
termination_by hi - lo

/-- Search the whole table for the first entry with the key. -/
def searchFirst : Option ℕ := searchWindow key xs k 0 xs.length (Nat.le_refl _)

/-- Walk forward through the entries with the key to the first that satisfies
`p`. -/
def scanRun (p : α → Bool) : List α → Option α
  | [] => none
  | x :: rest => if key x = k then (if p x then some x else scanRun p rest) else none

/-- Search, then walk forward through the run. -/
def searchRun (p : α → Bool) : Option α :=
  match searchFirst key xs k with
  | some i => scanRun key k p (xs.drop i)
  | none => none

variable {key xs k}

/-- In a sorted array the keys do not fall from one index to a later one. -/
theorem Sorted.le (hs : Sorted key xs) {i j : ℕ} (hij : i ≤ j) (hj : j < xs.length) :
    key xs[i] ≤ key xs[j] := by
  rcases Nat.lt_or_eq_of_le hij with hlt | rfl
  · exact List.pairwise_iff_getElem.mp hs i j (by omega) hj hlt
  · exact le_rfl

/-- Walking back from an entry with the key stops at the first one. -/
theorem walkBack_spec (hs : Sorted key xs) {mid : ℕ} (h : mid < xs.length) (hk : key xs[mid] = k) :
    ∃ hr : walkBack key xs k mid h < xs.length, key xs[walkBack key xs k mid h] = k ∧
      ∀ j (hj : j < walkBack key xs k mid h), key xs[j] < k := by
  induction mid with
  | zero => exact ⟨h, hk, fun j hj => absurd hj (Nat.not_lt_zero j)⟩
  | succ mid ih =>
    simp only [walkBack]
    by_cases hm : key xs[mid] = k
    · simp only [hm, if_true]
      exact ih _ hm
    · simp only [hm, if_false]
      refine ⟨h, hk, fun j hj => ?_⟩
      have hlt : key xs[mid] < k := lt_of_le_of_ne (hk ▸ hs.le (Nat.le_succ mid) h) hm
      exact (hs.le (Nat.le_of_lt_succ hj) (by omega)).trans_lt hlt

/-- What a search that succeeds returns: an index with the key, below which no
entry has it. -/
theorem searchWindow_some (hs : Sorted key xs) {lo hi : ℕ} {hhi : hi ≤ xs.length} {i : ℕ}
    (h : searchWindow key xs k lo hi hhi = some i) :
    ∃ hi : i < xs.length, key xs[i] = k ∧ ∀ j (hj : j < i), key xs[j] < k := by
  fun_induction searchWindow key xs k lo hi hhi with
  | case1 lo hi hhi hlt mid hmid hk =>
    obtain rfl := Option.some.inj h
    exact walkBack_spec hs hmid hk
  | case2 lo hi hhi hlt mid hmid hne hless ih => exact ih h
  | case3 lo hi hhi hlt mid hmid hne hless ih => exact ih h
  | case4 => cases h

/-- A search of a window that holds the key succeeds. -/
theorem searchWindow_isSome (hs : Sorted key xs) {lo hi : ℕ} (hhi : hi ≤ xs.length) {i : ℕ}
    (hlo : lo ≤ i) (hi' : i < hi) (hk : key (xs.get ⟨i, by omega⟩) = k) :
    (searchWindow key xs k lo hi hhi).isSome := by
  fun_induction searchWindow key xs k lo hi hhi with
  | case1 => rfl
  | case2 lo hi hhi hlt mid hmid hne hless ih =>
    refine ih (Nat.succ_le_of_lt (Nat.lt_of_not_le fun hle => ?_)) hi' hk
    have hik : k ≤ key xs[mid] := hk ▸ hs.le hle hmid
    exact absurd hless (not_lt.mpr hik)
  | case3 lo hi hhi hlt mid hmid hne hless ih =>
    refine ih hlo (Nat.lt_of_not_le fun hle => ?_) hk
    have hik : key xs[mid] ≤ k := hk ▸ hs.le hle (by omega)
    exact hne (le_antisymm hik (not_lt.mp hless))
  | case4 => omega

/-- **The search returns the first index with the key**, in a sorted array where several entries may
have the same one. -/
theorem searchFirst_eq_some (hs : Sorted key xs) {i : ℕ} :
    searchFirst key xs k = some i ↔
      ∃ hi : i < xs.length, key xs[i] = k ∧ ∀ j (hj : j < i), key xs[j] ≠ k := by
  constructor
  · intro h
    obtain ⟨hi, hk, hlt⟩ := searchWindow_some hs h
    exact ⟨hi, hk, fun j hj => (hlt j hj).ne⟩
  · rintro ⟨hi, hk, hne⟩
    obtain ⟨r, hr⟩ := Option.isSome_iff_exists.mp
      (searchWindow_isSome hs (Nat.le_refl _) (Nat.zero_le i) hi hk)
    obtain ⟨hrl, hrk, hrlt⟩ := searchWindow_some hs hr
    -- neither index can lie below the other
    rcases Nat.lt_trichotomy r i with hlt | rfl | hgt
    · exact absurd hrk (hne r hlt)
    · exact hr
    · exact absurd hk (hrlt i hgt).ne

/-- **The search fails exactly when no entry has the key.** -/
theorem searchFirst_eq_none (hs : Sorted key xs) :
    searchFirst key xs k = none ↔ ∀ x ∈ xs, key x ≠ k := by
  constructor
  · intro h x hx hxk
    obtain ⟨i, hi, rfl⟩ := List.mem_iff_getElem.mp hx
    have hsome := searchWindow_isSome hs (Nat.le_refl _) (Nat.zero_le i) hi hxk
    rw [show searchWindow key xs k 0 xs.length (Nat.le_refl _) = none from h] at hsome
    cases hsome
  · intro h
    cases hr : searchFirst key xs k with
    | none => rfl
    | some i =>
      obtain ⟨hi, hk, -⟩ := (searchFirst_eq_some hs).mp hr
      exact absurd hk (h _ (List.getElem_mem hi))

/-- Walking forward through a sorted table none of whose keys is smaller is a
linear scan: past the run no key is equal again. -/
theorem scanRun_eq_find? {p : α → Bool} {l : List α} (hs : Sorted key l)
    (hge : ∀ x ∈ l, k ≤ key x) : scanRun key k p l = l.find? fun x => key x = k ∧ p x := by
  induction l with
  | nil => rfl
  | cons x l ih =>
    obtain ⟨hx, hl⟩ := List.pairwise_cons.mp hs
    have hgel : ∀ y ∈ l, k ≤ key y := fun y hy => hge y (List.mem_cons_of_mem _ hy)
    rw [scanRun, List.find?_cons]
    by_cases hk : key x = k
    · by_cases hp : p x = true <;> simp [hk, hp, ih hl hgel]
    · have hlt : k < key x := lt_of_le_of_ne (hge x List.mem_cons_self) (Ne.symm hk)
      have hnone : l.find? (fun y => key y = k ∧ p y) = none := by
        refine List.find?_eq_none.mpr fun y hy => ?_
        simp [(hlt.trans_le (hx y hy)).ne']
      simp only [hk, if_false, false_and, decide_false, hnone]

/-- What the walk forward gives is an entry that satisfies `p`. -/
theorem mem_of_scanRun {p : α → Bool} {l : List α} {x : α} (h : scanRun key k p l = some x) :
    x ∈ l ∧ p x := by
  induction l with
  | nil => cases h
  | cons y l ih =>
    rw [scanRun] at h
    split at h
    · split at h
      · obtain rfl := Option.some.inj h
        exact ⟨List.mem_cons_self, ‹_›⟩
      · exact ⟨List.mem_cons_of_mem _ (ih h).1, (ih h).2⟩
    · cases h

/-- In any table, sorted or not, the search finds entries of the table that
satisfy `p`. -/
theorem mem_of_searchRun {p : α → Bool} {x : α} (h : searchRun key xs k p = some x) :
    x ∈ xs ∧ p x := by
  rw [searchRun] at h
  split at h
  · exact ⟨List.mem_of_mem_drop (mem_of_scanRun h).1, (mem_of_scanRun h).2⟩
  · cases h

/-- **Searching and walking forward is a linear scan** for an entry with the key
that satisfies `p`. -/
theorem searchRun_eq_find? (hs : Sorted key xs) (p : α → Bool) :
    searchRun key xs k p = xs.find? fun x => key x = k ∧ p x := by
  rw [searchRun]
  cases hr : searchFirst key xs k with
  | none =>
    refine (List.find?_eq_none.mpr fun x hx => ?_).symm
    simp [(searchFirst_eq_none hs).mp hr x hx]
  | some i =>
    obtain ⟨hi, hk, hne⟩ := (searchFirst_eq_some hs).mp hr
    have htake : (xs.take i).find? (fun x => key x = k ∧ p x) = none := by
      refine List.find?_eq_none.mpr fun x hx => ?_
      obtain ⟨j, hj, rfl⟩ := List.mem_take_iff_getElem.mp hx
      simp [hne j (by omega)]
    have hdrop : ∀ x ∈ xs.drop i, k ≤ key x := by
      intro x hx
      obtain ⟨j, hj, rfl⟩ := List.mem_drop_iff_getElem.mp hx
      exact hk ▸ hs.le (Nat.le_add_right i j) (Nat.add_comm i j ▸ hj)
    rw [← List.take_append_drop i xs, List.find?_append, htake, Option.none_or,
      List.take_append_drop]
    exact scanRun_eq_find? (hs.sublist (List.drop_sublist i xs)) hdrop

end SortedSearch
