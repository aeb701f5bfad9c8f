/-
# Write-back caches

A store with pages over it: a page holds the cells of its span, and a dirty page holds them
in place of the store.  What a reader sees is the `view`: the cell of the page it belongs to,
or of the store.  The pages are coherent if no two share a cell and the clean ones agree
with the store.

Whatever the policy, there are four things that happen to a page.  Writing it back does not
change the view (`Coherent.writeBack`), nor does a write that went wrong while the page stays
dirty (`Coherent.spoil`), nor does loading a clean page with other cells (`Coherent.load`);
storing into a page changes the view in its span, to what is stored (`Coherent.store`).
-/

import Mathlib.Data.Set.Basic

universe u v w

/-- Cells held for a store. -/
structure CachePage (ι : Type v) (β : Type w) where
  span : Set ι
  data : ι → β
  dirty : Bool

/-- A store with pages over it. -/
structure WriteBack (κ : Type u) (ι : Type v) (β : Type w) where
  backing : ι → β
  page : κ → CachePage ι β

namespace WriteBack

variable {κ : Type u} {ι : Type v} {β : Type w}

open Classical in
/-- What a reader sees at a place: the page that has it, or else the store. -/
noncomputable def view (s : WriteBack κ ι β) (a : ι) : β :=
  if h : ∃ k, a ∈ (s.page k).span then (s.page h.choose).data a else s.backing a

/-- No two pages share a cell, and the clean ones agree with the store. -/
structure Coherent (s : WriteBack κ ι β) : Prop where
  apart : ∀ k k' a, a ∈ (s.page k).span → a ∈ (s.page k').span → k = k'
  clean : ∀ k, (s.page k).dirty = false → ∀ a ∈ (s.page k).span, (s.page k).data a = s.backing a

section View

variable {s s' : WriteBack κ ι β}

/-- A cell of a page is seen in the page. -/
theorem Coherent.view_of_mem (h : s.Coherent) {k : κ} {a : ι} (ha : a ∈ (s.page k).span) :
    s.view a = (s.page k).data a := by
  have hex : ∃ k, a ∈ (s.page k).span := ⟨k, ha⟩
  rw [view, dif_pos hex, h.apart _ k a hex.choose_spec ha]

/-- A cell of no page is seen in the store. -/
theorem view_of_forall_notMem {a : ι} (ha : ∀ k, a ∉ (s.page k).span) : s.view a = s.backing a := by
  rw [view, dif_neg fun ⟨k, hk⟩ => ha k hk]

/-- **With all pages clean the store is what is seen.** -/
theorem Coherent.view_eq_backing (h : s.Coherent) (hclean : ∀ k, (s.page k).dirty = false) :
    s.view = s.backing := by
  funext a
  by_cases ha : ∃ k, a ∈ (s.page k).span
  · obtain ⟨k, hk⟩ := ha
    rw [h.view_of_mem hk, h.clean k (hclean k) a hk]
  · exact view_of_forall_notMem fun k hk => ha ⟨k, hk⟩

/-- Two states with the same spans are seen alike where their pages, and outside them their
stores, are alike. -/
theorem view_congr (h : s.Coherent) (h' : s'.Coherent) (hspan : ∀ k, (s'.page k).span = (s.page k).span)
    (hdata : ∀ k, ∀ a ∈ (s.page k).span, (s'.page k).data a = (s.page k).data a)
    (hbacking : ∀ a, (∀ k, a ∉ (s.page k).span) → s'.backing a = s.backing a) : s'.view = s.view := by
  funext a
  by_cases ha : ∃ k, a ∈ (s.page k).span
  · obtain ⟨k, hk⟩ := ha
    rw [h.view_of_mem hk, h'.view_of_mem (hspan k ▸ hk), hdata k a hk]
  · have hnone : ∀ k, a ∉ (s.page k).span := fun k hk => ha ⟨k, hk⟩
    rw [view_of_forall_notMem hnone, view_of_forall_notMem fun k => (hspan k).symm ▸ hnone k,
      hbacking a hnone]

end View

section Steps

variable {s s' : WriteBack κ ι β} {k : κ}

/-- **Writing a page back** to the store behind it, after which the page may count as clean: the
pages stay coherent, and what is seen through them does not change. -/
theorem Coherent.writeBack (h : s.Coherent) (hspan : ∀ k', (s'.page k').span = (s.page k').span)
    (hdata : ∀ k', (s'.page k').data = (s.page k').data)
    (hdirty : ∀ k' ≠ k, (s'.page k').dirty = (s.page k').dirty)
    (hin : ∀ a ∈ (s.page k).span, s'.backing a = (s.page k).data a)
    (hout : ∀ a ∉ (s.page k).span, s'.backing a = s.backing a) : s'.Coherent ∧ s'.view = s.view := by
  have h' : s'.Coherent := by
    refine ⟨fun k₁ k₂ a h₁ h₂ => h.apart k₁ k₂ a (hspan k₁ ▸ h₁) (hspan k₂ ▸ h₂), ?_⟩
    intro k' hclean a ha
    rw [hspan] at ha
    rw [hdata]
    by_cases hk : k' = k
    · subst hk
      exact (hin a ha).symm
    · have hnot : a ∉ (s.page k).span := fun hmem => hk (h.apart k' k a ha hmem)
      rw [hout a hnot]
      exact h.clean k' (hdirty k' hk ▸ hclean) a ha
  exact ⟨h', view_congr h h' hspan (fun k' a _ => by rw [hdata]) fun a ha => hout a (ha k)⟩

/-- **A write that went wrong**, while the page stays dirty. -/
theorem Coherent.spoil (h : s.Coherent) (hpage : s'.page = s.page) (hdirty : (s.page k).dirty = true)
    (hout : ∀ a ∉ (s.page k).span, s'.backing a = s.backing a) : s'.Coherent ∧ s'.view = s.view := by
  have h' : s'.Coherent := by
    refine ⟨fun k₁ k₂ a => by rw [hpage]; exact h.apart k₁ k₂ a, fun k' hclean a ha => ?_⟩
    rw [hpage] at hclean ha ⊢
    have hk : k' ≠ k := fun heq => by rw [heq, hdirty] at hclean; cases hclean
    rw [hout a fun hmem => hk (h.apart k' k a ha hmem)]
    exact h.clean k' hclean a ha
  exact ⟨h', view_congr h h' (fun k' => by rw [hpage]) (fun k' a _ => by rw [hpage])
    fun a ha => hout a (ha k)⟩

/-- **Loading a clean page** with cells that no other page has. -/
theorem Coherent.load (h : s.Coherent) (hclean : (s.page k).dirty = false)
    (hothers : ∀ k' ≠ k, s'.page k' = s.page k') (hbacking : s'.backing = s.backing)
    (hdata : ∀ a ∈ (s'.page k).span, (s'.page k).data a = s.backing a)
    (hfree : ∀ a ∈ (s'.page k).span, ∀ k' ≠ k, a ∉ (s.page k').span) :
    s'.Coherent ∧ s'.view = s.view := by
  have h' : s'.Coherent := by
    refine ⟨fun k₁ k₂ a h₁ h₂ => ?_, fun k' hc a ha => ?_⟩
    · by_contra hne
      by_cases hk₁ : k₁ = k
      · subst hk₁
        rw [hothers k₂ (Ne.symm hne)] at h₂
        exact hfree a h₁ k₂ (Ne.symm hne) h₂
      · rw [hothers k₁ hk₁] at h₁
        by_cases hk₂ : k₂ = k
        · subst hk₂
          exact hfree a h₂ k₁ hk₁ h₁
        · rw [hothers k₂ hk₂] at h₂
          exact hne (h.apart k₁ k₂ a h₁ h₂)
    · rw [hbacking]
      by_cases hk : k' = k
      · subst hk
        exact hdata a ha
      · rw [hothers k' hk] at hc ha ⊢
        exact h.clean k' hc a ha
  refine ⟨h', ?_⟩
  funext a
  by_cases hnew : a ∈ (s'.page k).span
  · -- the cell was seen in the store, or in the page that was clean
    rw [h'.view_of_mem hnew, hdata a hnew]
    by_cases hold : a ∈ (s.page k).span
    · rw [h.view_of_mem hold, h.clean k hclean a hold]
    · refine (view_of_forall_notMem fun k' => ?_).symm
      by_cases hk : k' = k
      · rwa [hk]
      · exact hfree a hnew k' hk
  · by_cases hother : ∃ k', k' ≠ k ∧ a ∈ (s.page k').span
    · obtain ⟨k', hk, ha⟩ := hother
      have hpage := hothers k' hk
      have ha' : a ∈ (s'.page k').span := by rwa [hpage]
      rw [h.view_of_mem ha, h'.view_of_mem ha', hpage]
    · have hout : ∀ k', a ∉ (s'.page k').span := by
        intro k' ha
        by_cases hk : k' = k
        · exact hnew (hk ▸ ha)
        · exact hother ⟨k', hk, hothers k' hk ▸ ha⟩
      rw [view_of_forall_notMem hout, hbacking]
      by_cases hold : a ∈ (s.page k).span
      · rw [h.view_of_mem hold, h.clean k hclean a hold]
      · refine (view_of_forall_notMem fun k' ha => ?_).symm
        by_cases hk : k' = k
        · exact hold (hk ▸ ha)
        · exact hother ⟨k', hk, ha⟩

/-- **Storing into a page** that is then dirty: the pages stay coherent, and what is seen changes in
that page, as the page does, and nowhere else. -/
theorem Coherent.store (h : s.Coherent) (s' : WriteBack κ ι β)
    (hspan : ∀ k', (s'.page k').span = (s.page k').span)
    (hothers : ∀ k' ≠ k, s'.page k' = s.page k') (hbacking : s'.backing = s.backing)
    (hdirty : (s'.page k).dirty = true) :
    s'.Coherent ∧ (∀ a ∈ (s.page k).span, s'.view a = (s'.page k).data a) ∧
      ∀ a ∉ (s.page k).span, s'.view a = s.view a := by
  have h' : s'.Coherent := by
    refine ⟨fun k₁ k₂ a h₁ h₂ => h.apart k₁ k₂ a (hspan k₁ ▸ h₁) (hspan k₂ ▸ h₂), ?_⟩
    intro k' hclean a ha
    have hk : k' ≠ k := fun heq => by rw [heq, hdirty] at hclean; cases hclean
    rw [hothers k' hk] at hclean ha ⊢
    rw [hbacking]
    exact h.clean k' hclean a ha
  refine ⟨h', fun a ha => h'.view_of_mem (by rwa [hspan]), fun a ha => ?_⟩
  by_cases hother : ∃ k', a ∈ (s.page k').span
  · obtain ⟨k', hk'⟩ := hother
    have hk : k' ≠ k := fun heq => ha (heq ▸ hk')
    rw [h.view_of_mem hk', h'.view_of_mem (by rwa [hspan]), hothers k' hk]
  · have hnone : ∀ k', a ∉ (s.page k').span := fun k' hk' => hother ⟨k', hk'⟩
    rw [view_of_forall_notMem hnone, view_of_forall_notMem fun k' => (hspan k').symm ▸ hnone k',
      hbacking]

end Steps

end WriteBack
