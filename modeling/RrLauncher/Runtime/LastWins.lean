/-
# The last registration wins

The loader fills the replacement tables one registration at a time, sorts them by
hash and publishes them; the runtime, compiled separately, resolves the paths the
game opens.  Together they implement a rule that mentions neither tables nor
hashes: of the registrations that take effect, a path is answered by the last one
for its file name, or else by the last one for the whole path
(`resolve_last_effective_registration`).

`effective` is that rule's own notion of taking effect, stated over the list of
registrations alone; `Agrees` ties it to the tables, one registration at a time.
-/

import RrLauncher.Loader.FilePatch
import RrLauncher.Runtime.Resolve

namespace RrLauncher

/-- A registration takes effect after the effective ones `before` it unless it
names `main.dol` or an AppleDouble file, or it asks for its external file to
exist and that file is neither on the card nor registered already. -/
def TakesEffect (onCard : CStr → Bool) (before : List Registration) (r : Registration) : Prop :=
  ¬ isMainDol r.discPath ∧ ¬ isAppleDouble r.discPath ∧
    ¬ (r.checkExists ∧ ¬ onCard r.externalPath ∧ ∀ b ∈ before, b.externalPath ≠ r.externalPath)

instance (onCard : CStr → Bool) (before : List Registration) (r : Registration) :
    Decidable (TakesEffect onCard before r) :=
  inferInstanceAs (Decidable (_ ∧ _ ∧ ¬ (_ ∧ _ ∧ _)))

/-- The registrations that take effect, in order. -/
def effective (onCard : CStr → Bool) (regs : List Registration) : List Registration :=
  regs.foldl (fun before r => if TakesEffect onCard before r then before ++ [r] else before) []

/-- One more registration is added at the end if it takes effect behind those that did before. -/
theorem effective_concat (onCard : CStr → Bool) (regs : List Registration) (r : Registration) :
    effective onCard (regs ++ [r]) =
      if TakesEffect onCard (effective onCard regs) r then effective onCard regs ++ [r]
      else effective onCard regs := by
  rw [effective, List.foldl_append]
  rfl

/-- Where every registration that skips the existence check names a file that is
there, as a folder walk does, taking effect is a property of each registration
alone. -/
theorem effective_eq_filter {onCard : CStr → Bool} {regs : List Registration}
    (h : ∀ r ∈ regs, r.checkExists = false → onCard r.externalPath) :
    effective onCard regs = regs.filter fun r =>
      ¬ isMainDol r.discPath ∧ ¬ isAppleDouble r.discPath ∧ onCard r.externalPath := by
  induction regs using List.reverseRecOn with
  | nil => rfl
  | append_singleton regs r ih =>
    have ih := ih fun b hb => h b (List.mem_append_left _ hb)
    have hr := h r (by simp)
    have hknown : (∀ b ∈ effective onCard regs, b.externalPath ≠ r.externalPath) ∨
        onCard r.externalPath := by
      by_cases hc : onCard r.externalPath
      · exact Or.inr hc
      · refine Or.inl fun b hb hbr => ?_
        rw [ih, List.mem_filter, decide_eq_true_iff] at hb
        exact hc (hbr ▸ hb.2.2.2)
    have hcheck : ¬ (r.checkExists ∧ ¬ onCard r.externalPath ∧
        ∀ b ∈ effective onCard regs, b.externalPath ≠ r.externalPath) ↔ onCard r.externalPath := by
      refine ⟨fun hn => ?_, fun hc hall => hall.2.1 hc⟩
      by_contra hc
      cases hce : r.checkExists with
      | false => exact hc (hr hce)
      | true => exact hn ⟨hce, hc, hknown.resolve_right hc⟩
    have hiff : TakesEffect onCard (effective onCard regs) r ↔
        ¬ isMainDol r.discPath ∧ ¬ isAppleDouble r.discPath ∧ onCard r.externalPath := by
      rw [TakesEffect, hcheck]
    rw [effective_concat, List.filter_append, ih.symm]
    by_cases ht : TakesEffect onCard (effective onCard regs) r
    · rw [if_pos ht, List.filter_cons_of_pos (by simpa using hiff.mp ht), List.filter_nil]
    · rw [if_neg ht, List.filter_cons_of_neg (by simpa using mt hiff.mpr ht), List.filter_nil,
        List.append_nil]

/-- The external path that a table gives for a disc string. -/
def externalOf (sdFiles : List RrcRiivoSdFile) (l : List RrcRiivoFileReplacement) (disc : CStr) :
    Option CStr :=
  (KeyedTable.lookup (·.disc) l disc).bind fun r => (sdFiles[r.entrynum]?).map (·.path)

/-- Appending SD entries does not change what a table gives. -/
theorem externalOf_prefix {sdFiles sdFiles' : List RrcRiivoSdFile}
    {l : List RrcRiivoFileReplacement} (hp : sdFiles <+: sdFiles') (hl : TableInv sdFiles.length l)
    (disc : CStr) : externalOf sdFiles' l disc = externalOf sdFiles l disc := by
  rw [externalOf, externalOf]
  cases h : KeyedTable.lookup (·.disc) l disc with
  | none => rfl
  | some r =>
    obtain ⟨hr, -⟩ := (KeyedTable.lookup_eq_some_iff hl.distinct).mp h
    have hlt := hl.entrynum r hr
    rw [Option.bind_some, Option.bind_some, List.getElem?_eq_getElem hlt,
      List.getElem?_eq_getElem (hlt.trans_le hp.length_le), hp.getElem hlt]

/-- Overriding gives the new external path for its disc string and leaves the
others. -/
theorem externalOf_override {sdFiles : List RrcRiivoSdFile} {l : List RrcRiivoFileReplacement}
    (hl : TableInv sdFiles.length l) {discPath external : CStr} {e : ℕ}
    (he : (sdFiles[e]?).map (·.path) = some external) (disc : CStr) :
    externalOf sdFiles (KeyedTable.override (·.disc) l (replacementOf discPath e)) disc =
      if skipSlash discPath = disc then some external else externalOf sdFiles l disc := by
  rw [externalOf, KeyedTable.lookup_override hl.distinct]
  by_cases hd : skipSlash discPath = disc
  · simpa [replacementOf, hd] using he
  · simp [replacementOf, hd, externalOf]

/-- The external path of the last of the registrations that satisfy `p`. -/
def lastExternal (p : Registration → Bool) (regs : List Registration) : Option CStr :=
  ((regs.filter p).getLast?).map (·.externalPath)

/-- One more registration is the last one with a property if it has that. -/
theorem lastExternal_concat (p : Registration → Bool) (regs : List Registration)
    (r : Registration) : lastExternal p (regs ++ [r]) =
      if p r then some r.externalPath else lastExternal p regs := by
  rw [lastExternal, List.filter_append]
  cases hp : p r <;> simp [hp, lastExternal]

/-- A filename registration for `disc`. -/
def isFilenameFor (disc : CStr) (r : Registration) : Bool :=
  r.discPath.first ≠ slash && r.discPath = disc

/-- A full registration whose disc path, without its leading slash, is `disc`. -/
def isFullFor (disc : CStr) (r : Registration) : Bool :=
  r.discPath.first = slash && skipSlash r.discPath = disc

/-- The tables say what the effective registrations say. -/
structure Agrees (eff : List Registration) (t : PatchTables) : Prop where
  inv : t.Inv
  known : ∀ external, (∃ f ∈ t.sdFiles, f.path = external) ↔ ∃ b ∈ eff, b.externalPath = external
  filenames : ∀ disc, externalOf t.sdFiles t.filenameReplacements disc =
    lastExternal (isFilenameFor disc) eff
  full : ∀ disc, externalOf t.sdFiles t.replacements disc = lastExternal (isFullFor disc) eff

/-- The tables that a parse begins with agree with no registrations at all. -/
theorem Agrees.empty (mem1 : UInt32) : Agrees [] (PatchTables.empty mem1) :=
  ⟨PatchTables.Inv.empty mem1, by simp [PatchTables.empty], fun _ => rfl, fun _ => rfl⟩

/-- **One call keeps the agreement** of the tables with the registrations that took effect, of which
this one may be one. -/
theorem Agrees.step {onCard : CStr → Bool} {eff : List Registration} {t : PatchTables}
    (h : Agrees eff t) (r : Registration) :
    Agrees (if TakesEffect onCard eff r then eff ++ [r] else eff)
      (rrcRiivoHandleFilePatch onCard t r) := by
  have hknown : (∀ f ∈ t.sdFiles, f.path ≠ r.externalPath) ↔
      ∀ b ∈ eff, b.externalPath ≠ r.externalPath := by
    simpa using not_congr (h.known r.externalPath)
  have hinv : (rrcRiivoHandleFilePatch onCard t r).Inv := h.inv.handleFilePatch r
  rcases rrcRiivoHandleFilePatch_cases onCard h.inv r with ⟨hskip, hsd, hrep, hfil⟩ |
    ⟨hm, ha, t₁, e, h₁, hrep₁, hfil₁, hgrow, he, hreg⟩
  · have hnot : ¬ TakesEffect onCard eff r := by
      rintro ⟨hm, ha, hc⟩
      rcases hskip with h' | h' | ⟨hce, hoc, hnew⟩
      · exact hm h'
      · exact ha h'
      · exact hc ⟨hce, hoc, hknown.mp hnew⟩
    rw [if_neg hnot]
    exact ⟨hinv, fun ext => hsd ▸ h.known ext, fun d => hsd ▸ hfil ▸ h.filenames d,
      fun d => hsd ▸ hrep ▸ h.full d⟩
  · have hyes : TakesEffect onCard eff r := by
      refine ⟨hm, ha, fun ⟨hce, hoc, hnew⟩ => ?_⟩
      rcases hgrow with ⟨⟨f, hf, hfe⟩, -⟩ | ⟨hc, -⟩
      · exact hknown.mpr hnew f hf hfe
      · exact hc ⟨hce, hoc⟩
    rw [if_pos hyes]
    have hpre : t.sdFiles <+: t₁.sdFiles := by
      rcases hgrow with ⟨-, heq⟩ | ⟨-, -, heq⟩
      · exact heq ▸ List.prefix_rfl
      · exact heq ▸ List.prefix_append _ _
    obtain ⟨hsd, hrep, hfil⟩ := registerReplacement_spec h₁ r.discPath e
    rw [← hreg] at hsd hrep hfil
    refine ⟨hinv, fun ext => ?_, fun d => ?_, fun d => ?_⟩
    · -- an external path is known afterwards if it was, or if it is this one
      rw [hsd]
      simp only [List.mem_append, List.mem_singleton, or_and_right, exists_or, exists_eq_left]
      rcases hgrow with ⟨⟨f, hf, hfe⟩, heq⟩ | ⟨-, -, heq⟩
      · rw [heq, h.known ext]
        refine ⟨Or.inl, fun hor => hor.elim id fun hext => ?_⟩
        exact (h.known ext).mp ⟨f, hf, hfe.trans hext⟩
      · rw [heq]
        simp only [List.mem_append, List.mem_singleton, or_and_right, exists_or, exists_eq_left]
        rw [h.known ext]
    · rw [hsd, hfil, lastExternal_concat, ← h.filenames d]
      by_cases hs : r.discPath.first = slash
      · rw [if_pos hs, hfil₁, externalOf_prefix hpre h.inv.filenames]
        simp [isFilenameFor, hs]
      · rw [if_neg hs, externalOf_override h₁.filenames he, hfil₁,
          externalOf_prefix hpre h.inv.filenames]
        simp [isFilenameFor, hs, skipSlash]
    · rw [hsd, hrep, lastExternal_concat, ← h.full d]
      by_cases hs : r.discPath.first = slash
      · rw [if_pos hs, externalOf_override h₁.replacements he, hrep₁,
          externalOf_prefix hpre h.inv.replacements]
        simp [isFullFor, hs]
      · rw [if_neg hs, hrep₁, externalOf_prefix hpre h.inv.replacements]
        simp [isFullFor, hs]

/-- **Every run keeps the agreement**: behind any registrations the tables are those of the ones
that took effect. -/
theorem agrees_handleFilePatches (onCard : CStr → Bool) (mem1 : UInt32)
    (regs : List Registration) :
    Agrees (effective onCard regs)
      (rrcRiivoHandleFilePatches onCard (PatchTables.empty mem1) regs) := by
  induction regs using List.reverseRecOn with
  | nil => exact Agrees.empty mem1
  | append_singleton regs r ih =>
    rw [effective_concat, rrcRiivoHandleFilePatches, List.foldl_append]
    exact ih.step r

/-- `riivoDisc` is what `rrc_riivo_patch_loader_parse` publishes: the SD entries
and, each sorted by hash, the two tables.  `qsort` is not stable, so the order
among equal hashes is left open. -/
structure Publishes (t : PatchTables) (riivoDisc : RrcRiivoDisc) : Prop where
  sdFiles : riivoDisc.sdFiles = t.sdFiles
  replacements : riivoDisc.replacements.Perm t.replacements
  replacementsSorted : SortedByHash riivoDisc.replacements
  filenameReplacements : riivoDisc.filenameReplacements.Perm t.filenameReplacements
  filenameReplacementsSorted : SortedByHash riivoDisc.filenameReplacements

/-- Only registrations of the list are effective, in their order. -/
theorem effective_subset (onCard : CStr → Bool) (regs : List Registration) :
    effective onCard regs ⊆ regs := by
  induction regs using List.reverseRecOn with
  | nil => exact List.Subset.refl _
  | append_singleton regs r ih =>
    rw [effective_concat]
    have ih' : effective onCard regs ⊆ regs ++ [r] := List.Subset.trans ih (List.subset_append_left _ _)
    split
    · exact List.append_subset.mpr ⟨ih', List.subset_append_right _ _⟩
    · exact ih'

/-- A replacement that is stored gives some external path, as its entry number is in range. -/
theorem exists_externalOf {sdFiles : List RrcRiivoSdFile} {l : List RrcRiivoFileReplacement}
    (hl : TableInv sdFiles.length l) {x : RrcRiivoFileReplacement} (hx : x ∈ l) :
    ∃ external, externalOf sdFiles l x.disc = some external := by
  have hlook := (KeyedTable.lookup_eq_some_iff hl.distinct).mpr ⟨hx, rfl⟩
  rw [externalOf, hlook, Option.bind_some, List.getElem?_eq_getElem (hl.entrynum x hx)]
  exact ⟨_, rfl⟩

/-- What is last among the registrations that satisfy `p` satisfies it. -/
theorem exists_of_lastExternal {p : Registration → Bool} {regs : List Registration}
    {external : CStr} (h : lastExternal p regs = some external) : ∃ r ∈ regs, p r := by
  obtain ⟨r, hr, -⟩ := Option.map_eq_some_iff.mp h
  obtain ⟨hmem, hp⟩ := List.mem_filter.mp (List.mem_of_getLast? hr)
  exact ⟨r, hmem, hp⟩

/-- Registered in lower case, the disc strings of both tables are in lower case. -/
theorem Agrees.lower {eff : List Registration} {t : PatchTables} (h : Agrees eff t)
    (hlower : ∀ r ∈ eff, r.discPath.lower = r.discPath) :
    (∀ x ∈ t.replacements, x.disc.lower = x.disc) ∧
      ∀ x ∈ t.filenameReplacements, x.disc.lower = x.disc := by
  constructor
  · intro x hx
    obtain ⟨external, hext⟩ := exists_externalOf h.inv.replacements hx
    rw [h.full] at hext
    obtain ⟨r, hr, hp⟩ := exists_of_lastExternal hext
    simp only [isFullFor, Bool.and_eq_true, decide_eq_true_eq] at hp
    rw [← hp.2, lower_skipSlash, hlower r hr]
  · intro x hx
    obtain ⟨external, hext⟩ := exists_externalOf h.inv.filenames hx
    rw [h.filenames] at hext
    obtain ⟨r, hr, hp⟩ := exists_of_lastExternal hext
    simp only [isFilenameFor, Bool.and_eq_true, decide_eq_true_eq] at hp
    rw [← hp.2, hlower r hr]

/-- Searching a published table for a path of any letter case gives the external
path of its lowered form, or none. -/
theorem search_published {sdFiles : List RrcRiivoSdFile} {l sorted : List RrcRiivoFileReplacement}
    (hl : TableInv sdFiles.length l) (hlower : ∀ x ∈ l, x.disc.lower = x.disc)
    (hp : sorted.Perm l) (hs : SortedByHash sorted) (filename : CStr) :
    match externalOf sdFiles l filename.lower with
    | some external => ∃ e,
        rteDvdSearchReplacement (rrcHashStringLowercase filename) filename sorted = some e ∧
          (sdFiles[e]?).map (·.path) = some external
    | none => rteDvdSearchReplacement (rrcHashStringLowercase filename) filename sorted = none := by
  have hsorted := hl.perm hp.symm
  rw [rteDvdSearchReplacement_lowercase hs hsorted.hash
    (fun r hr => hlower r (hp.mem_iff.mp hr)) filename]
  have hlook := KeyedTable.lookup_perm hsorted.distinct hp filename.lower
  rw [externalOf, ← hlook]
  unfold KeyedTable.lookup
  cases hf : sorted.find? (·.disc = filename.lower) with
  | none => rfl
  | some r =>
    have hlt := hsorted.entrynum r (List.mem_of_find?_eq_some hf)
    rw [Option.bind_some, List.getElem?_eq_getElem hlt]
    exact ⟨r.entrynum, rfl, congrArg _ (List.getElem?_eq_getElem hlt)⟩

/-- **The last registration wins.**  After any calls of
`_rrc_riivo_handle_file_patch` with lowered disc paths from empty tables, sorted
in any way by hash, every path `F` of any letter case resolves to an entry whose
SD path is the external path of the last effective filename registration for the
text after its last `/`, or, without one, of the last effective full registration
for `F` without one leading `/`; and it does not resolve where there is neither. -/
theorem resolve_last_effective_registration (onCard : CStr → Bool) (mem1 : UInt32)
    (regs : List Registration) (hlower : ∀ r ∈ regs, r.discPath.lower = r.discPath)
    (riivoDisc : RrcRiivoDisc)
    (hpub : Publishes (rrcRiivoHandleFilePatches onCard (PatchTables.empty mem1) regs) riivoDisc)
    (F : CStr) :
    match lastExternal (isFilenameFor (F.afterLast slash).lower) (effective onCard regs) with
    | some external => ∃ e, rteDvdResolvePathToEntryNum riivoDisc F = some e ∧
        (riivoDisc.sdFiles[e]?).map (·.path) = some external
    | none =>
      match lastExternal (isFullFor (skipSlash F).lower) (effective onCard regs) with
      | some external => ∃ e, rteDvdResolvePathToEntryNum riivoDisc F = some e ∧
          (riivoDisc.sdFiles[e]?).map (·.path) = some external
      | none => rteDvdResolvePathToEntryNum riivoDisc F = none := by
  have h := agrees_handleFilePatches onCard mem1 regs
  set t := rrcRiivoHandleFilePatches onCard (PatchTables.empty mem1) regs
  obtain ⟨hfull, hfile⟩ := h.lower fun r hr => hlower r (effective_subset onCard regs hr)
  have hsearchFile := search_published h.inv.filenames hfile hpub.filenameReplacements
    hpub.filenameReplacementsSorted (F.afterLast slash)
  have hsearchFull := search_published h.inv.replacements hfull hpub.replacements
    hpub.replacementsSorted (skipSlash F)
  rw [h.filenames] at hsearchFile
  rw [h.full] at hsearchFull
  have hseg : (((skipSlash F).strrchr slash).map CStr.advance).getD (skipSlash F)
      = F.afterLast slash := (CStr.strrchr_afterLast _ _).trans (afterLast_skipSlash F)
  rw [hpub.sdFiles, rteDvdResolvePathToEntryNum]
  simp only [hseg]
  cases hlast : lastExternal (isFilenameFor (F.afterLast slash).lower) (effective onCard regs) with
  | some external =>
    rw [hlast] at hsearchFile
    obtain ⟨e, he, hpath⟩ := hsearchFile
    exact ⟨e, by rw [he], hpath⟩
  | none =>
    rw [hlast] at hsearchFile
    simp only [hsearchFile]
    exact hsearchFull

/-- The rule on two registrations of one file name: the game's path, in another
letter case, resolves to the second external file. -/
theorem resolve_last_effective_registration_course :
    let regs : List Registration :=
      [⟨CStr.lit "course.szs", CStr.lit "/a.szs", false⟩,
        ⟨CStr.lit "course.szs", CStr.lit "/b.szs", false⟩]
    let t := rrcRiivoHandleFilePatches (fun _ => true) (PatchTables.empty 0) regs
    ∃ e, rteDvdResolvePathToEntryNum ⟨t.sdFiles, t.filenameReplacements, t.replacements⟩
        (CStr.lit "/Race/COURSE.szs") = some e ∧
      (t.sdFiles[e]?).map (·.path) = some (CStr.lit "/b.szs") := by
  intro regs t
  have h := resolve_last_effective_registration (fun _ => true) 0 regs (by decide)
    ⟨t.sdFiles, t.filenameReplacements, t.replacements⟩
    ⟨rfl, List.Perm.refl _, List.Pairwise.nil, List.Perm.refl _, List.pairwise_singleton _ _⟩
    (CStr.lit "/Race/COURSE.szs")
  have hlast : lastExternal (isFilenameFor ((CStr.lit "/Race/COURSE.szs").afterLast slash).lower)
      (effective (fun _ => true) regs) = some (CStr.lit "/b.szs") := by decide
  rwa [hlast] at h

end RrLauncher
