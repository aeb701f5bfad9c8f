/-
# Which updates are selected

`rrc_versionsfile_get_necessary_urls_and_versions` with the two tables that it fills, as
long as it takes: the entry that is written next, the versions and the URLs.  What the
tables hold are the entries that the parser keeps (`necessary_holds`), and of a list that
was rendered these are the entries with a newer version (`update_selection`).
-/

import RrLauncher.Update.RenderedList

namespace RrLauncher

open Stdio

/-- `update_idx` and what was written to `*versions` and `*urls`. -/
structure UpdateTables where
  updateIdx : ℕ
  versions : ℕ → Option RrcVersion
  urls : ℕ → Option CStr

/-- What the function returns through its pointers; `*urls` is the null pointer if there are
no updates. -/
structure NecessaryUpdates where
  uamt : ℕ
  urls : Option (ℕ → Option CStr)
  versions : ℕ → Option RrcVersion

/-- The tables as they are allocated: nothing was written to them. -/
def UpdateTables.empty : UpdateTables := ⟨0, fun _ => none, fun _ => none⟩

/-- The next entry of both tables is written. -/
def UpdateTables.push (t : UpdateTables) (version : RrcVersion) (url : CStr) : UpdateTables where
  updateIdx := t.updateIdx + 1
  versions := Function.update t.versions t.updateIdx (some version)
  urls := Function.update t.urls t.updateIdx (some url)

/-- The body of the loop over the lines. -/
def selectLine (currentVersion : RrcVersion) (t : UpdateTables) (line : CStr) :
    Except (Stop RrcResultError) UpdateTables :=
  match (readLine "Failed to split versionfile" line).2 with
  | .error stop => .error stop
  | .ok (verint, url) =>
    if rrcVersionIsOlder currentVersion verint then .ok (t.push verint url) else .ok t

/-- `rrc_versionsfile_get_necessary_urls_and_versions` with the two tables that it fills. -/
def necessaryUrlsAndVersions (versionsfile : CStr) (currentVersion : RrcVersion) :
    Except (Stop RrcResultError) NecessaryUpdates :=
  let (res, lines) := rrcVersionsfileSplitBy versionsfile newline
  if res < 0 then
    .error (.error (rrcResultCreateErrorCorruptedVersionfile "Failed to split versionfile"))
  else if res = 2 then
    .error (.error (rrcResultCreateErrorCorruptedVersionfile
      "Versionfile had more than 4096 entries"))
  else do
    let t ← lines.foldlM (selectLine currentVersion) .empty
    return ⟨t.updateIdx, if t.updateIdx = 0 then none else some t.urls, t.versions⟩

/-! ### What the tables hold -/

/-- The tables hold these entries, each at the same place in both. -/
structure UpdateTables.Holds (t : UpdateTables) (entries : List (RrcVersion × CStr)) : Prop where
  updateIdx : t.updateIdx = entries.length
  entry : ∀ i (h : i < entries.length),
    t.versions i = some entries[i].1 ∧ t.urls i = some entries[i].2

/-- One more entry in both of the tables is one more entry of the list that they hold. -/
theorem UpdateTables.Holds.push {t : UpdateTables} {entries : List (RrcVersion × CStr)}
    (h : t.Holds entries) (version : RrcVersion) (url : CStr) :
    (t.push version url).Holds (entries ++ [(version, url)]) := by
  refine ⟨by simp [UpdateTables.push, h.updateIdx], fun i hi => ?_⟩
  unfold UpdateTables.push
  by_cases hlast : i = entries.length
  · subst hlast
    simp [h.updateIdx]
  · have hold : i < entries.length := by
      rw [List.length_append, List.length_singleton] at hi
      omega
    have hne : i ≠ t.updateIdx := h.updateIdx ▸ hlast
    simp only [Function.update_of_ne hne, List.getElem_append_left hold]
    exact h.entry i hold

/-- **The loop fills the tables with the entries that are kept.** -/
theorem foldlM_selectLine {currentVersion : RrcVersion} {lines : List CStr} {t : UpdateTables}
    {before entries : List (RrcVersion × CStr)} (h : t.Holds before) (tables : List ListTable)
    (index : ℕ) (hread : (readLines "Failed to split versionfile" tables
      (rrcVersionIsOlder currentVersion) lines index).2 = .ok entries) :
    ∃ t', lines.foldlM (selectLine currentVersion) t = .ok t' ∧ t'.Holds (before ++ entries) := by
  induction lines generalizing t before entries index with
  | nil =>
    obtain rfl : [] = entries := Except.ok.inj hread
    exact ⟨t, rfl, by rwa [List.append_nil]⟩
  | cons line lines ih =>
    rw [readLines] at hread
    rw [List.foldlM_cons, selectLine]
    cases hline : readLine "Failed to split versionfile" line with
    | mk accesses result =>
      rw [hline] at hread
      cases result with
      | error stop => cases hread
      | ok entry =>
        dsimp only at hread ⊢
        by_cases hkeep : rrcVersionIsOlder currentVersion entry.1 = true
        · rw [if_pos hkeep] at hread ⊢
          cases hrest : (readLines "Failed to split versionfile" tables
              (rrcVersionIsOlder currentVersion) lines (index + 1)).2 with
          | error stop =>
            rw [hrest] at hread
            cases hread
          | ok later =>
            rw [hrest] at hread
            obtain rfl : entry :: later = entries := Except.ok.inj hread
            obtain ⟨t', hfold, hholds⟩ := ih (h.push entry.1 entry.2) (index + 1) hrest
            exact ⟨t', hfold, by rwa [List.append_assoc] at hholds⟩
        · rw [if_neg hkeep] at hread ⊢
          exact ih h index hread

/-- **The tables hold the entries that the parser keeps**, as many as are reported. -/
theorem necessary_holds {versionsfile : CStr} {currentVersion : RrcVersion}
    {entries : List (RrcVersion × CStr)}
    (h : (traceNecessaryUrlsAndVersions versionsfile currentVersion).2 = .ok entries) :
    ∃ out, necessaryUrlsAndVersions versionsfile currentVersion = .ok out ∧
      out.uamt = entries.length ∧ (entries = [] → out.urls = none) ∧
      ∀ i (hi : i < entries.length), out.versions i = some entries[i].1 ∧
        ∃ urls, out.urls = some urls ∧ urls i = some entries[i].2 := by
  unfold traceNecessaryUrlsAndVersions traceEntriesOf at h
  unfold necessaryUrlsAndVersions
  cases hsplit : rrcVersionsfileSplitBy versionsfile newline with
  | mk res lines =>
    rw [hsplit] at h
    dsimp only at h ⊢
    by_cases hfailed : res < 0
    · rw [if_pos hfailed] at h
      cases h
    by_cases htoo : res = 2
    · rw [if_neg hfailed, if_pos htoo] at h
      cases h
    rw [if_neg hfailed, if_neg htoo] at h ⊢
    have hempty : UpdateTables.empty.Holds [] := ⟨rfl, fun i hi => absurd hi (Nat.not_lt_zero i)⟩
    obtain ⟨t, hfold, hholds⟩ := foldlM_selectLine hempty _ _ h
    rw [List.nil_append] at hholds
    rw [hfold]
    refine ⟨_, rfl, hholds.updateIdx, fun hnil => ?_, fun i hi => ?_⟩
    · have hzero : t.updateIdx = 0 := by rw [hholds.updateIdx, hnil]; rfl
      exact if_pos hzero
    · have hsome : t.updateIdx ≠ 0 := by rw [hholds.updateIdx]; omega
      exact ⟨(hholds.entry i hi).1, t.urls, if_neg hsome, (hholds.entry i hi).2⟩

/-! ### Rendered lists -/

/-- **What a parser keeps of a rendered list**: of each entry that is to be kept the version
and the first word of the text, in the order of the list. -/
theorem readLines_map_line (splitFailed : String) (tables : List ListTable)
    (keep : RrcVersion → Bool) (entries : List ListEntry) (index : ℕ) :
    (readLines splitFailed tables keep (entries.map ListEntry.line) index).2 =
      .ok ((entries.filter fun entry => keep entry.version).map fun entry =>
        (entry.version, entry.firstWord)) := by
  induction entries generalizing index with
  | nil => rfl
  | cons entry entries ih =>
    have hline := readLine_line splitFailed entry
    rw [List.map_cons, readLines]
    cases hread : readLine splitFailed entry.line with
    | mk accesses result =>
      rw [hread] at hline
      obtain rfl : result = _ := hline
      dsimp only
      by_cases hkeep : keep entry.version = true
      · rw [if_pos hkeep,
          List.filter_cons_of_pos (p := fun entry : ListEntry => keep entry.version) hkeep]
        dsimp only
        rw [ih]
        rfl
      · rw [if_neg hkeep,
          List.filter_cons_of_neg (p := fun entry : ListEntry => keep entry.version) hkeep]
        exact ih index

/-- A rendered list of any allowed length is parsed to the entries that are kept, in their order,
whichever of the parsers of the source it is. -/
theorem trace_renderList (splitFailed tooMany : String) (tables : List ListTable)
    (keep : RrcVersion → Bool) (finalNewline : Bool) {entries : List ListEntry}
    (hlen : entries.length ≤ rrcSplitLim) :
    (traceEntriesOf splitFailed tooMany tables keep (renderList finalNewline entries)).2 =
      .ok ((entries.filter fun entry => keep entry.version).map fun entry =>
        (entry.version, entry.firstWord)) := by
  have hlines := fieldsOf_renderList finalNewline entries
  have hsplit : rrcVersionsfileSplitBy (renderList finalNewline entries) newline =
      (0, entries.map ListEntry.line) := by
    rw [rrcVersionsfileSplitBy_eq, hlines, List.length_map, if_pos hlen]
  rw [traceEntriesOf, hsplit]
  exact readLines_map_line splitFailed tables keep entries 0

/-- An update: its URL has no space. -/
structure UpdateEntry extends ListEntry where
  space_notMem : space ∉ text.bytes

/-- The numbers of a version, the most significant one first. -/
def RrcVersion.numbers (v : RrcVersion) : List ℤ := [v.major.val, v.minor.val, v.patch.val]

/-- The updates with a version that is lexicographically greater. -/
def newerUpdates (currentVersion : RrcVersion) (entries : List UpdateEntry) : List UpdateEntry :=
  entries.filter fun entry => currentVersion.numbers < entry.version.numbers

/-- `rrc_version_is_older` is the lexicographic order of the three numbers, as an order of the
library. -/
theorem rrcVersionIsOlder_iff_numbers (a b : RrcVersion) :
    rrcVersionIsOlder a b = true ↔ a.numbers < b.numbers := by
  rw [rrcVersionIsOlder_iff, RrcVersion.numbers, RrcVersion.numbers]
  simp only [List.cons_lt_cons_iff, List.not_lt_nil, and_false, or_false]

/-- **The updates that are selected** are those with a newer version, each with its own URL,
in the order of the list, and as many as are reported. -/
theorem update_selection (entries : List UpdateEntry) (hlen : entries.length ≤ rrcSplitLim)
    (finalNewline : Bool) (currentVersion : RrcVersion) :
    ∃ out, necessaryUrlsAndVersions
        (renderList finalNewline (entries.map UpdateEntry.toListEntry)) currentVersion = .ok out ∧
      out.uamt = (newerUpdates currentVersion entries).length ∧
      ∀ i (hi : i < (newerUpdates currentVersion entries).length),
        out.versions i = some (newerUpdates currentVersion entries)[i].version ∧
        ∃ urls, out.urls = some urls ∧
          urls i = some (newerUpdates currentVersion entries)[i].text := by
  have hkept : ((entries.map UpdateEntry.toListEntry).filter fun entry =>
      rrcVersionIsOlder currentVersion entry.version).map (fun entry =>
        (entry.version, entry.firstWord)) =
      (newerUpdates currentVersion entries).map fun entry => (entry.version, entry.text) := by
    rw [List.filter_map, List.map_map, newerUpdates]
    have hfilter : entries.filter ((fun entry : ListEntry =>
        rrcVersionIsOlder currentVersion entry.version) ∘ UpdateEntry.toListEntry) =
        entries.filter fun entry => currentVersion.numbers < entry.version.numbers := by
      refine List.filter_congr fun entry _ => ?_
      rw [Bool.eq_iff_iff, decide_eq_true_iff]
      exact rrcVersionIsOlder_iff_numbers _ _
    rw [hfilter]
    refine List.map_congr_left fun entry _ => ?_
    exact congrArg (Prod.mk entry.version) ((firstWord_eq_iff entry.toListEntry).mpr
      entry.space_notMem)
  have hlines : (entries.map UpdateEntry.toListEntry).length ≤ rrcSplitLim := by
    rwa [List.length_map]
  have htrace := trace_renderList "Failed to split versionfile"
    "Versionfile had more than 4096 entries" [.versions, .urls] (rrcVersionIsOlder currentVersion)
    finalNewline hlines
  rw [hkept] at htrace
  obtain ⟨out, hout, huamt, -, hentry⟩ := necessary_holds htrace
  refine ⟨out, hout, by rw [huamt, List.length_map], fun i hi => ?_⟩
  have hi' := hentry i (by rwa [List.length_map])
  simpa only [List.getElem_map] using hi'

/-- The versions 0.0.5 and 0.1.0. -/
def twoUpdates : List UpdateEntry :=
  [⟨⟨⟨0, 0, ⟨5, by decide⟩⟩, CStr.lit "a", by decide, by decide⟩, by decide⟩,
    ⟨⟨⟨0, ⟨1, by decide⟩, 0⟩, CStr.lit "b", by decide, by decide⟩, by decide⟩]

/-- One of two updates is newer than the version 0.0.5. -/
theorem update_selection_two :
    ∃ out, necessaryUrlsAndVersions (renderList false (twoUpdates.map UpdateEntry.toListEntry))
        ⟨0, 0, ⟨5, by decide⟩⟩ = .ok out ∧ out.uamt = 1 := by
  obtain ⟨out, hout, huamt, -⟩ :=
    update_selection twoUpdates (by decide) false ⟨0, 0, ⟨5, by decide⟩⟩
  exact ⟨out, hout, huamt.trans (by decide)⟩

end RrLauncher
