/-
# The list of deleted files

A line of the list is a version and a path, and the parser takes a path for a field: it
ends at its first space.  So a path with a space in it is cut, and an update removes
another file, or none; and the tables of the parser have 1024 entries, for a list of up
to 4096 lines.  On all other lists what comes back are the entries that are newer than
the installed version (`deleted_list_iff`).
-/

import RrLauncher.Update.Selection
import RrLauncher.Update.UpdateRun

namespace RrLauncher

open Stdio

/-- The deleted files of the versions behind the current one. -/
def newerDeletedFiles (currentVersion : RrcVersion) (entries : List ListEntry) :
    List (RrcVersion × CStr) :=
  (entries.filter fun entry => currentVersion.numbers < entry.version.numbers).map ListEntry.pair

/-- The paths that a list has for a version. -/
def listedPaths (entries : List ListEntry) (version : RrcVersion) : List CStr :=
  (entries.filter (·.version = version)).map (·.text)

/-- The parser returns the newer entries of a list, each with its path, so the update to each
newer version removes the files that are listed for it. -/
structure RemovesListed (list : CStr) (currentVersion : RrcVersion) (entries : List ListEntry) :
    Prop where
  parsed : rrcVersionsfileParseDeletedFiles list currentVersion =
    .ok (newerDeletedFiles currentVersion entries)
  removed : ∀ deletedFiles,
    rrcVersionsfileParseDeletedFiles list currentVersion = .ok deletedFiles →
      ∀ version : RrcVersion, currentVersion.numbers < version.numbers →
        deletedPaths deletedFiles version = listedPaths entries version

/-- What is removed for a newer version are the paths that are listed for it. -/
theorem deletedPaths_newerDeletedFiles {currentVersion version : RrcVersion}
    (h : currentVersion.numbers < version.numbers) (entries : List ListEntry) :
    deletedPaths (newerDeletedFiles currentVersion entries) version =
      listedPaths entries version := by
  let newer : ListEntry → Bool := fun entry => currentVersion.numbers < entry.version.numbers
  let same : ListEntry → Bool := fun entry => entry.version = version
  rw [deletedPaths, newerDeletedFiles, listedPaths, List.filterMap_map]
  induction entries with
  | nil => rfl
  | cons entry entries ih =>
    by_cases hversion : entry.version = version
    · have hnewer : currentVersion.numbers < entry.version.numbers := hversion ▸ h
      have hequals : rrcVersionEquals entry.version version = true :=
        (rrcVersionEquals_iff _ _).mpr hversion
      rw [List.filter_cons_of_pos (p := newer) (decide_eq_true hnewer),
        List.filter_cons_of_pos (p := same) (decide_eq_true hversion), List.map_cons, ← ih]
      exact List.filterMap_cons_some (if_pos hequals)
    · have hequals : ¬ rrcVersionEquals entry.version version = true := fun heq =>
        hversion ((rrcVersionEquals_iff _ _).mp heq)
      rw [List.filter_cons_of_neg (p := same) (by simpa [same] using hversion)]
      by_cases hnewer : currentVersion.numbers < entry.version.numbers
      · rw [List.filter_cons_of_pos (p := newer) (decide_eq_true hnewer), ← ih]
        exact List.filterMap_cons_none (if_neg hequals)
      · rw [List.filter_cons_of_neg (p := newer) (by simpa [newer] using hnewer)]
        exact ih

/-! ### What the parser returns -/

/-- The parser gets to all lines of a rendered list that it splits. -/
theorem linesReached_renderList (finalNewline : Bool) {entries : List ListEntry}
    (hlen : entries.length ≤ rrcSplitLim) :
    linesReached (renderList finalNewline entries) = entries.map ListEntry.line := by
  have hlines := fieldsOf_renderList finalNewline entries
  have hread : ∀ line ∈ entries.map ListEntry.line, ∃ entry, (readLine "" line).2 = .ok entry :=
    List.forall_mem_map.mpr fun entry _ => ⟨_, readLine_line "" entry⟩
  rw [linesReached, ← length_fieldsOf, hlines, List.length_map, if_pos hlen,
    reachedLines_eq_self hread]

/-- **A rendered list fits the tables** for the lines and for the fields of a line if and only if it
has few enough lines, and each of them few enough words behind its version. -/
theorem allInside_renderList (splitFailed tooMany : String) (keep : RrcVersion → Bool)
    (finalNewline : Bool) (entries : List ListEntry) :
    AllInside (traceEntriesOf splitFailed tooMany [] keep (renderList finalNewline entries)).1 ↔
      entries.length ≤ splitTableLength ∧
        ∀ entry ∈ entries, Fields.fieldCount space entry.text.bytes < splitTableLength := by
  have hlim : splitTableLength ≤ rrcSplitLim := by decide
  have hcount : Fields.fieldCount newline (renderList finalNewline entries).bytes = entries.length := by
    rw [← length_fieldsOf, fieldsOf_renderList, List.length_map]
  rw [AllInside, traceEntriesOf_forall fun _ table htable => absurd htable List.not_mem_nil]
  change AllInside _ ∧ (∀ line ∈ _, AllInside _) ↔ _
  rw [splitAccesses_allInside, hcount]
  refine and_congr_right fun hfew => ?_
  rw [linesReached_renderList finalNewline (hfew.trans hlim), List.forall_mem_map]
  refine forall₂_congr fun entry _ => ?_
  rw [readLine_allInside, readLine_line, fieldCount_line]
  exact and_iff_left fun h => by cases h

/-- **What the parser returns** for a list: the newer entries, with the first word of each
path, unless there are too many lines or words for its tables. -/
theorem parseDeletedFiles_renderList (finalNewline : Bool) (entries : List ListEntry)
    (currentVersion : RrcVersion) :
    rrcVersionsfileParseDeletedFiles (renderList finalNewline entries) currentVersion =
      if entries.length ≤ splitTableLength ∧
          ∀ entry ∈ entries, Fields.fieldCount space entry.text.bytes < splitTableLength then
        .ok ((entries.filter fun entry => currentVersion.numbers < entry.version.numbers).map
          fun entry => (entry.version, entry.firstWord))
      else .error .halt := by
  have hlim : splitTableLength ≤ rrcSplitLim := by decide
  have hfilter : (entries.filter fun entry => rrcVersionIsOlder currentVersion entry.version) =
      entries.filter fun entry => currentVersion.numbers < entry.version.numbers := by
    refine List.filter_congr fun entry _ => ?_
    rw [Bool.eq_iff_iff, decide_eq_true_iff]
    exact rrcVersionIsOlder_iff_numbers _ _
  obtain ⟨hinside, houtside⟩ := parseEntriesOf_eq_trace "Failed to split deleted versionfile"
    "Deleted versionfile had more than 4096 entries" [] (rrcVersionIsOlder currentVersion)
    (renderList finalNewline entries)
  rw [allInside_renderList] at hinside houtside
  rw [rrcVersionsfileParseDeletedFiles]
  split_ifs with hfits
  · rw [hinside hfits, trace_renderList _ _ _ _ _ (hfits.1.trans hlim), hfilter]
  · exact houtside hfits

/-- **The list comes back as it was written** exactly if it has at most 1024 lines of at most
1024 words and no path of a newer version has a space. -/
theorem deleted_list_iff (finalNewline : Bool) (entries : List ListEntry)
    (currentVersion : RrcVersion) :
    RemovesListed (renderList finalNewline entries) currentVersion entries ↔
      (entries.length ≤ splitTableLength ∧
        ∀ entry ∈ entries, Fields.fieldCount space entry.text.bytes < splitTableLength) ∧
      ∀ entry ∈ entries, currentVersion.numbers < entry.version.numbers →
        space ∉ entry.text.bytes := by
  have hreturned := parseDeletedFiles_renderList finalNewline entries currentVersion
  -- the paths are whole exactly if none has a space
  have hwhole : (entries.filter fun entry => currentVersion.numbers < entry.version.numbers).map
        (fun entry => (entry.version, entry.firstWord)) =
      newerDeletedFiles currentVersion entries ↔
      ∀ entry ∈ entries, currentVersion.numbers < entry.version.numbers →
        space ∉ entry.text.bytes := by
    rw [newerDeletedFiles, List.map_inj_left]
    simp only [List.mem_filter, decide_eq_true_eq, and_imp]
    refine forall_congr' fun entry => forall_congr' fun _ => forall_congr' fun _ => ?_
    rw [ListEntry.pair, Prod.mk.injEq, and_iff_right rfl, firstWord_eq_iff]
  constructor
  · intro h
    have hparsed := h.parsed
    rw [hreturned] at hparsed
    split_ifs at hparsed with hfew
    exact ⟨hfew, hwhole.mp (Except.ok.inj hparsed)⟩
  · rintro ⟨hfew, hspace⟩
    rw [if_pos hfew, hwhole.mpr hspace] at hreturned
    refine ⟨hreturned, fun deletedFiles hdeleted version hversion => ?_⟩
    obtain rfl := Except.ok.inj (hreturned.symm.trans hdeleted)
    exact deletedPaths_newerDeletedFiles hversion entries

/-- A list with one file. -/
def oneDeletedFile (version : RrcVersion) (path : CStr) (hne : path.bytes ≠ [])
    (hline : newline ∉ path.bytes) : List ListEntry :=
  [⟨version, path, hne, hline⟩]

/-- A path with a space is cut there, so another file is removed than the list names. -/
theorem deleted_list_cut :
    ¬ ∀ (entries : List ListEntry), entries.length ≤ rrcSplitLim → ∀ finalNewline currentVersion,
      RemovesListed (renderList finalNewline entries) currentVersion entries := by
  intro h
  have hlisted := h (oneDeletedFile ⟨0, 0, ⟨1, by decide⟩⟩ (CStr.lit "a b.szs") (by decide)
    (by decide)) (by decide) true ⟨0, 0, 0⟩
  have hparsed := hlisted.parsed
  rw [parseDeletedFiles_renderList, if_pos (by decide)] at hparsed
  exact absurd (Except.ok.inj hparsed) (by decide)

end RrLauncher
