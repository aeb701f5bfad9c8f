/-
# The lists of the server

`versionsfile.c`: the list of the updates and the list of the files that they
remove are parsed alike.  Each line is a version and a text, and the entries that
are newer than the installed version are kept, in the order of the file
(`parseEntriesOf_eq_filter`).

`rrc_versionsfile_split_by` stores its fields in a table of `_RRC_SPLIT_LIM` bytes,
and the parsers read two fields of every line.  A store behind the table and a
field that is not there are undefined in C; such a run ends.
-/

import RrLauncher.Lib.Fields
import RrLauncher.Update.Versionutils

namespace RrLauncher

open Stdio

/-- `_RRC_SPLIT_LIM`. -/
def rrcSplitLim : ℕ := 4096

/-- How many pointers of four bytes the table of `_RRC_SPLIT_LIM` bytes holds. -/
def splitTableLength : ℕ := rrcSplitLim / 4

/-- The loop of `rrc_versionsfile_split_by`: the characters left, those of the field
that was begun, and the fields so far. -/
def splitLoop (sep : UInt8) : List UInt8 → List UInt8 → List CStr → ℤ × List CStr
  | [], _, fields => (0, fields)
  | c :: rest, current, fields =>
    if c = sep ∨ rest = [] then
      let current := if rest = [] ∧ c ≠ sep then current ++ [c] else current
      let fields := fields ++ [CStr.ofBuffer current]
      if fields.length > rrcSplitLim then (2, fields) else splitLoop sep rest [] fields
    else splitLoop sep rest (current ++ [c]) fields

/-- `rrc_versionsfile_split_by`, with a table as long as it takes: what it returns, and
the fields. -/
def rrcVersionsfileSplitBy (s : CStr) (sep : UInt8) : ℤ × List CStr := splitLoop sep s.bytes [] []

/-- `rrc_versionsfile_split_by` with the table that it has. -/
def splitIntoTable (s : CStr) (sep : UInt8) : Except (Stop RrcResultError) (ℤ × List CStr) :=
  let (res, fields) := rrcVersionsfileSplitBy s sep
  if fields.length > splitTableLength then .error .halt else .ok (res, fields)

/-- `'\n'`. -/
def newline : UInt8 := 10

/-- `' '`. -/
def space : UInt8 := 32

/-- The loop over the lines that both parsers have. -/
def parseLines (splitFailed : String) (keep : RrcVersion → Bool) :
    List CStr → Except (Stop RrcResultError) (List (RrcVersion × CStr))
  | [] => return []
  | line :: lines => do
    let (res, parts) ← splitIntoTable line space
    if res < 0 then
      throw (.error (rrcResultCreateErrorCorruptedVersionfile splitFailed))
    else
      match parts with
      | [] => throw .halt -- `parts[0]`
      | first :: more =>
        match rrcVersionFromString first with
        | .error e => throw (.error e)
        | .ok version =>
          match more with
          | [] => throw .halt -- `parts[1]`
          | second :: _ =>
            let entries ← parseLines splitFailed keep lines
            return if keep version then (version, second) :: entries else entries

/-- What both parsers do, with their messages. -/
def parseEntriesOf (splitFailed tooMany : String) (keep : RrcVersion → Bool) (file : CStr) :
    Except (Stop RrcResultError) (List (RrcVersion × CStr)) := do
  let (res, lines) ← splitIntoTable file newline
  if res < 0 then throw (.error (rrcResultCreateErrorCorruptedVersionfile splitFailed))
  else if res = 2 then throw (.error (rrcResultCreateErrorCorruptedVersionfile tooMany))
  else parseLines splitFailed keep lines

/-- `rrc_versionsfile_get_necessary_urls_and_versions`: the updates, each with its
version and its URL. -/
def rrcVersionsfileGetNecessaryUrlsAndVersions (versionsfile : CStr) (currentVersion : RrcVersion) :
    Except (Stop RrcResultError) (List (RrcVersion × CStr)) :=
  parseEntriesOf "Failed to split versionfile" "Versionfile had more than 4096 entries"
    (rrcVersionIsOlder currentVersion) versionsfile

/-- `rrc_versionsfile_parse_deleted_files`: the deleted files, each with its version and
its path. -/
def rrcVersionsfileParseDeletedFiles (input : CStr) (currentVersion : RrcVersion) :
    Except (Stop RrcResultError) (List (RrcVersion × CStr)) :=
  parseEntriesOf "Failed to split deleted versionfile" "Deleted versionfile had more than 4096 entries"
    (rrcVersionIsOlder currentVersion) input

/-! ### The fields of a string -/

/-- The fields of a string. -/
def fieldsOf (s : CStr) (sep : UInt8) : List CStr :=
  (Fields.fields sep s.bytes).map CStr.ofBuffer

/-- The loop stores the fields from the one that was begun on, as long as there are not
too many. -/
theorem splitLoop_eq (sep : UInt8) (s current : List UInt8) {stored : List CStr}
    (hstored : stored.length ≤ rrcSplitLim) :
    let fs := (Fields.fieldsAfter sep current s).map CStr.ofBuffer
    splitLoop sep s current stored =
      if stored.length + fs.length ≤ rrcSplitLim then (0, stored ++ fs)
      else (2, (stored ++ fs).take (rrcSplitLim + 1)) := by
  induction s generalizing current stored with
  | nil =>
    intro fs
    rw [splitLoop, if_pos (by simpa [fs] using hstored)]
    simp [fs]
  | cons c rest ih =>
    intro fs
    rw [splitLoop]
    by_cases hend : c = sep ∨ rest = []
    · have hfs : fs = CStr.ofBuffer (if rest = [] ∧ c ≠ sep then current ++ [c] else current) ::
          (Fields.fields sep rest).map CStr.ofBuffer := by
        unfold fs
        by_cases hc : c = sep
        · rw [hc, Fields.fieldsAfter_sep, if_neg fun h => h.2 rfl, List.map_cons]
        · obtain rfl := hend.resolve_left hc
          rw [Fields.fieldsAfter_last hc, if_pos ⟨rfl, hc⟩]
          rfl
      rw [if_pos hend, hfs]
      dsimp only
      generalize CStr.ofBuffer (if rest = [] ∧ c ≠ sep then current ++ [c] else current) = field
      rw [List.append_cons stored field ((Fields.fields sep rest).map CStr.ofBuffer),
        List.length_cons]
      have hlen : (stored ++ [field]).length = stored.length + 1 := by simp
      split_ifs with hmany hfew hfew
      · omega
      · rw [List.take_left' (by omega)]
      · rw [ih [] (by omega), Fields.fieldsAfter_nil_left, if_pos (by omega)]
      · rw [ih [] (by omega), Fields.fieldsAfter_nil_left, if_neg (by omega)]
    · rw [not_or] at hend
      rw [if_neg (not_or.mpr hend), ih (current ++ [c]) hstored,
        ← Fields.fieldsAfter_char hend.1 current hend.2]

/-- **What `rrc_versionsfile_split_by` stores** are the fields, or the first 4097 of them
if there are more than it allows. -/
theorem rrcVersionsfileSplitBy_eq (s : CStr) (sep : UInt8) :
    rrcVersionsfileSplitBy s sep =
      if (fieldsOf s sep).length ≤ rrcSplitLim then (0, fieldsOf s sep)
      else (2, (fieldsOf s sep).take (rrcSplitLim + 1)) := by
  unfold rrcVersionsfileSplitBy
  rw [splitLoop_eq sep s.bytes [] (Nat.zero_le _), Fields.fieldsAfter_nil_left, List.length_nil,
    Nat.zero_add, List.nil_append]
  rfl

/-- The fields of a string, on the bytes, are those of the general library. -/
theorem fieldsOf_bytes (s : CStr) (sep : UInt8) :
    (fieldsOf s sep).map CStr.bytes = Fields.fields sep s.bytes := by
  rw [fieldsOf, List.map_map]
  refine (List.map_congr_left fun field hfield => ?_).trans (List.map_id _)
  refine List.takeWhile_eq_self_iff.mpr fun c hc => ?_
  have hmem := (Fields.mem_of_mem_fields hfield hc).1
  rw [decide_eq_true_iff]
  rintro rfl
  exact s.noNul hmem

/-- A string without the separator that it may end with. -/
def withoutTrailing (sep : UInt8) (s : List UInt8) : List UInt8 :=
  if s.getLast? = some sep then s.dropLast else s

/-- **Splitting and joining** gives the string back, without the separator that it may end with:
there are as many fields as the separators say, none of them has one, and up to 4096 are all
stored; of more the first 4097 are, and 2 is returned. -/
theorem split_join (s : CStr) (sep : UInt8) :
    ∃ fields : List CStr,
      fields.length = Fields.fieldCount sep s.bytes ∧
      (∀ field ∈ fields, sep ∉ field.bytes) ∧
      [sep].intercalate (fields.map CStr.bytes) = withoutTrailing sep s.bytes ∧
      (s.bytes = [] → fields = []) ∧
      (fields.length ≤ rrcSplitLim → rrcVersionsfileSplitBy s sep = (0, fields)) ∧
      (rrcSplitLim < fields.length →
        rrcVersionsfileSplitBy s sep = (2, fields.take (rrcSplitLim + 1)) ∧
          (fields.take (rrcSplitLim + 1)).length = 4097) := by
  have hbytes := fieldsOf_bytes s sep
  refine ⟨fieldsOf s sep, ?_, fun field hfield hsep => ?_, ?_, fun hempty => ?_, fun hfew => ?_,
    fun hmany => ⟨?_, ?_⟩⟩
  · rw [← Fields.length_fields, ← hbytes, List.length_map]
  · have hmem : field.bytes ∈ Fields.fields sep s.bytes :=
      hbytes ▸ List.mem_map_of_mem (f := CStr.bytes) hfield
    exact (Fields.mem_of_mem_fields hmem hsep).2 rfl
  · rw [hbytes]
    exact Fields.intercalate_fields sep s.bytes
  · rw [fieldsOf, hempty]
    rfl
  · rw [rrcVersionsfileSplitBy_eq, if_pos hfew]
  · rw [rrcVersionsfileSplitBy_eq, if_neg (Nat.not_le.mpr hmany)]
  · rw [List.length_take]
    exact Nat.min_eq_left hmany

example : rrcVersionsfileSplitBy (CStr.lit ",a,,b,") 44 =
    (0, [CStr.lit "", CStr.lit "a", CStr.lit "", CStr.lit "b"]) := by decide

/-! ### The entries of a list -/

/-- The entries of the versions file, newer or not. -/
def versionsfileEntries (versionsfile : CStr) :
    Except (Stop RrcResultError) (List (RrcVersion × CStr)) :=
  parseEntriesOf "Failed to split versionfile" "Versionfile had more than 4096 entries"
    (fun _ => true) versionsfile

/-- The entries of the list of deleted files, newer or not. -/
def deletedFilesEntries (input : CStr) : Except (Stop RrcResultError) (List (RrcVersion × CStr)) :=
  parseEntriesOf "Failed to split deleted versionfile" "Deleted versionfile had more than 4096 entries"
    (fun _ => true) input

/-- Keeping some entries while the lines are parsed is keeping them afterwards. An error in a line
is one either way, also where the entry would not be kept. -/
theorem parseLines_eq_filter (splitFailed : String) (keep : RrcVersion → Bool) (lines : List CStr) :
    parseLines splitFailed keep lines =
      (parseLines splitFailed (fun _ => true) lines).map (List.filter fun entry => keep entry.1) := by
  induction lines with
  | nil => rfl
  | cons line lines ih =>
    rw [parseLines, parseLines]
    cases splitIntoTable line space with
    | error stop => rfl
    | ok r =>
      obtain ⟨res, parts⟩ := r
      simp only [bind, Except.bind]
      split
      · rfl
      cases parts with
      | nil => rfl
      | cons first more =>
        simp only
        cases rrcVersionFromString first with
        | error e => rfl
        | ok version =>
          cases more with
          | nil => rfl
          | cons second others =>
            simp only [ih]
            cases parseLines splitFailed (fun _ => true) lines with
            | error stop => rfl
            | ok entries =>
              simp only [Except.map, pure, Except.pure, if_true, List.filter_cons]

/-- **The parsers keep the entries that are to be kept**, and whether they succeed has
nothing to do with which those are. -/
theorem parseEntriesOf_eq_filter (splitFailed tooMany : String) (keep : RrcVersion → Bool)
    (file : CStr) :
    parseEntriesOf splitFailed tooMany keep file =
      (parseEntriesOf splitFailed tooMany (fun _ => true) file).map
        (List.filter fun entry => keep entry.1) := by
  rw [parseEntriesOf, parseEntriesOf]
  cases splitIntoTable file newline with
  | error stop => rfl
  | ok r =>
    obtain ⟨res, lines⟩ := r
    simp only [bind, Except.bind]
    split
    · rfl
    split
    · rfl
    · exact parseLines_eq_filter splitFailed keep lines

/-- The updates are the newer entries of the versions file. -/
theorem getNecessary_eq_filter (versionsfile : CStr) (currentVersion : RrcVersion) :
    rrcVersionsfileGetNecessaryUrlsAndVersions versionsfile currentVersion =
      (versionsfileEntries versionsfile).map
        (List.filter fun entry => rrcVersionIsOlder currentVersion entry.1) :=
  parseEntriesOf_eq_filter _ _ _ _

/-- The deleted files are the newer entries of their list. -/
theorem parseDeletedFiles_eq_filter (input : CStr) (currentVersion : RrcVersion) :
    rrcVersionsfileParseDeletedFiles input currentVersion =
      (deletedFilesEntries input).map
        (List.filter fun entry => rrcVersionIsOlder currentVersion entry.1) :=
  parseEntriesOf_eq_filter _ _ _ _

end RrLauncher
