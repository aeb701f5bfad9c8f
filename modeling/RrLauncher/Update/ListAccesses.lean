/-
# What the parsers of the lists access

`versionsfile.c` again, with every index at which a field of a line is read and every
index at which a table is written.  Here the tables are as long as it takes, so a run
goes on behind their end; it ends where a field that is not there is read.
-/

import RrLauncher.Update.Versionsfile

namespace RrLauncher

open Stdio

/-- The tables: those of the fields, `*urls`, `*versions` and `*output`. -/
inductive ListTable
  | fields
  | urls
  | versions
  | output
  deriving DecidableEq

/-- The bytes that `malloc` is asked for. -/
def ListTable.bytes : ListTable → ℕ
  | .fields => rrcSplitLim
  | .urls => rrcSplitLim
  | .versions => rrcSplitLim * 12
  | .output => 16 * rrcSplitLim

/-- The bytes of an entry: a pointer has four, a version has three `int`s. -/
def ListTable.elementSize : ListTable → ℕ
  | .fields => 4
  | .urls => 4
  | .versions => 12
  | .output => 16

/-- How many entries a table has. -/
def ListTable.length (table : ListTable) : ℕ := table.bytes / table.elementSize

/-- An access: an entry of a table is written, or `parts[index]` is read where there are
`count` fields. -/
inductive ListAccess
  | store (table : ListTable) (index : ℕ)
  | field (index count : ℕ)
  deriving DecidableEq

/-- A field is read that is there. -/
def ListAccess.Present : ListAccess → Prop
  | .store _ _ => True
  | .field index count => index < count

/-- A field is read of a line that has two. -/
def ListAccess.Guarded : ListAccess → Prop
  | .store _ _ => True
  | .field _ count => 2 ≤ count

/-- A table is written where it has an entry. -/
def ListAccess.StoredInside : ListAccess → Prop
  | .store table index => index < table.length
  | .field _ _ => True

instance : DecidablePred ListAccess.StoredInside
  | .store table index => inferInstanceAs (Decidable (index < table.length))
  | .field _ _ => inferInstanceAs (Decidable True)

instance : DecidablePred ListAccess.Present
  | .store _ _ => inferInstanceAs (Decidable True)
  | .field index count => inferInstanceAs (Decidable (index < count))

/-- A store in a table is inside exactly if its index is below the length of the table. -/
@[simp] theorem stored_store {table : ListTable} {index : ℕ} :
    (ListAccess.store table index).StoredInside ↔ index < table.length := Iff.rfl

/-- The reading of a field stores nothing, so it asks for nothing here. -/
@[simp] theorem stored_field {index count : ℕ} :
    (ListAccess.field index count).StoredInside ↔ True := Iff.rfl

/-- A store reads no field, so it asks for nothing here. -/
@[simp] theorem present_store {table : ListTable} {index : ℕ} :
    (ListAccess.store table index).Present ↔ True := Iff.rfl

/-- A field that is read is present exactly if its index is below the number of fields of the line.
-/
@[simp] theorem present_field {index count : ℕ} :
    (ListAccess.field index count).Present ↔ index < count := Iff.rfl

/-- A store needs no count of the fields in front of it. -/
@[simp] theorem guarded_store {table : ListTable} {index : ℕ} :
    (ListAccess.store table index).Guarded ↔ True := Iff.rfl

/-- The reading of a field is guarded exactly if the line was found to have at least the two fields
that the format asks for. -/
@[simp] theorem guarded_field {index count : ℕ} :
    (ListAccess.field index count).Guarded ↔ 2 ≤ count := Iff.rfl

/-- The indices at which the loop of `rrc_versionsfile_split_by` stores. -/
def splitIndices (sep : UInt8) : List UInt8 → ℕ → List ℕ
  | [], _ => []
  | c :: rest, count =>
    if c = sep ∨ rest = [] then
      count :: if count + 1 > rrcSplitLim then [] else splitIndices sep rest (count + 1)
    else splitIndices sep rest count

/-- What `rrc_versionsfile_split_by` stores to: the entries of its table, one for each field. -/
def splitAccesses (s : CStr) (sep : UInt8) : List ListAccess :=
  (splitIndices sep s.bytes 0).map (.store .fields)

/-- What the body of the loop over the lines reads of the fields of a line. -/
def readParts (parts : List CStr) :
    List ListAccess × Except (Stop RrcResultError) (RrcVersion × CStr) :=
  match parts with
  | [] => ([.field 0 parts.length], .error .halt)
  | first :: more =>
    match rrcVersionFromString first with
    | .error e => ([.field 0 parts.length], .error (.error e))
    | .ok version =>
      match more with
      | [] => ([.field 0 parts.length, .field 1 parts.length], .error .halt)
      | second :: _ => ([.field 0 parts.length, .field 1 parts.length], .ok (version, second))

/-- The body of the loop over the lines, up to where the entry is stored. -/
def readLine (splitFailed : String) (line : CStr) :
    List ListAccess × Except (Stop RrcResultError) (RrcVersion × CStr) :=
  let split := rrcVersionsfileSplitBy line space
  if split.1 < 0 then
    (splitAccesses line space, .error (.error (rrcResultCreateErrorCorruptedVersionfile splitFailed)))
  else
    let (accesses, result) := readParts split.2
    (splitAccesses line space ++ accesses, result)

/-- The loop over the lines; `index` is where the next entry is stored. -/
def readLines (splitFailed : String) (tables : List ListTable) (keep : RrcVersion → Bool) :
    List CStr → ℕ → List ListAccess × Except (Stop RrcResultError) (List (RrcVersion × CStr))
  | [], _ => ([], .ok [])
  | line :: lines, index =>
    let (accesses, result) := readLine splitFailed line
    match result with
    | .error stop => (accesses, .error stop)
    | .ok entry =>
      if keep entry.1 then
        let (later, entries) := readLines splitFailed tables keep lines (index + 1)
        (accesses ++ (tables.map (.store · index) ++ later), entries.map (entry :: ·))
      else
        let (later, entries) := readLines splitFailed tables keep lines index
        (accesses ++ later, entries)

/-- `parseEntriesOf` with its accesses, in the order in which they are made. -/
def traceEntriesOf (splitFailed tooMany : String) (tables : List ListTable)
    (keep : RrcVersion → Bool) (file : CStr) :
    List ListAccess × Except (Stop RrcResultError) (List (RrcVersion × CStr)) :=
  let (res, lines) := rrcVersionsfileSplitBy file newline
  let split := splitAccesses file newline
  if res < 0 then
    (split, .error (.error (rrcResultCreateErrorCorruptedVersionfile splitFailed)))
  else if res = 2 then
    (split, .error (.error (rrcResultCreateErrorCorruptedVersionfile tooMany)))
  else
    let (accesses, result) := readLines splitFailed tables keep lines 0
    (split ++ accesses, result)

/-- `rrc_versionsfile_get_necessary_urls_and_versions` with its accesses to the tables and the
fields. -/
def traceNecessaryUrlsAndVersions (versionsfile : CStr) (currentVersion : RrcVersion) :
    List ListAccess × Except (Stop RrcResultError) (List (RrcVersion × CStr)) :=
  traceEntriesOf "Failed to split versionfile" "Versionfile had more than 4096 entries"
    [.versions, .urls] (rrcVersionIsOlder currentVersion) versionsfile

/-- `rrc_versionsfile_parse_deleted_files` with its accesses to the table and the fields. -/
def traceDeletedFiles (input : CStr) (currentVersion : RrcVersion) :
    List ListAccess × Except (Stop RrcResultError) (List (RrcVersion × CStr)) :=
  traceEntriesOf "Failed to split deleted versionfile" "Deleted versionfile had more than 4096 entries"
    [.output] (rrcVersionIsOlder currentVersion) input

/-- No table has fewer entries than the one that a split fills: that one has the same number of bytes
as the table of the URLs, and the other two have more of them for each larger entry. -/
theorem splitTableLength_le (table : ListTable) : splitTableLength ≤ table.length := by
  cases table <;> decide

/-! ### The lines that a parser gets to -/

/-- The line begins with a version. -/
def startsWithVersion (line : CStr) : Bool :=
  match fieldsOf line space with
  | [] => false
  | first :: _ => (rrcVersionFromString first).isOk

/-- The line has a version and a text. -/
def completeLine (line : CStr) : Bool :=
  startsWithVersion line && 2 ≤ Fields.fieldCount space line.bytes

/-- The lines up to the first one that is not complete. -/
def reachedLines : List CStr → List CStr
  | [] => []
  | line :: lines => line :: if completeLine line then reachedLines lines else []

/-- The lines of a list that its parser gets to. -/
def linesReached (file : CStr) : List CStr :=
  if Fields.fieldCount newline file.bytes ≤ rrcSplitLim then reachedLines (fieldsOf file newline)
  else []

/-- The fields of a string are as many as the separators in it say, where a separator at the very
end starts no field. -/
theorem length_fieldsOf (s : CStr) (sep : UInt8) :
    (fieldsOf s sep).length = Fields.fieldCount sep s.bytes := by
  rw [fieldsOf, List.length_map, Fields.length_fields]

/-- The code that a split returns: success if the fields are within its limit, and otherwise the two
of a string with too many. -/
theorem rrcVersionsfileSplitBy_fst (s : CStr) (sep : UInt8) :
    (rrcVersionsfileSplitBy s sep).1 =
      if Fields.fieldCount sep s.bytes ≤ rrcSplitLim then 0 else 2 := by
  rw [rrcVersionsfileSplitBy_eq, ← length_fieldsOf]
  split_ifs <;> rfl

/-- The fields that a split stores: all of them as long as they are within the limit, and one more
than the limit where they are not. -/
theorem rrcVersionsfileSplitBy_snd (s : CStr) (sep : UInt8) :
    (rrcVersionsfileSplitBy s sep).2 = (fieldsOf s sep).take (rrcSplitLim + 1) := by
  rw [rrcVersionsfileSplitBy_eq]
  split_ifs with hfew
  · rw [List.take_of_length_le (by omega)]
  · rfl

/-- The split never returns a negative code, so the tests of its callers for one are never met. -/
theorem rrcVersionsfileSplitBy_not_neg (s : CStr) (sep : UInt8) :
    ¬ (rrcVersionsfileSplitBy s sep).1 < 0 := by
  rw [rrcVersionsfileSplitBy_fst]
  split_ifs <;> omega

/-! ### What the split stores to -/

/-- The loop stores to one entry after the other, and to one more than it allows. -/
theorem splitIndices_eq (sep : UInt8) (s : List UInt8) {count : ℕ} (hcount : count ≤ rrcSplitLim) :
    splitIndices sep s count =
      List.range' count (min (Fields.fields sep s).length (rrcSplitLim + 1 - count)) := by
  induction s generalizing count with
  | nil => rfl
  | cons c rest ih =>
    rw [splitIndices]
    split_ifs with hend hmany
    · rw [show min (Fields.fields sep (c :: rest)).length (rrcSplitLim + 1 - count) = 0 + 1 by
        rw [Fields.length_fields_end hend]; omega]
      rfl
    · rw [ih (by omega), ← List.range'_succ]
      congr 1
      rw [Fields.length_fields_end hend]
      omega
    · rw [ih hcount, Fields.length_fields_char hend]

/-- The stores that a split makes are those at the indices of the fields which it comes to before it
gives up. -/
theorem mem_splitAccesses {s : CStr} {sep : UInt8} {access : ListAccess} :
    access ∈ splitAccesses s sep ↔
      ∃ index < min (Fields.fieldCount sep s.bytes) (rrcSplitLim + 1),
        access = .store .fields index := by
  unfold splitAccesses
  rw [splitIndices_eq sep s.bytes (Nat.zero_le _), Fields.length_fields, Nat.sub_zero]
  simp only [List.mem_map, List.mem_range'_1, Nat.zero_add, Nat.zero_le, true_and, eq_comm]

/-- The stores of the split are inside its table if and only if there are as many fields
as the table has entries, or fewer. -/
theorem splitAccesses_storedInside (s : CStr) (sep : UInt8) :
    (∀ access ∈ splitAccesses s sep, access.StoredInside) ↔
      Fields.fieldCount sep s.bytes ≤ splitTableLength := by
  have hlength : ListTable.fields.length = splitTableLength := rfl
  have hlim : splitTableLength < rrcSplitLim + 1 := by decide
  constructor
  · intro h
    by_contra hmany
    have hstore := h (.store .fields splitTableLength)
      (mem_splitAccesses.mpr ⟨splitTableLength, by omega, rfl⟩)
    rw [ListAccess.StoredInside, hlength] at hstore
    omega
  · intro h access haccess
    obtain ⟨index, hindex, rfl⟩ := mem_splitAccesses.mp haccess
    rw [ListAccess.StoredInside, hlength]
    omega

/-- The split reads no fields, it only stores them. -/
theorem splitAccesses_reads_nothing {P : ListAccess → Prop} (hP : ∀ table index, P (.store table index))
    (s : CStr) (sep : UInt8) : ∀ access ∈ splitAccesses s sep, P access := by
  intro access haccess
  obtain ⟨index, -, rfl⟩ := mem_splitAccesses.mp haccess
  exact hP _ _

/-! ### What a line accesses -/

/-- Reading one line of a list: the stores of the split at blanks, then what is read of the parts
that it stored, with the result of these. -/
theorem readLine_eq (splitFailed : String) (line : CStr) :
    readLine splitFailed line =
      (splitAccesses line space ++ (readParts ((fieldsOf line space).take (rrcSplitLim + 1))).1,
        (readParts ((fieldsOf line space).take (rrcSplitLim + 1))).2) := by
  unfold readLine
  rw [if_neg (rrcVersionsfileSplitBy_not_neg line space), rrcVersionsfileSplitBy_snd]

/-- What the body of the loop does with a line: without a field and with a version alone
the run ends, without a version there is an error, and a complete line gives an entry. -/
theorem readParts_cases (line : CStr) :
    let parts := (fieldsOf line space).take (rrcSplitLim + 1)
    (parts.length = 0 ∧ completeLine line = false ∧
      readParts parts = ([.field 0 parts.length], .error .halt)) ∨
    (0 < parts.length ∧ completeLine line = false ∧ ∃ context, readParts parts =
      ([.field 0 parts.length],
        .error (.error (rrcResultCreateErrorCorruptedVersionfile context)))) ∨
    (parts.length = 1 ∧ completeLine line = false ∧
      readParts parts = ([.field 0 parts.length, .field 1 parts.length], .error .halt)) ∨
    (2 ≤ parts.length ∧ completeLine line = true ∧ ∃ entry,
      readParts parts = ([.field 0 parts.length, .field 1 parts.length], .ok entry)) := by
  have hcount := length_fieldsOf line space
  unfold completeLine startsWithVersion
  cases hfields : fieldsOf line space with
  | nil => exact .inl ⟨rfl, rfl, rfl⟩
  | cons first more =>
    rw [hfields, List.length_cons] at hcount
    rw [List.take_succ_cons]
    unfold readParts
    dsimp only
    cases hversion : rrcVersionFromString first with
    | error e =>
      obtain ⟨context, rfl⟩ := rrcVersionFromString_error hversion
      exact .inr (.inl ⟨Nat.succ_pos _, rfl, context, rfl⟩)
    | ok version =>
      cases more with
      | nil =>
        rw [List.length_nil] at hcount
        exact .inr (.inr (.inl ⟨rfl, decide_eq_false (by omega), rfl⟩))
      | cons second others =>
        rw [List.length_cons] at hcount
        refine .inr (.inr (.inr ⟨?_, decide_eq_true (by omega), (version, second), rfl⟩))
        exact Nat.succ_le_succ (Nat.succ_pos _)

/-- An entry is what a complete line gives. Any other line gives an error. -/
theorem readLine_snd (splitFailed : String) (line : CStr) :
    ((∃ stop, (readLine splitFailed line).2 = .error stop) ∧ completeLine line = false) ∨
      ((∃ entry, (readLine splitFailed line).2 = .ok entry) ∧ completeLine line = true) := by
  rw [readLine_eq]
  obtain ⟨-, h, hread⟩ | ⟨-, h, context, hread⟩ | ⟨-, h, hread⟩ | ⟨-, h, entry, hread⟩ :=
    readParts_cases line
  · exact .inl ⟨⟨_, congrArg Prod.snd hread⟩, h⟩
  · exact .inl ⟨⟨_, congrArg Prod.snd hread⟩, h⟩
  · exact .inl ⟨⟨_, congrArg Prod.snd hread⟩, h⟩
  · exact .inr ⟨⟨entry, congrArg Prod.snd hread⟩, h⟩

/-- Where all lines give an entry, the parser gets to all of them. -/
theorem reachedLines_eq_self {splitFailed : String} {lines : List CStr}
    (h : ∀ line ∈ lines, ∃ entry, (readLine splitFailed line).2 = .ok entry) :
    reachedLines lines = lines := by
  induction lines with
  | nil => rfl
  | cons line lines ih =>
    rw [List.forall_mem_cons] at h
    obtain ⟨entry, hentry⟩ := h.1
    rcases readLine_snd splitFailed line with ⟨⟨stop, hstop⟩, -⟩ | ⟨-, hline⟩
    · rw [hentry] at hstop
      cases hstop
    · rw [reachedLines, if_pos hline, ih h.2]

/-- The fields of a line are read as they should be if and only if there are two. -/
theorem readLine_guarded (splitFailed : String) (line : CStr) :
    (∀ access ∈ (readLine splitFailed line).1, access.Guarded) ↔
      2 ≤ Fields.fieldCount space line.bytes := by
  have hlength : ((fieldsOf line space).take (rrcSplitLim + 1)).length =
      min (rrcSplitLim + 1) (Fields.fieldCount space line.bytes) := by
    rw [List.length_take, length_fieldsOf]
  have hlim : rrcSplitLim = 4096 := rfl
  rw [readLine_eq, List.forall_mem_append,
    and_iff_right (splitAccesses_reads_nothing (fun _ _ => trivial) line space)]
  have hcases := readParts_cases line
  generalize (fieldsOf line space).take (rrcSplitLim + 1) = parts at hlength hcases ⊢
  obtain ⟨hcount, -, hread⟩ | ⟨hcount, -, context, hread⟩ | ⟨hcount, -, hread⟩ |
    ⟨hcount, -, entry, hread⟩ := hcases
  all_goals
    rw [hread]
    simp
    omega

/-- A line writes inside the table of its fields if and only if it has few enough. -/
theorem readLine_storedInside (splitFailed : String) (line : CStr) :
    (∀ access ∈ (readLine splitFailed line).1, access.StoredInside) ↔
      Fields.fieldCount space line.bytes ≤ splitTableLength := by
  rw [readLine_eq, List.forall_mem_append, splitAccesses_storedInside, and_iff_left_iff_imp]
  intro _
  obtain ⟨-, -, hread⟩ | ⟨-, -, context, hread⟩ | ⟨-, -, hread⟩ | ⟨-, -, entry, hread⟩ :=
    readParts_cases line
  all_goals
    rw [hread]
    simp

/-- Every field that is read is there if and only if the run does not end at the line. -/
theorem readLine_present (splitFailed : String) (line : CStr) :
    (∀ access ∈ (readLine splitFailed line).1, access.Present) ↔
      (readLine splitFailed line).2 ≠ .error .halt := by
  rw [readLine_eq, List.forall_mem_append,
    and_iff_right (splitAccesses_reads_nothing (fun _ _ => trivial) line space)]
  have hcases := readParts_cases line
  generalize (fieldsOf line space).take (rrcSplitLim + 1) = parts at hcases ⊢
  obtain ⟨hcount, -, hread⟩ | ⟨hcount, -, context, hread⟩ | ⟨hcount, -, hread⟩ |
    ⟨hcount, -, entry, hread⟩ := hcases
  · simp [hread, hcount]
  · simp [hread, hcount]
  · simp [hread, hcount]
  · simp only [hread, List.forall_mem_cons, present_field]
    exact ⟨fun _ => nofun, fun _ => ⟨by omega, by omega, by simp⟩⟩

/-! ### What a run accesses -/

/-- What holds of the entries that the tables are to have holds of all accesses of a run if
and only if it holds of those of the lines that it gets to. -/
theorem readLines_forall {P : ListAccess → Prop} {tables : List ListTable} {room : ℕ}
    (htables : ∀ table ∈ tables, ∀ index < room, P (.store table index)) (splitFailed : String)
    (keep : RrcVersion → Bool) (lines : List CStr) {index : ℕ}
    (hroom : index + lines.length ≤ room) :
    (∀ access ∈ (readLines splitFailed tables keep lines index).1, P access) ↔
      ∀ line ∈ reachedLines lines, ∀ access ∈ (readLine splitFailed line).1, P access := by
  induction lines generalizing index with
  | nil => simp [readLines, reachedLines]
  | cons line lines ih =>
    rw [List.length_cons] at hroom
    rw [reachedLines, List.forall_mem_cons, readLines]
    rcases readLine_snd splitFailed line with ⟨⟨stop, hread⟩, hline⟩ | ⟨⟨entry, hread⟩, hline⟩
    · simp [hread, hline]
    · have hstores : ∀ access ∈ tables.map (ListAccess.store · index), P access := by
        intro access haccess
        obtain ⟨table, htable, rfl⟩ := List.mem_map.mp haccess
        exact htables table htable index (by omega)
      simp only [hread, hline, if_true]
      split_ifs
      · rw [List.forall_mem_append, List.forall_mem_append, and_iff_right hstores,
          ih (by omega)]
      · rw [List.forall_mem_append, ih (by omega)]

/-- The same for a whole parser, which splits the list first. -/
theorem traceEntriesOf_forall {P : ListAccess → Prop} {tables : List ListTable} {file : CStr}
    (htables : (∀ access ∈ splitAccesses file newline, P access) → ∀ table ∈ tables,
      ∀ index < Fields.fieldCount newline file.bytes, P (.store table index))
    (splitFailed tooMany : String) (keep : RrcVersion → Bool) :
    (∀ access ∈ (traceEntriesOf splitFailed tooMany tables keep file).1, P access) ↔
      (∀ access ∈ splitAccesses file newline, P access) ∧
        ∀ line ∈ linesReached file, ∀ access ∈ (readLine splitFailed line).1, P access := by
  unfold traceEntriesOf linesReached
  have hfst := rrcVersionsfileSplitBy_fst file newline
  have hlength := length_fieldsOf file newline
  simp only [rrcVersionsfileSplitBy_not_neg, if_false]
  split_ifs at hfst ⊢ with htwo hfew hfew
  · omega
  · simp
  · rw [List.forall_mem_append, rrcVersionsfileSplitBy_snd, List.take_of_length_le (by omega)]
    refine and_congr_right fun hsplit => ?_
    exact readLines_forall (htables hsplit) splitFailed keep _ (by omega)
  · omega

end RrLauncher
