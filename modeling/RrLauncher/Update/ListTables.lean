/-
# What the parsers of the lists access outside

A run of the parsers with their tables is a run of the parsers that goes on behind the
end of the tables, unless one of its accesses is outside (`parseEntriesOf_eq_trace`).  A
line with fewer than two fields has one that is read and is not there
(`list_fields_guarded_iff`), and a table of pointers is as long as a fourth of the limit
that is checked (`list_stores_inside_iff`).
-/

import RrLauncher.Update.ListAccesses

namespace RrLauncher

open Stdio

/-! ### The model with its tables -/

/-- The loop of the model, one line at a time. -/
theorem parseLines_cons (splitFailed : String) (keep : RrcVersion → Bool) (line : CStr)
    (lines : List CStr) :
    parseLines splitFailed keep (line :: lines) =
      if splitTableLength < Fields.fieldCount space line.bytes then .error .halt
      else do
        let entry ← (readLine splitFailed line).2
        let entries ← parseLines splitFailed keep lines
        return if keep entry.1 then entry :: entries else entries := by
  have hlength := length_fieldsOf line space
  have hlim : splitTableLength < rrcSplitLim + 1 := by decide
  have hsplit : rrcVersionsfileSplitBy line space =
      ((rrcVersionsfileSplitBy line space).1, (fieldsOf line space).take (rrcSplitLim + 1)) :=
    Prod.ext rfl (rrcVersionsfileSplitBy_snd line space)
  have hneg := rrcVersionsfileSplitBy_not_neg line space
  rw [parseLines, splitIntoTable, readLine_eq, hsplit]
  generalize (rrcVersionsfileSplitBy line space).1 = res at hneg
  dsimp only
  rw [List.length_take, hlength]
  split_ifs with hmany hmore hmore
  · rfl
  · omega
  · omega
  · rw [List.take_of_length_le (by omega)]
    simp only [bind, Except.bind, hneg, if_false]
    unfold readParts
    cases fieldsOf line space with
    | nil => rfl
    | cons first more =>
      dsimp only
      cases rrcVersionFromString first with
      | error e => rfl
      | ok version =>
        cases more with
        | nil => rfl
        | cons second others => rfl

/-- Every access of a run is inside. -/
def AllInside (accesses : List ListAccess) : Prop :=
  ∀ access ∈ accesses, access.StoredInside ∧ access.Present

instance (accesses : List ListAccess) : Decidable (AllInside accesses) :=
  inferInstanceAs (Decidable (∀ access ∈ accesses, _))

/-- Two lists of accesses are all inside if and only if those of each list are. -/
theorem allInside_append {as bs : List ListAccess} :
    AllInside (as ++ bs) ↔ AllInside as ∧ AllInside bs :=
  List.forall_mem_append

/-- The accesses of a line are inside if and only if there are few enough fields and the
run does not end there. -/
theorem readLine_allInside (splitFailed : String) (line : CStr) :
    AllInside (readLine splitFailed line).1 ↔
      Fields.fieldCount space line.bytes ≤ splitTableLength ∧
        (readLine splitFailed line).2 ≠ .error .halt := by
  rw [← readLine_storedInside splitFailed, ← readLine_present]
  exact ⟨fun h => ⟨fun a ha => (h a ha).1, fun a ha => (h a ha).2⟩,
    fun h a ha => ⟨h.1 a ha, h.2 a ha⟩⟩

/-- The loop of the model reads what the loop without ends of the tables reads, or ends. -/
theorem parseLines_eq_trace (splitFailed : String) (tables : List ListTable)
    (keep : RrcVersion → Bool) (lines : List CStr) {index : ℕ}
    (hroom : index + lines.length ≤ splitTableLength) :
    let run := readLines splitFailed tables keep lines index
    (AllInside run.1 → parseLines splitFailed keep lines = run.2) ∧
      (¬ AllInside run.1 → parseLines splitFailed keep lines = .error .halt) := by
  induction lines generalizing index with
  | nil => exact ⟨fun _ => rfl, fun h => absurd (by simp [readLines, AllInside]) h⟩
  | cons line lines ih =>
    rw [List.length_cons] at hroom
    have hline := readLine_allInside splitFailed line
    rw [parseLines_cons, readLines]
    cases hread : readLine splitFailed line with
    | mk accesses result =>
      rw [hread] at hline
      dsimp only at hline ⊢
      rw [← not_lt] at hline
      by_cases hmany : splitTableLength < Fields.fieldCount space line.bytes
      · have houtside : ¬ AllInside accesses := fun h => (hline.mp h).1 hmany
        rw [if_pos hmany]
        refine ⟨fun h => absurd ?_ houtside, fun _ => rfl⟩
        cases result with
        | error stop => exact h
        | ok entry =>
          dsimp only at h
          split_ifs at h
          · exact (allInside_append.mp h).1
          · exact (allInside_append.mp h).1
      rw [if_neg hmany]
      cases result with
      | error stop =>
        refine ⟨fun _ => rfl, fun h => ?_⟩
        by_contra hstop
        exact h (hline.mpr ⟨hmany, fun hhalt => hstop (by rw [hhalt]; rfl)⟩)
      | ok entry =>
        have haccesses : AllInside accesses := hline.mpr ⟨hmany, fun h => by cases h⟩
        have hstores : AllInside (tables.map (ListAccess.store · index)) := by
          intro access haccess
          obtain ⟨table, -, rfl⟩ := List.mem_map.mp haccess
          have hlength := splitTableLength_le table
          exact ⟨by rw [stored_store]; omega, trivial⟩
        dsimp only [bind, Except.bind]
        split_ifs with hkeep
        · obtain ⟨hinside, houtside⟩ := @ih (index + 1) (by omega)
          rw [allInside_append, allInside_append, and_iff_right haccesses, and_iff_right hstores]
          refine ⟨fun h => ?_, fun h => ?_⟩
          · rw [hinside h]
            cases (readLines splitFailed tables keep lines (index + 1)).2 <;> rfl
          · rw [houtside h]
        · obtain ⟨hinside, houtside⟩ := @ih index (by omega)
          rw [allInside_append, and_iff_right haccesses]
          refine ⟨fun h => ?_, fun h => ?_⟩
          · rw [hinside h]
            cases (readLines splitFailed tables keep lines index).2 <;> rfl
          · rw [houtside h]

/-- Splitting writes inside the table of the parts if and only if there are few enough of them, and
reads none of them. -/
theorem splitAccesses_allInside (s : CStr) (sep : UInt8) :
    AllInside (splitAccesses s sep) ↔ Fields.fieldCount sep s.bytes ≤ splitTableLength := by
  rw [← splitAccesses_storedInside]
  refine ⟨fun h access haccess => (h access haccess).1, fun h access haccess =>
    ⟨h access haccess, ?_⟩⟩
  exact splitAccesses_reads_nothing (P := ListAccess.Present) (fun _ _ => trivial) s sep access
    haccess

/-- **A parser of the model is the one without ends of the tables**, as long as all its
accesses are inside; otherwise the run ends. -/
theorem parseEntriesOf_eq_trace (splitFailed tooMany : String) (tables : List ListTable)
    (keep : RrcVersion → Bool) (file : CStr) :
    let run := traceEntriesOf splitFailed tooMany tables keep file
    (AllInside run.1 → parseEntriesOf splitFailed tooMany keep file = run.2) ∧
      (¬ AllInside run.1 → parseEntriesOf splitFailed tooMany keep file = .error .halt) := by
  have hlength := length_fieldsOf file newline
  have hlim : splitTableLength < rrcSplitLim + 1 := by decide
  have hsplit : AllInside (splitAccesses file newline) ↔
      ¬ splitTableLength < Fields.fieldCount newline file.bytes := by
    rw [not_lt, splitAccesses_allInside]
  unfold parseEntriesOf traceEntriesOf splitIntoTable
  have hneg := rrcVersionsfileSplitBy_not_neg file newline
  have hfst := rrcVersionsfileSplitBy_fst file newline
  have hsnd := rrcVersionsfileSplitBy_snd file newline
  cases hrun : rrcVersionsfileSplitBy file newline with
  | mk res lines =>
    rw [hrun] at hneg hfst hsnd
    dsimp only at hneg hfst hsnd ⊢
    subst hsnd
    rw [List.length_take, hlength]
    have hmin : min (rrcSplitLim + 1) (Fields.fieldCount newline file.bytes) > splitTableLength ↔
        splitTableLength < Fields.fieldCount newline file.bytes := by omega
    by_cases hmany : splitTableLength < Fields.fieldCount newline file.bytes
    · have houtside : ¬ AllInside (splitAccesses file newline) := fun h => hsplit.mp h hmany
      rw [if_pos (hmin.mpr hmany)]
      refine ⟨fun h => absurd ?_ houtside, fun _ => rfl⟩
      split_ifs at h
      · exact h
      · exact (allInside_append.mp h).1
    · obtain ⟨hinside, houtside⟩ := parseLines_eq_trace splitFailed tables keep
        (fieldsOf file newline) (show 0 + _ ≤ splitTableLength by omega)
      rw [if_pos (by omega)] at hfst
      subst hfst
      rw [if_neg (mt hmin.mp hmany), List.take_of_length_le (by omega)]
      simp only [bind, Except.bind, hneg, if_false, show (0 : ℤ) ≠ 2 by decide]
      rw [allInside_append, and_iff_right (hsplit.mpr hmany)]
      exact ⟨hinside, houtside⟩

/-! ### Fields that are not there -/

/-- A parser reads the fields of a line only where it has two, and takes the list for
corrupted if it gets to a line that has fewer. -/
def FieldsGuarded (trace : List ListAccess × Except (Stop RrcResultError) (List (RrcVersion × CStr)))
    (file : CStr) : Prop :=
  (∀ access ∈ trace.1, access.Guarded) ∧
    ((∃ line ∈ linesReached file, Fields.fieldCount space line.bytes < 2) →
      ∃ context, trace.2 = .error (.error (rrcResultCreateErrorCorruptedVersionfile context)))

/-- The fields that a parser reads are guarded if and only if each line that it gets to has two
fields at least. The stores have no part in this. -/
theorem traceEntriesOf_guarded_iff (splitFailed tooMany : String) (tables : List ListTable)
    (keep : RrcVersion → Bool) (file : CStr) :
    FieldsGuarded (traceEntriesOf splitFailed tooMany tables keep file) file ↔
      ∀ line ∈ linesReached file, 2 ≤ Fields.fieldCount space line.bytes := by
  have hsplit := splitAccesses_reads_nothing (P := ListAccess.Guarded) (fun _ _ => trivial)
    file newline
  have htables : (∀ access ∈ splitAccesses file newline, access.Guarded) → ∀ table ∈ tables,
      ∀ index < Fields.fieldCount newline file.bytes, (ListAccess.store table index).Guarded :=
    fun _ _ _ _ _ => trivial
  unfold FieldsGuarded
  rw [traceEntriesOf_forall htables, and_iff_right hsplit]
  simp only [readLine_guarded]
  constructor
  · exact fun h => h.1
  · intro h
    refine ⟨h, ?_⟩
    rintro ⟨line, hline, hfew⟩
    exact absurd (h line hline) (by omega)

/-- **The parsers read fields that are there if and only if all lines have two**, as far as
they get: up to the first line without a version and a text. -/
theorem list_fields_guarded_iff (file : CStr) (currentVersion : RrcVersion) :
    (FieldsGuarded (traceNecessaryUrlsAndVersions file currentVersion) file ↔
        ∀ line ∈ linesReached file, 2 ≤ Fields.fieldCount space line.bytes) ∧
      (FieldsGuarded (traceDeletedFiles file currentVersion) file ↔
        ∀ line ∈ linesReached file, 2 ≤ Fields.fieldCount space line.bytes) :=
  ⟨traceEntriesOf_guarded_iff _ _ _ _ _, traceEntriesOf_guarded_iff _ _ _ _ _⟩

/-- A blank line makes both parsers read its first field. -/
theorem list_fields_blank_line :
    ¬ ∀ (file : CStr) (currentVersion : RrcVersion),
      FieldsGuarded (traceNecessaryUrlsAndVersions file currentVersion) file ∧
        FieldsGuarded (traceDeletedFiles file currentVersion) file := by
  intro h
  have hblank := (h ⟨[newline], by decide⟩ ⟨0, 0, 0⟩).1.1 (.field 0 0) (by decide)
  rw [guarded_field] at hblank
  omega

/-! ### Stores behind the tables -/

/-- The stores of a parser are inside their tables if and only if neither the lines of the list nor
the fields of a line that it gets to are more than the table of a split holds. -/
theorem traceEntriesOf_stored_iff (splitFailed tooMany : String) (tables : List ListTable)
    (keep : RrcVersion → Bool) (file : CStr) :
    (∀ access ∈ (traceEntriesOf splitFailed tooMany tables keep file).1, access.StoredInside) ↔
      Fields.fieldCount newline file.bytes ≤ splitTableLength ∧
        ∀ line ∈ linesReached file, Fields.fieldCount space line.bytes ≤ splitTableLength := by
  have htables : (∀ access ∈ splitAccesses file newline, access.StoredInside) →
      ∀ table ∈ tables, ∀ index < Fields.fieldCount newline file.bytes,
        (ListAccess.store table index).StoredInside := by
    intro hsplit table _ index hindex
    rw [splitAccesses_storedInside] at hsplit
    have hlength := splitTableLength_le table
    rw [stored_store]
    omega
  rw [traceEntriesOf_forall htables, splitAccesses_storedInside]
  simp only [readLine_storedInside]

/-- **The tables are written inside if and only if nothing is split into more than 1024
fields**: the string, and for the parsers the list and each line that they get to. -/
theorem list_stores_inside_iff (s : CStr) (sep : UInt8) (file : CStr) (currentVersion : RrcVersion) :
    ((∀ access ∈ splitAccesses s sep, access.StoredInside) ↔
        Fields.fieldCount sep s.bytes ≤ splitTableLength) ∧
      ((∀ access ∈ (traceNecessaryUrlsAndVersions file currentVersion).1, access.StoredInside) ↔
        Fields.fieldCount newline file.bytes ≤ splitTableLength ∧
          ∀ line ∈ linesReached file, Fields.fieldCount space line.bytes ≤ splitTableLength) ∧
      ((∀ access ∈ (traceDeletedFiles file currentVersion).1, access.StoredInside) ↔
        Fields.fieldCount newline file.bytes ≤ splitTableLength ∧
          ∀ line ∈ linesReached file, Fields.fieldCount space line.bytes ≤ splitTableLength) :=
  ⟨splitAccesses_storedInside s sep, traceEntriesOf_stored_iff _ _ _ _ _,
    traceEntriesOf_stored_iff _ _ _ _ _⟩

/-- A list of 1025 lines is split into more fields than its table has entries. -/
theorem list_stores_1025_lines :
    ¬ ∀ (s : CStr) (sep : UInt8) (file : CStr) (currentVersion : RrcVersion),
      (∀ access ∈ splitAccesses s sep, access.StoredInside) ∧
        (∀ access ∈ (traceNecessaryUrlsAndVersions file currentVersion).1, access.StoredInside) ∧
        (∀ access ∈ (traceDeletedFiles file currentVersion).1, access.StoredInside) := by
  intro h
  have hblank : (0 : UInt8) ∉ List.replicate 1025 newline := by
    rw [List.mem_replicate]
    decide
  have hsplit := (h ⟨_, hblank⟩ newline ⟨_, hblank⟩ ⟨0, 0, 0⟩).1
  rw [splitAccesses_storedInside, Fields.fieldCount, List.count_replicate_self] at hsplit
  have hlength : splitTableLength = 1024 := rfl
  omega

end RrLauncher
