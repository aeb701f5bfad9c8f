/-
# A settings file that does not parse

`rrc_settingsfile_parse` writes each value where it belongs as soon as it has read it, so a
file that goes bad after its first entries leaves those.  Its settings have the defaults
after an error exactly if no key of the entries before has another value last
(`settings_failure_iff`); reads can fail at any place, and then this is asked of each
number of first entries.
-/

import RrLauncher.Settings.Codec

namespace RrLauncher

open Stdio ByteReader

/-- The number of entries that the header tells, if it can be read. -/
def announcedEntries (content : Bytes) : ℕ :=
  match readHeader content with
  | .error _ => 0
  | .ok (entryCount, _) => entryCount.toNat

/-- The entries before the first that cannot be read. -/
def leadingEntries (content : Bytes) : List (CStr × UInt32) :=
  match readHeader content with
  | .error _ => []
  | .ok (entryCount, rest) => leading readEntry entryCount.toNat rest

/-- Each known key has its default for the last of its values, or none. -/
def LeavesDefaults (pairs : List (CStr × UInt32)) : Prop :=
  ∀ pair ∈ rrcSettingsfileInitDefaults.pairs, (lastValue pair.1 pairs).getD pair.2 = pair.2

/-- If the parser returns an error then the settings have the defaults. -/
def FailsWithDefaults {κ : Type} [DecidableEq κ] (canon : CStr → κ) (env : Stdio.Env κ Question)
    (w : World κ) : Prop :=
  ∀ e settings w', rrcSettingsfileParse canon env w = (.ok (.error e, settings), w') →
    settings = rrcSettingsfileInitDefaults

/-- That the last value of each key, where it has one, is its default is the same as that storing
all of the pairs changes no setting. -/
theorem leavesDefaults_iff (pairs : List (CStr × UInt32)) :
    LeavesDefaults pairs ↔
      overrideAll rrcSettingsfileInitDefaults pairs = rrcSettingsfileInitDefaults := by
  rw [LeavesDefaults, overrideAll_eq, RrcSettingsfile.pairs, RrcSettingsfile.mk.injEq]
  simp only [List.forall_mem_cons, List.not_mem_nil, false_implies, implies_true, and_true]

/-! ### What the parser leaves -/

/-- **What the loop leaves** are the settings overridden by the entries before the first bad
one, and there is an error if there is a bad one. -/
theorem parseEntries_eq (n : ℕ) (bytes : Bytes) (settings : RrcSettingsfile) :
    (parseEntries n bytes settings).2 = overrideAll settings (leading readEntry n bytes) ∧
      ((∃ e, (parseEntries n bytes settings).1 = .error e) ↔
        (leading readEntry n bytes).length < n) := by
  induction n generalizing bytes settings with
  | zero =>
    refine ⟨rfl, ?_, fun h => absurd h (Nat.lt_irrefl 0)⟩
    rintro ⟨e, he⟩
    cases he
  | succ n ih =>
    rw [parseEntries, leading]
    cases hentry : readEntry bytes with
    | error e => exact ⟨rfl, fun _ => Nat.succ_pos n, fun _ => ⟨e, rfl⟩⟩
    | ok entry =>
      obtain ⟨pair, rest⟩ := entry
      obtain ⟨hleft, hfails⟩ := ih rest (settings.setKey pair.1 pair.2)
      exact ⟨hleft, hfails.trans (by rw [List.length_cons, Nat.add_lt_add_iff_right])⟩

/-- **What the parser leaves**, and when it fails: the entries that could be read are stored, and it
fails if the header is none or entries are missing. -/
theorem parseContent_eq (content : Bytes) :
    (parseContent content).2 =
      overrideAll rrcSettingsfileInitDefaults (leadingEntries content) ∧
    ((∃ e, (parseContent content).1 = .error e) ↔
      (∃ e, readHeader content = .error e) ∨
        (leadingEntries content).length < announcedEntries content) := by
  rw [parseContent, leadingEntries, announcedEntries]
  cases hheader : readHeader content with
  | error e => exact ⟨rfl, fun _ => Or.inl ⟨e, rfl⟩, fun _ => ⟨e, rfl⟩⟩
  | ok header =>
    obtain ⟨entryCount, rest⟩ := header
    obtain ⟨hleft, hfails⟩ := parseEntries_eq entryCount.toNat rest rrcSettingsfileInitDefaults
    refine ⟨hleft, hfails.trans ⟨Or.inr, ?_⟩⟩
    rintro (⟨e, he⟩ | h)
    · cases he
    · exact h

/-- An error with the defaults, for the bytes that are read. -/
theorem parseContent_defaults_iff (content : Bytes) :
    ((∃ e, (parseContent content).1 = .error e) →
      (parseContent content).2 = rrcSettingsfileInitDefaults) ↔
      ((leadingEntries content).length < announcedEntries content →
        LeavesDefaults (leadingEntries content)) := by
  obtain ⟨hleft, hfails⟩ := parseContent_eq content
  rw [hleft, hfails, leavesDefaults_iff]
  refine ⟨fun h hlt => h (Or.inr hlt), ?_⟩
  rintro h (⟨e, he⟩ | hlt)
  · rw [leadingEntries, he]
    rfl
  · exact h hlt

/-! ### What is left of a file that is read in part -/

/-- The reading of an entry depends only on the bytes that it takes. -/
theorem local_readEntry : Local readEntry :=
  (local_u32 _).bind fun _ => Local.ite (Local.throw _) <|
    (local_take _ _).bind fun _ => (local_u32 _).bind fun _ =>
      Local.ite (Local.throw _) ((local_u32 _).bind fun _ => Local.pure _)

/-- The reading of the header depends only on the bytes that it takes. -/
theorem local_readHeader : Local readHeader :=
  (local_u32 _).bind fun _ => Local.ite (Local.throw _) <|
    (local_u32 _).bind fun _ => local_u32 _

/-- No entry is read from no bytes, however many the header has announced. -/
theorem leading_readEntry_nil (n : ℕ) : leading readEntry n [] = [] := by
  cases n <;> rfl

/-- A prefix of a file has no entries at all, or its first ones with the same announced number of
them. -/
theorem leadingEntries_prefix (p q : Bytes) :
    leadingEntries p = [] ∨
      leadingEntries p <+: leadingEntries (p ++ q) ∧
        announcedEntries p = announcedEntries (p ++ q) := by
  rw [leadingEntries, announcedEntries]
  cases hheader : readHeader p with
  | error e => exact Or.inl rfl
  | ok header =>
    obtain ⟨entryCount, rest⟩ := header
    obtain ⟨piece, rfl, hall⟩ := local_readHeader _ _ _ hheader
    rw [leadingEntries, announcedEntries, List.append_assoc, hall]
    exact Or.inr ⟨leading_take local_readEntry _ rest q, rfl⟩

/-- Each number of first entries is read from some prefix that goes no further. -/
theorem exists_prefix_leadingEntries {content : Bytes} {k : ℕ}
    (hk : k ≤ (leadingEntries content).length) (hlt : k < announcedEntries content) :
    ∃ n, leadingEntries (content.take n) = (leadingEntries content).take k ∧
      announcedEntries (content.take n) = announcedEntries content := by
  rw [leadingEntries] at hk ⊢
  rw [announcedEntries] at hlt ⊢
  cases hheader : readHeader content with
  | error e =>
    rw [hheader] at hlt
    cases hlt
  | ok header =>
    obtain ⟨entryCount, rest⟩ := header
    rw [hheader] at hk hlt
    obtain ⟨piece, rfl, hall⟩ := local_readHeader _ _ _ hheader
    obtain ⟨first, rest', rfl, hfirst⟩ := leading_local local_readEntry hk
    refine ⟨(piece ++ first).length, ?_⟩
    have hread : readHeader (piece ++ first) = .ok (entryCount, first) := hall first
    have hentries := hfirst entryCount.toNat [] hlt.le
    rw [List.append_nil, leading_readEntry_nil, List.append_nil] at hentries
    rw [← List.append_assoc, List.take_left, leadingEntries, announcedEntries, hread]
    exact ⟨hentries, rfl⟩

/-- A file with no more than a header has no entries. -/
theorem leadingEntries_of_header {content : Bytes} (h : content <+: encodeHeader 0) :
    leadingEntries content = [] := by
  obtain ⟨q, hq⟩ := h
  have hnone : leadingEntries (encodeHeader 0) = [] := by decide
  rcases leadingEntries_prefix content q with hempty | ⟨hpre, -⟩
  · exact hempty
  · rw [hq, hnone] at hpre
    exact List.prefix_nil.mp hpre

/-- The front of a file with a header for no entries leaves the defaults. -/
theorem parseContent_created {bytes : Bytes} (h : bytes <+: encodeHeader 0) (n : ℕ) :
    (parseContent (bytes.take n)).2 = rrcSettingsfileInitDefaults := by
  rw [(parseContent_eq _).1, leadingEntries_of_header ((List.take_prefix n _).trans h)]
  rfl

/-- **The front of a file** that does not parse leaves the defaults, if any number of the first
entries of the file does. -/
theorem parseContent_take_defaults {content : Bytes}
    (h : ∀ k ≤ (leadingEntries content).length, k < announcedEntries content →
      LeavesDefaults ((leadingEntries content).take k)) {n : ℕ}
    (hfails : ∃ e, (parseContent (content.take n)).1 = .error e) :
    (parseContent (content.take n)).2 = rrcSettingsfileInitDefaults := by
  refine (parseContent_defaults_iff _).mpr (fun hlt => ?_) hfails
  -- the entries of the front are first entries of the file
  have hwhole := leadingEntries_prefix (content.take n) (content.drop n)
  rw [List.take_append_drop] at hwhole
  rcases hwhole with hnone | ⟨hpre, hannounced⟩
  · rw [hnone, leavesDefaults_iff]
    rfl
  · rw [List.prefix_iff_eq_take.mp hpre]
    exact h _ hpre.length_le (hannounced ▸ hlt)

/-! ### The whole parser -/

section Run

variable {κ : Type} [DecidableEq κ] (canon : CStr → κ) {env : Stdio.Env κ Question}

/-- The file that is created has no more than a header. -/
theorem rrcSettingsfileCreate_card {w w' : World κ}
    (h : rrcSettingsfileCreate canon env w = (.ok (), w')) :
    ∃ content, w'.card (canon rrcSettingsfilePath) = some content ∧ content <+: encodeHeader 0 := by
  rw [rrcSettingsfileCreate] at h
  obtain ⟨file, w₁, hopen, h⟩ := Prog.bind_ok h
  obtain ⟨rfl, hempty⟩ := (Opens.fopenWriteOr
    (Opens.of_fails (fails_failErrno _) (canon rrcSettingsfilePath)) w).2.2 file w₁ hopen
  obtain ⟨⟨written, file₂⟩, w₂, hheader, h⟩ := Prog.bind_ok h
  obtain ⟨hpath, b, hb, hholds, -⟩ := (fills_fwriteItems env ⟨canon rrcSettingsfilePath, []⟩ _ w₁ []
    ⟨[], hempty, rfl⟩).2 written file₂ w₂ hheader
  rw [flatMap_header] at hb
  rw [List.nil_append] at hholds
  obtain ⟨closed, w₃, hclose, h⟩ := Prog.bind_ok h
  obtain rfl : w₃ = w' := (Prod.mk.inj h).2
  obtain ⟨htrue, hother⟩ := fclose_spec (ε := RrcResultError) env hholds
  rw [hclose, hpath] at hother
  cases closed with
  | true =>
    obtain ⟨hcard, -⟩ := htrue w₃ hclose
    exact ⟨b, by rw [hcard, hpath, Function.update_self], hb⟩
  | false =>
    obtain ⟨content, hcard, hcontent⟩ := (hother (by simp)).onCard
    exact ⟨content, hcard, hcontent.trans hb⟩

/-- **Where an error comes from**: the settings are the defaults, or what is left of a part of
the file, or of the file that was created in its place. -/
theorem rrcSettingsfileParse_error {w w' : World κ} {e : RrcResultError} {settings : RrcSettingsfile}
    (h : rrcSettingsfileParse canon env w = (.ok (.error e, settings), w')) :
    settings = rrcSettingsfileInitDefaults ∨
      ∃ content n, (w.card (canon rrcSettingsfilePath) = some content ∨
        content <+: encodeHeader 0) ∧ parseContent (content.take n) = (.error e, settings) := by
  rw [rrcSettingsfileParse] at h
  obtain ⟨opened, w₁, hopen, h⟩ := Prog.bind_ok h
  cases opened with
  | some content =>
    obtain ⟨bytes, w₂, hread, h⟩ := Prog.bind_ok h
    obtain ⟨n, rfl⟩ := freadable_take hread
    refine Or.inr ⟨content, n, Or.inl (fopenRead_ok hopen), ?_⟩
    exact Except.ok.inj (Prod.mk.inj h).1
  | none =>
    obtain ⟨eno, w₂, -, h⟩ := Prog.bind_ok h
    split at h
    · obtain ⟨created, w₃, hcreate, h⟩ := Prog.bind_ok h
      cases created with
      | error e' => exact Or.inl (Prod.mk.inj (Except.ok.inj (Prod.mk.inj h).1)).2.symm
      | ok _ =>
        obtain ⟨content, hcard, hcontent⟩ := rrcSettingsfileCreate_card canon (Prog.attempt_ok hcreate)
        obtain ⟨reopened, w₄, hreopen, h⟩ := Prog.bind_ok h
        cases reopened with
        | some content' =>
          obtain rfl := Option.some.inj (hcard.symm.trans (fopenRead_ok hreopen))
          obtain ⟨bytes, w₅, hread, h⟩ := Prog.bind_ok h
          obtain ⟨n, rfl⟩ := freadable_take hread
          exact Or.inr ⟨content, n, Or.inr hcontent, Except.ok.inj (Prod.mk.inj h).1⟩
        | none =>
          obtain ⟨eno', w₅, -, h⟩ := Prog.bind_ok h
          exact Or.inl (Prod.mk.inj (Except.ok.inj (Prod.mk.inj h).1)).2.symm
    · exact Or.inl (Prod.mk.inj (Except.ok.inj (Prod.mk.inj h).1)).2.symm

/-- Every call works but the reads, which fail after `n` bytes. -/
def readsOnly (n : ℕ) : Stdio.Env κ Question
  | _, .read _ => .fail EIO n 0
  | _, _ => .ok 0

/-- Where only the reads fail, after a number of bytes, the parser does what it does on a file that
has no more than these bytes. -/
theorem rrcSettingsfileParse_readsOnly {w : World κ} {content : Bytes}
    (h : w.card (canon rrcSettingsfilePath) = some content) (n : ℕ) :
    ∃ w', rrcSettingsfileParse canon (readsOnly n) w = (.ok (parseContent (content.take n)), w') := by
  refine ⟨w.tick.failed EIO, ?_⟩
  rw [rrcSettingsfileParse, Prog.bind_run, fopenRead]
  simp only [readsOnly, h]
  rfl

/-- A run of the parser that gets the result of some bytes fails with the defaults exactly if
the bytes do. -/
theorem failsWithDefaults_iff {w w' : World κ} {bytes : Bytes}
    (h : rrcSettingsfileParse canon env w = (.ok (parseContent bytes), w')) :
    FailsWithDefaults canon env w ↔
      ((leadingEntries bytes).length < announcedEntries bytes →
        LeavesDefaults (leadingEntries bytes)) := by
  rw [← parseContent_defaults_iff]
  constructor
  · rintro hfails ⟨e, he⟩
    exact hfails e _ w' (h.trans (by rw [← he]))
  · intro hbytes e settings w'' hrun
    have hresult := Except.ok.inj (Prod.mk.inj (h.symm.trans hrun)).1
    rw [hresult] at hbytes
    exact hbytes ⟨e, rfl⟩

/-- Whatever fails, a run leaves what the front of some file leaves. -/
theorem failsWithDefaults_of_front {w : World κ}
    (h : ∀ content n, w.card (canon rrcSettingsfilePath) = some content →
      (∃ e, (parseContent (content.take n)).1 = .error e) →
        (parseContent (content.take n)).2 = rrcSettingsfileInitDefaults) :
    FailsWithDefaults canon env w := by
  intro e settings w' hrun
  rcases rrcSettingsfileParse_error canon hrun with hdefaults | ⟨bytes, n, hbytes, hparse⟩
  · exact hdefaults
  have hsettings : (parseContent (bytes.take n)).2 = settings := by rw [hparse]
  rw [← hsettings]
  rcases hbytes with hcard | hheader
  · exact h bytes n hcard ⟨e, by rw [hparse]⟩
  · exact parseContent_created hheader n

/-- **The settings after a parse that failed** have the defaults exactly if the entries before
the bad one leave each key at its default; where reads fail too, exactly if every number of
first entries does. -/
theorem settings_failure_iff (content : Bytes) :
    ((∀ (env : Stdio.Env κ Question) w, env.Works → w.card (canon rrcSettingsfilePath) = some content →
        FailsWithDefaults canon env w) ↔
      ((leadingEntries content).length < announcedEntries content →
        LeavesDefaults (leadingEntries content))) ∧
    ((∀ (env : Stdio.Env κ Question) w, w.card (canon rrcSettingsfilePath) = some content →
        FailsWithDefaults canon env w) ↔
      ∀ k ≤ (leadingEntries content).length, k < announcedEntries content →
        LeavesDefaults ((leadingEntries content).take k)) ∧
    ∀ (env : Stdio.Env κ Question) w, w.card (canon rrcSettingsfilePath) = none →
      FailsWithDefaults canon env w := by
  let card : World κ := ⟨fun _ => some content, 0, 0, []⟩
  refine ⟨⟨fun h => ?_, fun h env w hworks hcard => ?_⟩,
    ⟨fun h k hk hlt => ?_, fun h env w hcard => ?_⟩, fun env w hcard => ?_⟩
  · have hworks : Stdio.Env.Works (fun _ _ => .ok 0 : Stdio.Env κ Question) := fun _ _ => ⟨0, rfl⟩
    obtain ⟨w', hrun⟩ := rrcSettingsfileParse_works (w := card) hworks canon rfl
    exact (failsWithDefaults_iff canon hrun).mp (h _ card hworks rfl)
  · obtain ⟨w', hrun⟩ := rrcSettingsfileParse_works hworks canon hcard
    exact (failsWithDefaults_iff canon hrun).mpr h
  · obtain ⟨n, hentries, hannounced⟩ := exists_prefix_leadingEntries hk hlt
    obtain ⟨w', hrun⟩ := rrcSettingsfileParse_readsOnly canon (w := card) rfl n
    have hleaves := (failsWithDefaults_iff canon hrun).mp (h _ card rfl)
    rw [hentries, hannounced, List.length_take_of_le hk] at hleaves
    exact hleaves hlt
  · refine failsWithDefaults_of_front canon fun content' n hsame hfails => ?_
    obtain rfl := Option.some.inj (hcard.symm.trans hsame)
    exact parseContent_take_defaults h hfails
  · exact failsWithDefaults_of_front canon fun content' n hsame _ => by
      cases hcard.symm.trans hsame

end Run

/-- A file with two entries that ends after the first. -/
def truncatedSettings : Bytes :=
  encodeHeader 2 ++ encodeEntry (rrcSettingsfileMyStuffKey, 1)

/-- A file of which the first entry is whole and the second one is missing: the parser returns an
error, and the first entry stays in the settings. -/
theorem settings_failure_mixed :
    ¬ ∀ (content : Bytes) (env : Stdio.Env CStr Question) (w : World CStr),
      w.card rrcSettingsfilePath = some content → FailsWithDefaults id env w := by
  intro h
  have hworks : Stdio.Env.Works (fun _ _ => .ok 0 : Stdio.Env CStr Question) := fun _ _ => ⟨0, rfl⟩
  have hcard : World.card (⟨fun _ => some truncatedSettings, 0, 0, []⟩ : World CStr)
      (id rrcSettingsfilePath) = some truncatedSettings := rfl
  obtain ⟨w', hrun⟩ := rrcSettingsfileParse_works hworks id hcard
  have hparse : parseContent truncatedSettings =
      (.error (rrcResultCreateErrorCorruptedSettingsfile "Failed to read length of key"), ⟨1, 0, 1⟩) := by
    rfl
  rw [hparse] at hrun
  exact absurd (h truncatedSettings _ _ hcard _ _ _ hrun) (by decide)

end RrLauncher
