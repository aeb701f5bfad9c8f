/-
# The cap on SD files

Before it publishes the tables, `rrc_riivo_patch_loader_parse` stops with "Too many SD
files" where there are more than `GLOBAL_MAX_FOLDER_FILES` replacements.  What it counts is
the distinct disc paths.  An SD file gets its entry when its path is first registered and
keeps it when its replacement is overridden, so there is one entry for each distinct
external path, and of these there can be more (`sd_files_capped_iff`).
-/

import RrLauncher.Loader.MainDol
import RrLauncher.Loader.Mem1Tables
import RrLauncher.Runtime.LastWins
import Mathlib.Data.List.Dedup
import Mathlib.Data.List.Perm.Subperm

namespace RrLauncher

open CStr (lit)
open Mem1 (LoaderState FileReplacement start run publish)

/-- The check of the number of files: `total_replacements > GLOBAL_MAX_FOLDER_FILES`. -/
def PatchTables.TooManySdFiles (t : PatchTables) : Prop :=
  globalMaxFolderFiles < t.replacements.length + t.filenameReplacements.length

/-- **The check** is the one that the parse makes: publishing gives nothing exactly where there are
too many replacements. -/
theorem publish_eq_none_iff (qsort : List FileReplacement → List FileReplacement)
    (s : LoaderState) : publish qsort s = none ↔ s.tables.TooManySdFiles := by
  have htotal : s.tables.replacements.length + s.tables.filenameReplacements.length =
      s.replacements.length + s.filenameReplacements.length := by
    simp [LoaderState.tables]
  rw [PatchTables.TooManySdFiles, htotal, publish]
  split
  · rename_i hmany
    exact iff_of_true rfl hmany
  · rename_i hfew
    exact iff_of_false (fun h => by cases h) hfew

/-! ### Counting the tables -/

/-- The external paths of some registrations, each once. -/
def externalPaths (regs : List Registration) : List CStr := (regs.map (·.externalPath)).dedup

/-- The disc paths of some registrations, each once. -/
def discPaths (regs : List Registration) : List CStr := (regs.map (·.discPath)).dedup

/-- The external paths of a list of registrations are those that one of them names, each of them
listed once. -/
theorem mem_externalPaths {regs : List Registration} {external : CStr} :
    external ∈ externalPaths regs ↔ ∃ r ∈ regs, r.externalPath = external :=
  List.mem_dedup.trans List.mem_map

/-- The disc paths of a list of registrations are those that one of them replaces, each of them
listed once. -/
theorem mem_discPaths {regs : List Registration} {disc : CStr} :
    disc ∈ discPaths regs ↔ ∃ r ∈ regs, r.discPath = disc :=
  List.mem_dedup.trans List.mem_map

/-- No external path is counted twice, however many disc paths it stands for. -/
theorem nodup_externalPaths (regs : List Registration) : (externalPaths regs).Nodup :=
  List.nodup_dedup _

/-- No disc path is counted twice, however often it was registered anew. -/
theorem nodup_discPaths (regs : List Registration) : (discPaths regs).Nodup :=
  List.nodup_dedup _

/-- The path on the disc that a full replacement stands for. -/
def fullPath (disc : CStr) : CStr :=
  ⟨slash :: disc.bytes, fun h => (List.mem_cons.mp h).elim (by decide) disc.noNul⟩

/-- Two disc paths with the same full path are the same: the slash that is put in front can be taken
away again. -/
theorem fullPath_injective : Function.Injective fullPath := by
  intro a b h
  exact CStr.ext (List.cons.inj (congrArg CStr.bytes h)).2

/-- A full path starts with a slash. So it is never mistaken for a bare file name, which is how the
tables tell the two kinds of replacement apart. -/
theorem fullPath_first (disc : CStr) : (fullPath disc).first = slash := rfl

/-- Skipping the slash of a full path gives back the path that it was made of. -/
theorem skipSlash_fullPath (disc : CStr) : skipSlash (fullPath disc) = disc := by
  rw [skipSlash, if_pos (fullPath_first disc)]
  rfl

/-- A path that starts with a slash is the full path of what is behind the slash. So both forms of a
registered path name the same entry. -/
theorem fullPath_skipSlash {path : CStr} (h : path.first = slash) :
    fullPath (skipSlash path) = path := by
  rw [skipSlash, if_pos h]
  ext1
  cases hbytes : path.bytes with
  | nil =>
    rw [CStr.first, hbytes] at h
    exact absurd h (by decide)
  | cons c s =>
    rw [CStr.first, hbytes, List.headD_cons] at h
    show slash :: path.advance.bytes = c :: s
    rw [CStr.advance_bytes, hbytes, List.tail_cons, h]

/-- Something is last among those that satisfy `p` where one of them does. -/
theorem lastExternal_isSome_iff (p : Registration → Bool) (regs : List Registration) :
    (lastExternal p regs).isSome ↔ ∃ r ∈ regs, p r := by
  rw [lastExternal, Option.isSome_map, List.getLast?_isSome, ne_eq, List.filter_eq_nil_iff]
  simp

/-- A table gives an external path for the disc strings that it holds. -/
theorem externalOf_isSome_iff {sdFiles : List RrcRiivoSdFile} {l : List RrcRiivoFileReplacement}
    (hl : TableInv sdFiles.length l) (disc : CStr) :
    (externalOf sdFiles l disc).isSome ↔ disc ∈ l.map (·.disc) := by
  constructor
  · intro h
    obtain ⟨external, hext⟩ := Option.isSome_iff_exists.mp h
    obtain ⟨r, hr, -⟩ := Option.bind_eq_some_iff.mp hext
    obtain ⟨hmem, hdisc⟩ := (KeyedTable.lookup_eq_some_iff hl.distinct).mp hr
    exact List.mem_map.mpr ⟨r, hmem, hdisc⟩
  · intro h
    obtain ⟨r, hmem, rfl⟩ := List.mem_map.mp h
    obtain ⟨external, hext⟩ := exists_externalOf hl hmem
    exact Option.isSome_iff_exists.mpr ⟨external, hext⟩

section Agrees

variable {eff : List Registration} {t : PatchTables} (h : Agrees eff t)

include h

/-- **One entry for each external path**: the table of files is as long as there are different paths
on the card, overridden ones included. -/
theorem Agrees.length_sdFiles : t.sdFiles.length = (externalPaths eff).length := by
  have hperm : (t.sdFiles.map (·.path)).Perm (externalPaths eff) := by
    refine (List.perm_ext_iff_of_nodup h.inv.paths (nodup_externalPaths eff)).mpr fun external => ?_
    rw [mem_externalPaths, List.mem_map]
    exact h.known external
  rw [← hperm.length_eq, List.length_map]

/-- A disc path stands in the table of path replacements exactly if one of the effective
registrations replaces its full path. -/
theorem Agrees.mem_replacements (disc : CStr) :
    disc ∈ t.replacements.map (·.disc) ↔ fullPath disc ∈ discPaths eff := by
  rw [← externalOf_isSome_iff h.inv.replacements, h.full, lastExternal_isSome_iff, mem_discPaths]
  refine exists_congr fun r => and_congr_right fun _ => ?_
  rw [isFullFor, Bool.and_eq_true, decide_eq_true_iff, decide_eq_true_iff]
  constructor
  · rintro ⟨hslash, rfl⟩
    exact (fullPath_skipSlash hslash).symm
  · intro hdisc
    rw [hdisc]
    exact ⟨fullPath_first disc, skipSlash_fullPath disc⟩

/-- A name stands in the table of file name replacements exactly if one of the effective
registrations is for that bare name, without a slash in front. -/
theorem Agrees.mem_filenameReplacements (disc : CStr) :
    disc ∈ t.filenameReplacements.map (·.disc) ↔
      disc.first ≠ slash ∧ disc ∈ discPaths eff := by
  rw [← externalOf_isSome_iff h.inv.filenames, h.filenames, lastExternal_isSome_iff, mem_discPaths]
  constructor
  · rintro ⟨r, hr, hp⟩
    rw [isFilenameFor, Bool.and_eq_true, decide_eq_true_iff, decide_eq_true_iff] at hp
    obtain ⟨hslash, rfl⟩ := hp
    exact ⟨hslash, r, hr, rfl⟩
  · rintro ⟨hslash, r, hr, rfl⟩
    refine ⟨r, hr, ?_⟩
    rw [isFilenameFor, Bool.and_eq_true, decide_eq_true_iff, decide_eq_true_iff]
    exact ⟨hslash, rfl⟩

/-- **One replacement for each disc path**: both tables together are as long as there are different
disc paths. -/
theorem Agrees.length_replacements :
    t.replacements.length + t.filenameReplacements.length = (discPaths eff).length := by
  have hfull : ((t.replacements.map (·.disc)).map fullPath).Nodup :=
    List.Nodup.map fullPath_injective h.inv.replacements.distinct
  have hdisjoint : ((t.replacements.map (·.disc)).map fullPath).Disjoint
      (t.filenameReplacements.map (·.disc)) := by
    intro disc hrep hfil
    obtain ⟨disc, -, rfl⟩ := List.mem_map.mp hrep
    exact ((h.mem_filenameReplacements _).mp hfil).1 (fullPath_first disc)
  have hperm : ((t.replacements.map (·.disc)).map fullPath ++
      t.filenameReplacements.map (·.disc)).Perm (discPaths eff) := by
    refine (List.perm_ext_iff_of_nodup (hfull.append h.inv.filenames.distinct hdisjoint)
      (nodup_discPaths eff)).mpr fun disc => ?_
    rw [List.mem_append, h.mem_filenameReplacements]
    by_cases hslash : disc.first = slash
    · rw [← fullPath_skipSlash hslash, List.mem_map_of_injective fullPath_injective,
        h.mem_replacements, fullPath_skipSlash hslash]
      simp [hslash]
    · have hnot : disc ∉ (t.replacements.map (·.disc)).map fullPath := by
        intro hmem
        obtain ⟨disc, -, rfl⟩ := List.mem_map.mp hmem
        exact hslash (fullPath_first disc)
      rw [or_iff_right hnot, and_iff_right hslash]
  have hlength := hperm.length_eq
  rwa [List.length_append, List.length_map, List.length_map, List.length_map] at hlength

end Agrees
/-! ### What the check covers -/

/-- Some order by hash that `qsort` can leave exists for every table, so the sorting is no extra
condition. -/
theorem exists_sortedByHash (l : List RrcRiivoFileReplacement) :
    ∃ sorted : List RrcRiivoFileReplacement, sorted.Perm l ∧ SortedByHash sorted := by
  have hsorted : (l.mergeSort fun a b => decide (a.hash.toNat ≤ b.hash.toNat)).Pairwise
      fun a b => decide (a.hash.toNat ≤ b.hash.toNat) = true := by
    refine List.pairwise_mergeSort (fun a b c hab hbc => ?_) (fun a b => ?_) l
    · rw [decide_eq_true_iff] at hab hbc ⊢
      exact hab.trans hbc
    · rw [Bool.or_eq_true, decide_eq_true_iff, decide_eq_true_iff]
      exact Nat.le_total _ _
  refine ⟨_, List.mergeSort_perm l _, hsorted.imp fun hab => ?_⟩
  exact of_decide_eq_true hab

/-- **The cap covers every SD file** exactly if there are too many disc paths anyway, or not too
many external paths. -/
theorem sd_files_capped_iff (onCard : CStr → Bool) (mem1 : UInt32) (regs : List Registration) :
    (let t := rrcRiivoHandleFilePatches onCard (PatchTables.empty mem1) regs;
      ¬ t.TooManySdFiles → ∀ riivoDisc : RrcRiivoDisc, Publishes t riivoDisc →
        riivoDisc.sdFiles.length ≤ globalMaxFolderFiles ∧
        ∀ r ∈ riivoDisc.replacements ++ riivoDisc.filenameReplacements, r.entrynum < 2 ^ 22) ↔
      globalMaxFolderFiles < (discPaths (effective onCard regs)).length ∨
        (externalPaths (effective onCard regs)).length ≤ globalMaxFolderFiles := by
  have h := agrees_handleFilePatches onCard mem1 regs
  dsimp only
  generalize rrcRiivoHandleFilePatches onCard (PatchTables.empty mem1) regs = t at h ⊢
  rw [PatchTables.TooManySdFiles, h.length_replacements, ← h.length_sdFiles]
  constructor
  · intro hcapped
    by_contra hnot
    rw [not_or] at hnot
    obtain ⟨rep, hrep, hrepSorted⟩ := exists_sortedByHash t.replacements
    obtain ⟨fil, hfil, hfilSorted⟩ := exists_sortedByHash t.filenameReplacements
    exact hnot.2 (hcapped hnot.1 ⟨t.sdFiles, fil, rep⟩ ⟨rfl, hrep, hrepSorted, hfil, hfilSorted⟩).1
  · rintro hfew hchecked riivoDisc ⟨hsd, hrep, -, hfil, -⟩
    have hle := hfew.resolve_left hchecked
    refine ⟨hsd ▸ hle, fun r hr => ?_⟩
    have hlt : r.entrynum < t.sdFiles.length := by
      rcases List.mem_append.mp hr with hmem | hmem
      · exact h.inv.replacements.entrynum r (hrep.mem_iff.mp hmem)
      · exact h.inv.filenames.entrynum r (hfil.mem_iff.mp hmem)
    exact (hlt.trans_le hle).trans (by decide)

/-- Every number of different external files for one disc path. -/
def overridden (n : ℕ) : List Registration :=
  (List.range n).map fun i => ⟨lit "/a", CStr.ofBuffer (slash :: Decimal.digits i), false⟩

/-- The name made of a slash and the decimal digits of a number has no NUL inside, so as a C string
it keeps all of its bytes. -/
theorem ofBuffer_digits_bytes (i : ℕ) :
    (CStr.ofBuffer (slash :: Decimal.digits i)).bytes = slash :: Decimal.digits i := by
  refine List.takeWhile_eq_self_iff.mpr fun c hc => ?_
  rcases List.mem_cons.mp hc with rfl | hdigit
  · decide
  · rw [decide_eq_true_iff]
    rintro rfl
    exact absurd (Decimal.isdigit_of_mem_digits hdigit) (by decide)

/-- All of the registrations that name a file on the card are effective when every file is there, so
none of the family of counterexamples is dropped. -/
theorem effective_overridden (n : ℕ) : effective (fun _ => true) (overridden n) = overridden n := by
  rw [effective_eq_filter fun _ _ _ => rfl, List.filter_eq_self]
  intro r hr
  obtain ⟨i, -, rfl⟩ := List.mem_map.mp hr
  have hmain : ¬ isMainDol (lit "/a") := by decide
  have hdouble : ¬ isAppleDouble (lit "/a") := by decide
  rw [decide_eq_true_iff]
  exact ⟨hmain, hdouble, rfl⟩

/-- The registrations of the family each name a different external file: there are as many external
paths as registrations. -/
theorem length_externalPaths_overridden (n : ℕ) :
    (externalPaths (overridden n)).length = n := by
  have hinjective : Function.Injective fun i : ℕ => CStr.ofBuffer (slash :: Decimal.digits i) := by
    intro i j hij
    have hbytes := congrArg CStr.bytes hij
    dsimp only at hbytes
    rw [ofBuffer_digits_bytes, ofBuffer_digits_bytes] at hbytes
    rw [← Decimal.value_digits i, (List.cons.inj hbytes).2, Decimal.value_digits]
  have hnodup : ((overridden n).map (·.externalPath)).Nodup := by
    rw [overridden, List.map_map]
    exact List.nodup_range.map hinjective
  rw [externalPaths, hnodup.dedup, List.length_map, overridden, List.length_map, List.length_range]

/-- They all replace the same disc path, so the loader, which counts replacements and not files,
counts at most one. -/
theorem length_discPaths_overridden (n : ℕ) : (discPaths (overridden n)).length ≤ 1 := by
  have hsubset : discPaths (overridden n) ⊆ [lit "/a"] := by
    intro disc hdisc
    obtain ⟨r, hr, rfl⟩ := mem_discPaths.mp hdisc
    obtain ⟨i, -, rfl⟩ := List.mem_map.mp hr
    exact List.mem_singleton.mpr rfl
  exact (List.subperm_of_subset (nodup_discPaths _) hsubset).length_le

/-- **The cap is passed** with 30001 external files for one disc path: there is one replacement,
and 30001 entries. -/
theorem sd_files_not_capped :
    ¬ ∀ (onCard : CStr → Bool) (mem1 : UInt32) (regs : List Registration),
      let t := rrcRiivoHandleFilePatches onCard (PatchTables.empty mem1) regs
      ¬ t.TooManySdFiles → ∀ riivoDisc : RrcRiivoDisc, Publishes t riivoDisc →
        riivoDisc.sdFiles.length ≤ globalMaxFolderFiles ∧
        ∀ r ∈ riivoDisc.replacements ++ riivoDisc.filenameReplacements, r.entrynum < 2 ^ 22 := by
  intro h
  rcases (sd_files_capped_iff _ _ _).mp (h (fun _ => true) 0x81700000 (overridden 30001)) with
    hmany | hfew
  · rw [effective_overridden] at hmany
    exact absurd (hmany.trans_le (length_discPaths_overridden _)) (by decide)
  · rw [effective_overridden, length_externalPaths_overridden] at hfew
    exact absurd hfew (by decide)

/-! ### The parse -/

/-- What the document registers, in order. -/
def PatchSource.registrations (src : PatchSource) (settings : RrcSettingsfile) :
    List Registration :=
  (src.documentWalk settings).steps.filterMap (·.registration?)

section Parse

variable (src : PatchSource) (qsort : List FileReplacement → List FileReplacement)
  (settings : RrcSettingsfile) (mem : Memory) (mem1 : UInt32) (dol : List UInt8)

/-- The vectors after the loops stand for the tables of what the document registers. -/
theorem tables_documentWalk (haligned : 32 ∣ mem1.toNat)
    (hfits : (run src.onCard (start mem mem1) (src.documentWalk settings).steps).arena.Fits)
    (hneeded : src.entriesNeeded settings ≤ maxMemoryPatches) :
    (run src.onCard (start mem mem1) (src.documentWalk settings).steps).tables =
      rrcRiivoHandleFilePatches src.onCard (PatchTables.empty (start mem mem1).memPatches)
        (src.registrations settings) := by
  refine (Mem1.tables_run src.onCard mem mem1 haligned _ hfits ?_).1
  rw [countP_isMemory_documentWalk]
  exact room_start src.onCard mem mem1 hfits hneeded

/-- The end of the function leaves the SD files as they are, and the arena grows. -/
theorem finishParse_grows (s : LoaderState) :
    (finishParse src qsort s dol).state.sdFiles = s.sdFiles ∧
      s.arena.allocations <+: (finishParse src qsort s dol).state.arena.allocations := by
  unfold finishParse
  dsimp only
  cases hpublish : publish qsort s with
  | none => exact ⟨rfl, List.prefix_rfl⟩
  | some out =>
    obtain ⟨s', disc⟩ := out
    have hgrow := Mem1.grows_publish hpublish
    obtain ⟨sd, rep, fil, -, -, -, rfl, -⟩ := Mem1.publish_some hpublish
    exact ⟨rfl, hgrow⟩

/-- **The cap at the end of a parse**: where MEM1 has room, a document that is accepted has at
most `GLOBAL_MAX_FOLDER_FILES` published SD files exactly if it registers too many disc paths,
or not too many external ones. -/
theorem parse_sd_files_capped_iff (haligned : 32 ∣ mem1.toNat)
    (hstop : (src.documentWalk settings).stop = none)
    (hfits : (rrcRiivoPatchLoaderParse src qsort settings mem mem1 dol).state.arena.Fits)
    (hneeded : src.entriesNeeded settings ≤ maxMemoryPatches) :
    (let parsed := rrcRiivoPatchLoaderParse src qsort settings mem mem1 dol;
      parsed.result = .ok () → parsed.state.sdFiles.length ≤ globalMaxFolderFiles) ↔
      let eff := effective src.onCard (src.registrations settings);
      globalMaxFolderFiles < (discPaths eff).length ∨
        (externalPaths eff).length ≤ globalMaxFolderFiles := by
  dsimp only
  rw [parse_eq, hstop] at hfits ⊢
  dsimp only at hfits ⊢
  obtain ⟨hsdFiles, hgrow⟩ := finishParse_grows src qsort dol
    (run src.onCard (start mem mem1) (src.documentWalk settings).steps)
  have htables := tables_documentWalk src settings mem mem1 haligned (hfits.of_prefix hgrow)
    hneeded
  have h := agrees_handleFilePatches src.onCard (start mem mem1).memPatches
    (src.registrations settings)
  rw [← htables] at h
  have hsd := h.length_sdFiles
  have hrep := h.length_replacements
  rw [LoaderState.tables, List.length_map] at hsd
  rw [LoaderState.tables, List.length_map, List.length_map] at hrep
  rw [finishParse_ok_iff, hsdFiles, ← hsd, ← hrep, imp_iff_not_or, Nat.not_le]

end Parse

end RrLauncher
