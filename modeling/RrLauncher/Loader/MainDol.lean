/-
# The replacement for `main.dol`

A document can replace `main.dol`: the walk notes the path, and after the loops
`rrc_replace_main_dol` reads the file over the staged DOL.  It says whether that went
well, but nobody looks: where the file cannot be opened, or a read fails somewhere in it,
the parse still succeeds, with the original or with a mixture of both
(`main_dol_replaced_iff`).
-/

import RrLauncher.Loader.Parse

namespace RrLauncher

open CStr (lit)
open Mem1 (LoaderState FileReplacement start run perform publish)

/-- The path that a registration gives for `main.dol`. -/
def mainDolOf (r : Registration) : Option CStr :=
  if isMainDol r.discPath then some r.externalPath else none

/-- The path for `main.dol`: that of the last registration for it. -/
def lastMainDol (regs : List Registration) : Option CStr := (regs.filterMap mainDolOf).getLast?

/-- One more registration is the last one for `main.dol` if it is for that at all. -/
theorem lastMainDol_concat (regs : List Registration) (r : Registration) :
    lastMainDol (regs ++ [r]) = (mainDolOf r).or (lastMainDol regs) := by
  rw [lastMainDol, List.filterMap_append]
  cases h : mainDolOf r with
  | some path =>
    rw [List.filterMap_cons_some h, List.filterMap_nil, List.getLast?_concat]
    rfl
  | none =>
    rw [List.filterMap_cons_none h, List.filterMap_nil, List.append_nil]
    rfl

/-- **One registration**: its path is kept for `main.dol` if it is for that, and otherwise the path
that was kept before. -/
theorem handleFilePatch_mainDolPath (onCard : CStr → Bool) (s : LoaderState) (r : Registration) :
    (Mem1.rrcRiivoHandleFilePatch onCard s r).mainDolPath = (mainDolOf r).or s.mainDolPath := by
  have hregister : ∀ (s : LoaderState) (discPath : CStr) (entrynum : ℕ),
      (Mem1.registerReplacement s discPath entrynum).mainDolPath = s.mainDolPath := by
    intro s discPath entrynum
    rw [Mem1.registerReplacement]
    dsimp only
    split <;> rfl
  rw [Mem1.rrcRiivoHandleFilePatch, mainDolOf]
  by_cases hmain : isMainDol r.discPath
  · rw [if_pos hmain, if_pos hmain]
    rfl
  · rw [if_neg hmain, if_neg hmain, Option.none_or]
    split
    · rfl
    split
    · exact hregister _ _ _
    split
    · rfl
    · exact hregister _ _ _

/-- **The path after the loops** is that of the last registration. -/
theorem run_mainDolPath (onCard : CStr → Bool) (mem : Memory) (mem1 : UInt32)
    (steps : List LoaderStep) :
    (run onCard (start mem mem1) steps).mainDolPath =
      lastMainDol (steps.filterMap (·.registration?)) := by
  induction steps using List.reverseRecOn with
  | nil => rfl
  | append_singleton steps step ih =>
    rw [run, List.foldl_append, List.filterMap_append]
    cases step with
    | file r =>
      show (Mem1.rrcRiivoHandleFilePatch onCard (run onCard (start mem mem1) steps) r).mainDolPath =
        lastMainDol (_ ++ [r])
      rw [handleFilePatch_mainDolPath, lastMainDol_concat, ih]
    | loaderPul dest =>
      rw [show [LoaderStep.loaderPul dest].filterMap (·.registration?) = [] from rfl,
        List.append_nil, ← ih]
      rfl
    | memory patch =>
      rw [show [LoaderStep.memory patch].filterMap (·.registration?) = [] from rfl,
        List.append_nil, ← ih]
      rfl

/-! ### The DOL at the end of the parse -/

/-- The replacement for `main.dol` that the document registers. -/
def PatchSource.mainDol (src : PatchSource) (settings : RrcSettingsfile) : Option CStr :=
  lastMainDol ((src.documentWalk settings).steps.filterMap (·.registration?))

/-- How many replacements there are after the loops. -/
def PatchSource.totalReplacements (src : PatchSource) (settings : RrcSettingsfile) (mem : Memory)
    (mem1 : UInt32) : ℕ :=
  let s := run src.onCard (start mem mem1) (src.documentWalk settings).steps
  s.replacements.length + s.filenameReplacements.length

/-- The file at a path can be opened and read to its end. -/
def PatchSource.ReadsCompletely (src : PatchSource) (path : CStr) : Prop :=
  ∃ file, src.fopen path = .ok file ∧ file.failed = none

section Parse

variable (src : PatchSource) (qsort : List FileReplacement → List FileReplacement)
  (settings : RrcSettingsfile) (mem : Memory) (mem1 : UInt32) (dol : List UInt8)

/-- What replacing the DOL leaves of it: the bytes that could be read of the file, and behind them
those of the old DOL. -/
theorem rrcReplaceMainDol_prefix {path : CStr} {file : ReadFile} (hopen : src.fopen path = .ok file) :
    file.bytes <+: (rrcReplaceMainDol src dol path).1 := by
  rw [rrcReplaceMainDol, hopen]
  dsimp only
  split
  · exact List.prefix_append _ _
  · exact List.prefix_append _ _

/-- **The end of the function** succeeds where there is room for the files, whatever becomes of
the DOL. -/
theorem finishParse_ok_iff (s : LoaderState) :
    (finishParse src qsort s dol).result = .ok () ↔
      s.replacements.length + s.filenameReplacements.length ≤ globalMaxFolderFiles := by
  rw [finishParse, publish]
  by_cases hmany : globalMaxFolderFiles < s.replacements.length + s.filenameReplacements.length
  · rw [if_pos hmany]
    exact iff_of_false (fun h => by cases h) (Nat.not_le.mpr hmany)
  · rw [if_neg hmany]
    exact iff_of_true rfl (Nat.not_lt.mp hmany)

/-- At the end of the parse the DOL is replaced by the file that was registered for it, and the
outcome of publishing the tables makes no difference to that. -/
theorem finishParse_dol {s : LoaderState} {path : CStr} (hpath : s.mainDolPath = some path) :
    (finishParse src qsort s dol).dol = (rrcReplaceMainDol src dol path).1 := by
  rw [finishParse, hpath]
  dsimp only
  cases publish qsort s with
  | none => rfl
  | some out => rfl

/-- **When the parse succeeds**: the document is accepted, and has not too many files. -/
theorem parse_ok_iff :
    (rrcRiivoPatchLoaderParse src qsort settings mem mem1 dol).result = .ok () ↔
      (src.documentWalk settings).stop = none ∧
        src.totalReplacements settings mem mem1 ≤ globalMaxFolderFiles := by
  rw [parse_eq]
  cases (src.documentWalk settings).stop with
  | some stop => exact iff_of_false (fun h => by cases h) (fun h => by cases h.1)
  | none => exact (finishParse_ok_iff src qsort dol _).trans (and_iff_right rfl).symm

/-- The staged DOL of a parse that succeeds, with a replacement. -/
theorem parse_dol {path : CStr} (hmain : src.mainDol settings = some path)
    (hok : (rrcRiivoPatchLoaderParse src qsort settings mem mem1 dol).result = .ok ()) :
    (rrcRiivoPatchLoaderParse src qsort settings mem mem1 dol).dol =
      (rrcReplaceMainDol src dol path).1 := by
  obtain ⟨hstop, -⟩ := (parse_ok_iff src qsort settings mem mem1 dol).mp hok
  have hpath : (run src.onCard (start mem mem1) (src.documentWalk settings).steps).mainDolPath =
      some path := (run_mainDolPath _ _ _ _).trans hmain
  rw [parse_eq, hstop]
  exact finishParse_dol src qsort dol hpath

/-- A parse that succeeds has all of the replacement in the staged DOL. -/
def StagesReplacement (path : CStr) (parsed : Parsed) : Prop :=
  parsed.result = .ok () → ∃ file, src.fopen path = .ok file ∧ file.failed = none ∧
    file.bytes <+: parsed.dol

/-- **The replacement for `main.dol` is all or nothing** exactly if the file can be read to its
end, or the parse fails for another reason: the document is rejected, or has too many files. -/
theorem main_dol_replaced_iff {path : CStr} (hmain : src.mainDol settings = some path) :
    StagesReplacement src path (rrcRiivoPatchLoaderParse src qsort settings mem mem1 dol) ↔
      src.ReadsCompletely path ∨ (src.documentWalk settings).stop ≠ none ∨
        globalMaxFolderFiles < src.totalReplacements settings mem mem1 := by
  rw [StagesReplacement, PatchSource.ReadsCompletely]
  constructor
  · intro h
    by_cases hok : (rrcRiivoPatchLoaderParse src qsort settings mem mem1 dol).result = .ok ()
    · obtain ⟨file, hopen, hfailed, -⟩ := h hok
      exact Or.inl ⟨file, hopen, hfailed⟩
    · rw [parse_ok_iff, not_and_or, Nat.not_le] at hok
      exact Or.inr hok
  · rintro (⟨file, hopen, hfailed⟩ | hother) hok
    · refine ⟨file, hopen, hfailed, ?_⟩
      rw [parse_dol src qsort settings mem mem1 dol hmain hok]
      exact rrcReplaceMainDol_prefix src dol hopen
    · obtain ⟨hstop, hfew⟩ := (parse_ok_iff src qsort settings mem mem1 dol).mp hok
      rcases hother with hrejected | hmany
      · exact absurd hstop hrejected
      · exact absurd hmany (Nat.not_lt.mpr hfew)

end Parse

/-- A pack with one patch, which replaces `main.dol`. -/
def mainDolDocument : XmlNode :=
  .element (lit "wiidisc") []
    [.element (lit "option") [(lit "name", lit "Pack")]
      [.element (lit "choice") [] [.element (lit "patch") [(lit "id", lit "rr")] []]],
    .element (lit "patch") [(lit "id", lit "rr")]
      [.element (lit "file") [(lit "disc", lit "main.dol"), (lit "external", lit "/main.dol")] []]]

/-- A card from which every file can be read. -/
def readableSource (bytes : List UInt8) : PatchSource :=
  { PatchSource.ofDocument mainDolDocument with fopen := fun _ => .ok ⟨bytes, none⟩ }

/-- A document with one enabled replacement for `main.dol`, whose file can be read: the staged DOL
is that file. -/
theorem main_dol_replaced_iff_readable :
    StagesReplacement (readableSource [1, 2, 3]) (lit "/main.dol")
      (rrcRiivoPatchLoaderParse (readableSource [1, 2, 3]) id ⟨0, 0, 1⟩ (fun _ => 0) 0x81700000
        [9, 9, 9, 9]) :=
  (main_dol_replaced_iff (readableSource [1, 2, 3]) id ⟨0, 0, 1⟩ (fun _ => 0) 0x81700000 [9, 9, 9, 9]
    (by decide +kernel)).mpr (Or.inl ⟨⟨[1, 2, 3], none⟩, rfl, rfl⟩)

/-- A file that cannot be opened leaves the original, and the parse succeeds. -/
theorem main_dol_kept :
    ¬ ∀ (src : PatchSource) (qsort : List FileReplacement → List FileReplacement)
      (settings : RrcSettingsfile) (mem : Memory) (mem1 : UInt32) (dol : List UInt8) (path : CStr),
      src.mainDol settings = some path →
        StagesReplacement src path (rrcRiivoPatchLoaderParse src qsort settings mem mem1 dol) := by
  intro h
  have hmain : (PatchSource.ofDocument mainDolDocument).mainDol ⟨0, 0, 1⟩ = some (lit "/main.dol") := by
    decide +kernel
  have hstages := h (PatchSource.ofDocument mainDolDocument) id ⟨0, 0, 1⟩ (fun _ => 0) 0x81700000 []
    (lit "/main.dol") hmain
  obtain ⟨file, hopen, -⟩ := hstages ((parse_ok_iff ..).mpr (by decide +kernel))
  cases hopen

end RrLauncher
