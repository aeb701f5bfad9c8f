/-
# Parsing the patches

`rrc_riivo_patch_loader_parse`: the options say which patches are active, the walk over
the document passes on what it finds, and at the end the arrays for the runtime are
published.

The array for the memory patches has `MAX_MEMORY_PATCHES` entries, and the loop that
fills it does not look at their number, so a document with more of them is accepted and
the entries behind the array are written (`memory_patches_overflow`).  With at most that
many the function stays inside (`memory_patches_inside_iff`).
-/

import RrLauncher.Loader.Mem1Arena
import RrLauncher.Settings.Settingsfile

namespace RrLauncher

open CStr (lit)
open Mem1 (LoaderState FileReplacement start run publish)

/-- What `fread`s of an open file get, and the `errno` if one of them fails. -/
structure ReadFile where
  bytes : List UInt8
  failed : Option ℕ

/-- What the function finds on the card: the XML document, or the null pointer where the
library cannot read it, the files and the folders.  Two more things are the library's:
what `mxmlFindElement` with `MXML_DESCEND_FIRST` finds from a place, and the order in which
it enumerates the elements of an index. -/
structure PatchSource where
  xml : Except ℕ (Option XmlNode)
  onCard : CStr → Bool
  opendir : CStr → Dir
  fopen : CStr → Except ℕ ReadFile
  findFirst : XmlPlace → CStr → Option XmlPlace
  index : XmlPlace → CStr → List XmlPlace
  index_perm : ∀ place name, (index place name).Perm (place.elements name)

/-- `mxmlIndexNew(xml_top, "option", NULL)`, which of the null pointer is empty. -/
def PatchSource.optionsIndex (src : PatchSource) : Option XmlNode → List XmlPlace
  | none => []
  | some xmlTop => src.index xmlTop.place (lit "option")

/-- The active patches: those of `My Stuff`, then those of the pack. -/
def activePatches (findFirst : XmlPlace → CStr → Option XmlPlace) (optionsIndex : List XmlPlace)
    (settings : RrcSettingsfile) : Except (Stdio.Stop RrcResultError) (List CStr) :=
  let (patchList, result) := rrcPatchLoaderAppendPatchesForOption findFirst optionsIndex
    (lit "My Stuff") (intOfU32 settings.myStuff) []
  match result with
  | .error stop => .error stop
  | .ok () =>
    let (patchList, result) := rrcPatchLoaderAppendPatchesForOption findFirst optionsIndex
      (lit "Pack") 1 patchList
    match result with
    | .error stop => .error stop
    | .ok () => .ok patchList

/-- `rrc_replace_main_dol`: the DOL, and what is returned. -/
def rrcReplaceMainDol (src : PatchSource) (dol : List UInt8) (mainDolReplacementPath : CStr) :
    List UInt8 × Except RrcResultError Unit :=
  match src.fopen mainDolReplacementPath with
  | .error errno =>
    (dol, .error (rrcResultCreateErrorErrno errno "Failed to open main.dol replacement file"))
  | .ok file =>
    let dol := file.bytes ++ dol.drop file.bytes.length
    match file.failed with
    | some errno =>
      (dol, .error (rrcResultCreateErrorErrno errno "Failed to read main.dol replacement"))
    | none => (dol, .ok ())

/-- How `rrc_riivo_patch_loader_parse` ends: its state, the DOL, what the runtime is given
and what is returned. -/
structure Parsed where
  state : LoaderState
  dol : List UInt8
  disc : Option Mem1.RrcRiivoDisc
  result : Except (Stdio.Stop RrcResultError) Unit

/-- The loops over the document; of the null pointer there is nothing to walk over. -/
def PatchSource.walk (src : PatchSource) (patches : List CStr) : Option XmlNode → Walk
  | none => .done
  | some xmlTop => parsePatches src.opendir src.findFirst src.index patches xmlTop

/-- The end of the function, after the loops.  The result of `rrc_replace_main_dol` is not
looked at. -/
def finishParse (src : PatchSource) (qsort : List FileReplacement → List FileReplacement)
    (s : LoaderState) (dol : List UInt8) : Parsed :=
  let dol :=
    match s.mainDolPath with
    | none => dol
    | some path => (rrcReplaceMainDol src dol path).1
  match publish qsort s with
  | none => ⟨s, dol, none, .error .halt⟩ -- "Too many SD files for Riivolution patch loader!"
  | some (s, disc) => ⟨s, dol, some disc, .ok ()⟩

/-- `rrc_riivo_patch_loader_parse`. -/
def rrcRiivoPatchLoaderParse (src : PatchSource)
    (qsort : List FileReplacement → List FileReplacement) (settings : RrcSettingsfile)
    (mem : Memory) (mem1 : UInt32) (dol : List UInt8) : Parsed :=
  let s := start mem mem1
  match src.xml with
  | .error errno =>
    ⟨s, dol, none, .error (.error (rrcResultCreateErrorErrno errno
      "Failed to open /RetroRewind6/xml/RetroRewind6.xml"))⟩
  | .ok xmlTop =>
    match activePatches src.findFirst (src.optionsIndex xmlTop) settings with
    | .error stop => ⟨s, dol, none, .error stop⟩
    | .ok patches =>
      let walk := src.walk patches xmlTop
      let s := run src.onCard s walk.steps
      match walk.stop with
      | some stop => ⟨s, dol, none, .error stop⟩
      | none => finishParse src qsort s dol

/-- All that comes before the end of the function: what the loops pass on, and the error that
they or the code before them end with. -/
def PatchSource.documentWalk (src : PatchSource) (settings : RrcSettingsfile) : Walk :=
  match src.xml with
  | .error errno =>
    .fail (.error (rrcResultCreateErrorErrno errno "Failed to open /RetroRewind6/xml/RetroRewind6.xml"))
  | .ok xmlTop =>
    match activePatches src.findFirst (src.optionsIndex xmlTop) settings with
    | .error stop => .fail stop
    | .ok patches => src.walk patches xmlTop

/-! ### The memory patches -/

/-- **The entries of the memory patches that are needed**: one for each `<memory>` element
with a value in an enabled patch, up to the first element that is rejected. -/
def PatchSource.entriesNeeded (src : PatchSource) (settings : RrcSettingsfile) : ℕ :=
  match src.xml with
  | .error _ => 0
  | .ok none => 0
  | .ok (some xmlTop) =>
    match activePatches src.findFirst (src.optionsIndex (some xmlTop)) settings with
    | .error _ => 0
    | .ok patches => RrLauncher.entriesNeeded src.findFirst src.index patches xmlTop

/-- The end of the parse publishes the tables and leaves the memory patches as they are. -/
theorem finishParse_memoryPart (src : PatchSource)
    (qsort : List FileReplacement → List FileReplacement) (s : LoaderState) (dol : List UInt8) :
    (finishParse src qsort s dol).state.memoryPart = s.memoryPart := by
  unfold finishParse
  dsimp only
  cases h : publish qsort s with
  | none => rfl
  | some out =>
    obtain ⟨s', disc⟩ := out
    obtain ⟨sd, rep, fil, -, -, -, rfl, -⟩ := Mem1.publish_some h
    rfl

/-- The end of the function succeeds where it publishes the tables. -/
theorem finishParse_ok (src : PatchSource) (qsort : List FileReplacement → List FileReplacement)
    {s : LoaderState} {dol : List UInt8} (hok : (finishParse src qsort s dol).result = .ok ()) :
    ∃ disc, publish qsort s = some ((finishParse src qsort s dol).state, disc) := by
  unfold finishParse at hok ⊢
  dsimp only at hok ⊢
  cases hpublish : publish qsort s with
  | none =>
    rw [hpublish] at hok
    cases hok
  | some out => exact ⟨out.2, rfl⟩

/-- The array for the memory patches is in MEM1 where the pointer did not wrap around, and has
room for as many patches as it has entries. -/
theorem room_start (onCard : CStr → Bool) (mem : Memory) (mem1 : UInt32) {steps : List LoaderStep}
    (hfits : (run onCard (start mem mem1) steps).arena.Fits) {n : ℕ} (hn : n ≤ maxMemoryPatches) :
    (start mem mem1).memPatches.toNat + sizeofMemoryPatch * n ≤ 2 ^ 32 := by
  -- the array was the first thing that was handed out
  obtain ⟨strings, -, hgrow⟩ := Mem1.grows_run onCard mem mem1 steps
  have hfirst : (⟨mem1, ⟨(start mem mem1).memPatches, 2048⟩, none⟩ : Memory.Allocation) ∈
      (run onCard (start mem mem1) steps).arena.allocations := by
    rw [hgrow]
    exact List.mem_append_left _ List.mem_cons_self
  have hroom : 2048 ≤ mem1.toNat := hfits _ hfirst
  have haddr : (mem1 - UInt32.ofNat 2048).toNat = mem1.toNat - 2048 := Memory.toNat_below hroom
  have hlt := mem1.toNat_lt
  show (mem1 - UInt32.ofNat 2048).toNat + 16 * n ≤ 2 ^ 32
  unfold maxMemoryPatches at hn
  omega

section Parse

variable (src : PatchSource) (qsort : List FileReplacement → List FileReplacement)
  (settings : RrcSettingsfile) (mem : Memory) (mem1 : UInt32) (dol : List UInt8)

/-- **The parse** is the walk and, where this comes to its end, the end of the function. -/
theorem parse_eq :
    rrcRiivoPatchLoaderParse src qsort settings mem mem1 dol =
      let s := run src.onCard (start mem mem1) (src.documentWalk settings).steps
      match (src.documentWalk settings).stop with
      | some stop => ⟨s, dol, none, .error stop⟩
      | none => finishParse src qsort s dol := by
  rw [rrcRiivoPatchLoaderParse, PatchSource.documentWalk]
  cases src.xml with
  | error errno => rfl
  | ok xmlTop =>
    dsimp only
    cases activePatches src.findFirst (src.optionsIndex xmlTop) settings with
    | error stop => rfl
    | ok patches => rfl

/-- The entries that are needed are the memory patches that the loops pass on. -/
theorem countP_isMemory_documentWalk :
    (src.documentWalk settings).steps.countP (·.isMemory) = src.entriesNeeded settings := by
  unfold PatchSource.documentWalk PatchSource.entriesNeeded
  cases src.xml with
  | error errno => rfl
  | ok xmlTop =>
    cases xmlTop with
    | none =>
      dsimp only
      split
      · rfl
      · rfl
    | some xmlTop =>
      dsimp only
      cases activePatches src.findFirst (src.optionsIndex (some xmlTop)) settings with
      | error stop => rfl
      | ok patches => exact countP_isMemory_parsePatches ..

/-- **The entries that are written** are the first ones, as many as are needed. -/
theorem parse_memoryPart :
    (rrcRiivoPatchLoaderParse src qsort settings mem mem1 dol).state.memoryPart =
      ((start mem mem1).memPatches, src.entriesNeeded settings,
        List.range (src.entriesNeeded settings)) := by
  have hrun := Mem1.run_memoryPart src.onCard mem mem1 (src.documentWalk settings).steps
  rw [countP_isMemory_documentWalk] at hrun
  rw [parse_eq]
  cases (src.documentWalk settings).stop with
  | some stop => exact hrun
  | none => exact (finishParse_memoryPart _ _ _ _).trans hrun

/-- A parse that succeeds published what some steps left, those that its walk over the document has
made. -/
theorem parse_ok (hok : (rrcRiivoPatchLoaderParse src qsort settings mem mem1 dol).result = .ok ()) :
    ∃ steps disc, publish qsort (run src.onCard (start mem mem1) steps) =
      some ((rrcRiivoPatchLoaderParse src qsort settings mem mem1 dol).state, disc) := by
  rw [parse_eq] at hok ⊢
  cases hstop : (src.documentWalk settings).stop with
  | some stop =>
    rw [hstop] at hok
    cases hok
  | none =>
    rw [hstop] at hok
    exact ⟨(src.documentWalk settings).steps, finishParse_ok src qsort hok⟩

/-- **MEM1 after a parse that succeeds**: where the pointer did not wrap around and the
memory patches fit, nothing overlaps. -/
theorem parse_inv (haligned : 32 ∣ mem1.toNat)
    (hok : (rrcRiivoPatchLoaderParse src qsort settings mem mem1 dol).result = .ok ())
    (hfits : (rrcRiivoPatchLoaderParse src qsort settings mem mem1 dol).state.arena.Fits)
    (hneeded : src.entriesNeeded settings ≤ maxMemoryPatches) :
    Mem1.Inv mem1 (start mem mem1).memPatches
      (rrcRiivoPatchLoaderParse src qsort settings mem mem1 dol).state.arena := by
  obtain ⟨steps, disc, hpublish⟩ := parse_ok src qsort settings mem mem1 dol hok
  have hpart := parse_memoryPart src qsort settings mem mem1 dol
  have hbase := congrArg Prod.fst hpart
  have hcount := congrArg (fun part => part.2.1) hpart
  dsimp only [LoaderState.memoryPart] at hbase hcount
  have hinv := Mem1.Inv.publish_run haligned hpublish hfits ?_
  · rwa [hbase] at hinv
  · rw [hbase, hcount]
    exact room_start src.onCard mem mem1 (hfits.of_prefix (Mem1.grows_publish hpublish)) hneeded

/-- **The memory patches stay inside their array** exactly if no more are needed than it
has entries. -/
theorem memory_patches_inside_iff :
    (let parsed := rrcRiivoPatchLoaderParse src qsort settings mem mem1 dol;
      (∀ i ∈ parsed.state.entriesWritten, i < maxMemoryPatches) ∧
      (parsed.result = .ok () → parsed.state.memPatchesCount ≤ maxMemoryPatches) ∧
      (maxMemoryPatches < src.entriesNeeded settings →
        ∃ e, parsed.result = .error (.error e))) ↔
      src.entriesNeeded settings ≤ maxMemoryPatches := by
  have hpart := parse_memoryPart src qsort settings mem mem1 dol
  have hcount := congrArg (fun part => part.2.1) hpart
  have hwritten := congrArg (fun part => part.2.2) hpart
  dsimp only [LoaderState.memoryPart] at hcount hwritten ⊢
  rw [hcount, hwritten]
  constructor
  · rintro ⟨hinside, -, -⟩
    by_contra hmore
    exact Nat.lt_irrefl _ (hinside maxMemoryPatches (List.mem_range.mpr (Nat.lt_of_not_le hmore)))
  · intro hle
    refine ⟨fun i hi => ?_, fun _ => hle, fun hlt => absurd hle (Nat.not_le_of_lt hlt)⟩
    exact Nat.lt_of_lt_of_le (List.mem_range.mp hi) hle

end Parse

/-- What the library makes of a document: it searches as Mini-XML does, and enumerates the
elements of an index in the order of the document.  There is nothing else on the card. -/
def PatchSource.ofDocument (xmlTop : XmlNode) : PatchSource where
  xml := .ok (some xmlTop)
  onCard _ := false
  opendir _ := .failed 2
  fopen _ := .error 2
  findFirst := XmlPlace.findFirst
  index place name := place.elements name
  index_perm _ _ := List.Perm.refl _

/-- A pack with one patch, which has `n` memory patches. -/
def memoryDocument (n : ℕ) : XmlNode :=
  .element (lit "wiidisc") []
    [.element (lit "option") [(lit "name", lit "Pack")]
      [.element (lit "choice") [] [.element (lit "patch") [(lit "id", lit "rr")] []]],
    .element (lit "patch") [(lit "id", lit "rr")]
      (List.replicate n
        (.element (lit "memory") [(lit "offset", lit "80001000"), (lit "value", lit "1")] []))]

/-- **The memory patches overflow** with a document that has 129 of them: all are written,
and the function succeeds. -/
theorem memory_patches_overflow :
    ¬ ∀ (src : PatchSource) (qsort : List FileReplacement → List FileReplacement)
      (settings : RrcSettingsfile) (mem : Memory) (mem1 : UInt32) (dol : List UInt8),
      let parsed := rrcRiivoPatchLoaderParse src qsort settings mem mem1 dol;
      (∀ i ∈ parsed.state.entriesWritten, i < maxMemoryPatches) ∧
      (parsed.result = .ok () → parsed.state.memPatchesCount ≤ maxMemoryPatches) ∧
      (maxMemoryPatches < src.entriesNeeded settings →
        ∃ e, parsed.result = .error (.error e)) := by
  intro h
  have hneeded : (PatchSource.ofDocument (memoryDocument 129)).entriesNeeded ⟨0, 0, 1⟩ = 129 := by
    decide +kernel
  have hwritten := congrArg (fun part => part.2.2) (parse_memoryPart
    (PatchSource.ofDocument (memoryDocument 129)) id ⟨0, 0, 1⟩ (fun _ => 0) 0x81700000 [])
  rw [hneeded] at hwritten
  dsimp only [LoaderState.memoryPart] at hwritten
  have hinside := (h (PatchSource.ofDocument (memoryDocument 129)) id ⟨0, 0, 1⟩ (fun _ => 0)
    0x81700000 []).1 128
  refine absurd (hinside ?_) (by decide)
  rw [hwritten]
  decide

end RrLauncher
