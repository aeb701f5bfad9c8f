/-
# The walk over the patches

The loops of `rrc_riivo_patch_loader_parse` over the `<patch>` elements and, in those
that are enabled, over their `<file>`, `<folder>` and `<memory>` elements, with the walk
over a folder.  What is found is passed on to routines that return nothing, so the walk
is modelled as the trace of what it passes on (`LoaderStep`).

The `<patch>` elements are those of the row that begins with what the library finds from
the top of the document, which is a parameter.  The elements of a patch are found with
`mxmlIndexNew` and `mxmlIndexEnum`, in an arbitrary order.

The loops are one loop over all elements, in the order in which they come (`visits`), up
to the first that is rejected (`steps_parsePatches`).
-/

import RrLauncher.Lib.CText
import RrLauncher.Lib.Hex
import RrLauncher.Lib.Trace
import RrLauncher.Loader.FilePatch
import RrLauncher.Loader.Options

namespace RrLauncher

open CStr (lit)

/-- `struct rrc_riivo_memory_patch`; `original` is `none` where `original_init` is not
set. -/
structure RrcRiivoMemoryPatch where
  addr : UInt32
  value : UInt32
  original : Option UInt32
  deriving DecidableEq

/-- What the walk passes on. -/
inductive LoaderStep
  | file (r : Registration)
  | loaderPul (dest : UInt32)
  | memory (patch : RrcRiivoMemoryPatch)

mutual

/-- What `opendir` of a path gives. -/
inductive Dir
  | failed (errno : ℕ)
  | opened (entries : List Dirent)

/-- `struct dirent`, for a directory with what `opendir` of its path gives. -/
inductive Dirent
  | reg (name : CStr)
  | dir (name : CStr) (below : Dir)
  | other (name : CStr)

end

/-- `RRC_LOADER_PUL_PATH`. -/
def rrcLoaderPulPath : CStr := lit "/RetroRewind6/Binaries/Loader.pul"

/-! ### Folders -/

/-- `_rrc_riivo_combine_paths`. -/
def rrcRiivoCombinePaths (left right : CStr) (outSz : ℕ) : CStr :=
  if left.first = 0 then (right.take outSz).lower
  else if right.first = 0 then (left.take outSz).lower
  else
    let leftEndsWithSlash := left.bytes.getLast? = some slash
    let right := if right.first = slash then right.advance else right
    ((left ++ (if leftEndsWithSlash then lit "" else lit "/") ++ right).fit outSz).lower

/-- The path of an entry of a folder. -/
def entryPath (path name : CStr) : CStr := rrcRiivoCombinePaths path name (path.len + name.len + 2)

/-- The two entries of a folder that are no files of it: `"."` and `".."`. -/
def isDots (name : CStr) : Bool := name = lit "." || name = lit ".."

mutual

/-- `_rrc_riivo_handle_folder_patch`. -/
def rrcRiivoHandleFolderPatch (discPath externalPath : CStr) (recursive : Bool) :
    Dir → Trace RrcResultError LoaderStep
  | .failed errno => .fail (rrcResultCreateErrorErrno errno "Failed to open folder")
  | .opened entries => folderEntries discPath externalPath recursive entries

/-- The loop over the entries. -/
def folderEntries (discPath externalPath : CStr) (recursive : Bool) :
    List Dirent → Trace RrcResultError LoaderStep
  | [] => .done
  | entry :: rest =>
    (folderEntry discPath externalPath recursive entry).seq
      (folderEntries discPath externalPath recursive rest)

/-- The body of the loop. -/
def folderEntry (discPath externalPath : CStr) (recursive : Bool) :
    Dirent → Trace RrcResultError LoaderStep
  | .reg name =>
    if isDots name then .done
    else .emit (.file ⟨entryPath discPath name, entryPath externalPath name, false⟩)
  | .dir name below =>
    if isDots name then .done
    else if recursive then
      rrcRiivoHandleFolderPatch (entryPath discPath name) (entryPath externalPath name) true below
    else .done
  | .other _ => .done

end

/-! ### Elements -/

/-- The loops end with an error, or for good. -/
abbrev Walk := Trace (Stdio.Stop RrcResultError) LoaderStep

/-- `return rrc_result_create_error_corrupted_rr_xml(context)`. -/
def corruptedRrXml (context : String) : Walk :=
  .fail (.error (rrcResultCreateErrorCorruptedRrXml context))

/-- `PARSE_REQUIRED_ATTR`. -/
def parseRequiredAttr (element : XmlNode) (node attr : String) (rest : CStr → Walk) : Walk :=
  match element.attr (lit attr) with
  | none => corruptedRrXml ("missing " ++ attr ++ " attribute on " ++ node ++ " replacement")
  | some value => rest value

/-- The body of the loop over the `<file>` elements. -/
def parseFile (file : XmlNode) : Walk :=
  parseRequiredAttr file "file" "disc" fun discPath =>
    parseRequiredAttr file "file" "external" fun externalPath =>
      .emit (.file ⟨discPath.lower, externalPath.lower, true⟩)

/-- The body of the loop over the `<folder>` elements, where the result of the walk over the
folder is not looked at. -/
def parseFolder (opendir : CStr → Dir) (folder : XmlNode) : Walk :=
  let discPath := (folder.attr (lit "disc")).getD (lit "")
  parseRequiredAttr folder "folder" "external" fun externalPath =>
    let recursive :=
      match folder.attr (lit "recursive") with
      | none => true
      | some recursive => recursive = lit "true"
    (rrcRiivoHandleFolderPatch discPath externalPath recursive (opendir externalPath)).ignoring

/-- The bytes of a string as characters. -/
def textOf (s : CStr) : String := String.ofList (s.bytes.map fun c => Char.ofNat c.toNat)

/-- The body of the loop over the `<memory>` elements. -/
def parseMemory (memory : XmlNode) : Walk :=
  parseRequiredAttr memory "memory" "offset" fun addr =>
    match memory.attr (lit "valuefile") with
    | some valuefile =>
      if valuefile = rrcLoaderPulPath then .emit (.loaderPul (Hex.strtoul addr.bytes))
      else
        corruptedRrXml (textOf
          ((lit "Unsupported valuefile '" ++ valuefile ++ lit "' in memory patch").fit 128))
    | none =>
      parseRequiredAttr memory "memory" "value" fun value =>
        .emit (.memory ⟨Hex.strtoul addr.bytes, Hex.strtoul value.bytes,
          (memory.attr (lit "original")).map fun original => Hex.strtoul original.bytes⟩)

/-- The loop that looks for the id of a patch among the active ones; `none` is a comparison
with the null pointer. -/
def isEnabled (activePatches : List CStr) (elemId : Option CStr) : Option Bool :=
  match activePatches, elemId with
  | [], _ => some false
  | _ :: _, none => none
  | activePatches, some elemId => some (activePatches.contains elemId)

section Patches

variable (opendir : CStr → Dir) (findFirst : XmlPlace → CStr → Option XmlPlace)
  (index : XmlPlace → CStr → List XmlPlace) (activePatches : List CStr)

/-- What `mxmlIndexEnum` gives for the elements with a name below a patch. -/
def enumerate (cur : XmlPlace) (name : CStr) : List XmlNode := (index cur name).map XmlPlace.node

/-- The body of the loop over the `<patch>` elements. -/
def parsePatch (cur : XmlPlace) : Walk :=
  if ¬ cur.node.isElement then .done
  else if ¬ cur.node.isNamed (lit "patch") then .done
  else
    match isEnabled activePatches (cur.node.attr (lit "id")) with
    | none => .fail .halt
    | some false => .done
    | some true =>
      (Trace.forEach (enumerate index cur (lit "file")) parseFile).seq
        ((Trace.forEach (enumerate index cur (lit "folder")) (parseFolder opendir)).seq
          (Trace.forEach (enumerate index cur (lit "memory")) parseMemory))

/-- The loop over the `<patch>` elements, which begins with
`mxmlFindElement(xml_top, xml_top, "patch", ..)`. -/
def parsePatches (xmlTop : XmlNode) : Walk :=
  Trace.forEach (siblingsFrom (findFirst xmlTop.place (lit "patch")))
    (parsePatch opendir index activePatches)

/-! ### One loop -/

/-- An element that the loops come to. -/
inductive Visit
  | nameless (element : XmlNode)
  | file (element : XmlNode)
  | folder (element : XmlNode)
  | memory (element : XmlNode)

/-- What is done for an element. -/
def Visit.run : Visit → Walk
  | .nameless _ => .fail .halt
  | .file element => parseFile element
  | .folder element => parseFolder opendir element
  | .memory element => parseMemory element

/-- Whether the loops go on after an element. -/
def Visit.accepted : Visit → Bool
  | .nameless _ => false
  | .file element => (element.attr (lit "disc")).isSome && (element.attr (lit "external")).isSome
  | .folder element => (element.attr (lit "external")).isSome
  | .memory element =>
    (element.attr (lit "offset")).isSome &&
      match element.attr (lit "valuefile") with
      | some valuefile => valuefile = rrcLoaderPulPath
      | none => (element.attr (lit "value")).isSome

/-- Whether an element gives an entry of the memory patches, where it is accepted. -/
def Visit.fillsEntry : Visit → Bool
  | .memory element => (element.attr (lit "valuefile")).isNone
  | _ => false

/-- The elements of a node that the loop over the patches comes to. -/
def visitsOf (cur : XmlPlace) : List Visit :=
  if ¬ cur.node.isNamed (lit "patch") then []
  else
    match isEnabled activePatches (cur.node.attr (lit "id")) with
    | none => [.nameless cur.node]
    | some false => []
    | some true =>
      (enumerate index cur (lit "file")).map .file ++
        ((enumerate index cur (lit "folder")).map .folder ++
          (enumerate index cur (lit "memory")).map .memory)

/-- **The elements** that the loops come to if nothing is rejected, in order. -/
def visits (xmlTop : XmlNode) : List Visit :=
  (siblingsFrom (findFirst xmlTop.place (lit "patch"))).flatMap (visitsOf index activePatches)

/-- The loops of a patch, one for each kind of element, are one loop over its elements. -/
theorem parsePatch_eq (cur : XmlPlace) :
    parsePatch opendir index activePatches cur =
      Trace.forEach (visitsOf index activePatches cur) (Visit.run opendir) := by
  unfold parsePatch visitsOf
  by_cases hnamed : cur.node.isNamed (lit "patch") = true
  · rw [if_neg (not_not.mpr (XmlNode.isElement_of_isNamed hnamed)), if_neg (not_not.mpr hnamed),
      if_neg (not_not.mpr hnamed)]
    split
    · rfl
    · rfl
    · rw [Trace.forEach_append, Trace.forEach_append, Trace.forEach_map, Trace.forEach_map,
        Trace.forEach_map]
      rfl
  · rw [if_pos hnamed, if_pos hnamed, ite_self]
    rfl

/-- **All loops are one loop**: the nested walk over patches, their elements and the kinds of these
is one walk over a list of visits. -/
theorem parsePatches_eq (xmlTop : XmlNode) :
    parsePatches opendir findFirst index activePatches xmlTop =
      Trace.forEach (visits findFirst index activePatches xmlTop) (Visit.run opendir) := by
  unfold parsePatches visits
  rw [Trace.forEach_flatMap]
  exact Trace.forEach_congr fun cur _ => parsePatch_eq opendir index activePatches cur

/-- A required attribute that is there is handed to what follows. -/
theorem parseRequiredAttr_some {element : XmlNode} {attr : String} {value : CStr}
    (h : element.attr (lit attr) = some value) (node : String) (rest : CStr → Walk) :
    parseRequiredAttr element node attr rest = rest value := by
  rw [parseRequiredAttr, h]

/-- A required attribute that is missing ends the walk at once, with an error and nothing
registered. -/
theorem parseRequiredAttr_none {element : XmlNode} {attr : String}
    (h : element.attr (lit attr) = none) (node : String) (rest : CStr → Walk) :
    (parseRequiredAttr element node attr rest).steps = [] ∧
      (parseRequiredAttr element node attr rest).stop ≠ none := by
  rw [parseRequiredAttr, h]
  exact ⟨rfl, nofun⟩

/-- After an element that is accepted the loops go on, as it makes no error. -/
theorem Visit.run_accepted {v : Visit} (h : v.accepted = true) : (v.run opendir).stop = none := by
  cases v with
  | nameless element => cases h
  | file element =>
    obtain ⟨hdisc, hexternal⟩ := (Bool.and_eq_true _ _).mp h
    obtain ⟨disc, hdisc⟩ := Option.isSome_iff_exists.mp hdisc
    obtain ⟨external, hexternal⟩ := Option.isSome_iff_exists.mp hexternal
    rw [Visit.run, parseFile, parseRequiredAttr_some hdisc, parseRequiredAttr_some hexternal]
    rfl
  | folder element =>
    obtain ⟨external, hexternal⟩ := Option.isSome_iff_exists.mp h
    rw [Visit.run, parseFolder, parseRequiredAttr_some hexternal]
    rfl
  | memory element =>
    obtain ⟨hoffset, hrest⟩ := (Bool.and_eq_true _ _).mp h
    obtain ⟨offset, hoffset⟩ := Option.isSome_iff_exists.mp hoffset
    rw [Visit.run, parseMemory, parseRequiredAttr_some hoffset]
    cases hfile : element.attr (lit "valuefile") with
    | some valuefile =>
      rw [hfile] at hrest
      dsimp only
      rw [if_pos (of_decide_eq_true hrest)]
      rfl
    | none =>
      rw [hfile] at hrest
      obtain ⟨value, hvalue⟩ := Option.isSome_iff_exists.mp hrest
      rw [parseRequiredAttr_some hvalue]
      rfl

/-- An element that is not accepted registers nothing, and ends the walk at once with its error. -/
theorem Visit.run_rejected {v : Visit} (h : v.accepted = false) :
    (v.run opendir).steps = [] ∧ (v.run opendir).stop ≠ none := by
  cases v with
  | nameless element => exact ⟨rfl, nofun⟩
  | file element =>
    rw [Visit.run, parseFile]
    cases hdisc : element.attr (lit "disc") with
    | none => exact parseRequiredAttr_none hdisc _ _
    | some disc =>
      rw [parseRequiredAttr_some hdisc]
      refine parseRequiredAttr_none ?_ _ _
      simpa [Visit.accepted, hdisc] using h
  | folder element => exact parseRequiredAttr_none (by simpa [Visit.accepted] using h) _ _
  | memory element =>
    rw [Visit.run, parseMemory]
    cases hoffset : element.attr (lit "offset") with
    | none => exact parseRequiredAttr_none hoffset _ _
    | some offset =>
      rw [parseRequiredAttr_some hoffset]
      cases hfile : element.attr (lit "valuefile") with
      | some valuefile =>
        have hne : valuefile ≠ rrcLoaderPulPath := by
          simpa [Visit.accepted, hoffset, hfile] using h
        dsimp only
        rw [if_neg hne]
        exact ⟨rfl, nofun⟩
      | none => exact parseRequiredAttr_none (by simpa [Visit.accepted, hoffset, hfile] using h) _ _

/-- **What the loops do**: the work of the elements before the first that is rejected. -/
theorem steps_parsePatches (xmlTop : XmlNode) :
    (parsePatches opendir findFirst index activePatches xmlTop).steps =
      ((visits findFirst index activePatches xmlTop).takeWhile Visit.accepted).flatMap fun v =>
        (v.run opendir).steps := by
  rw [parsePatches_eq]
  exact Trace.steps_forEach (fun _ => Visit.run_accepted opendir)
    (fun _ => Visit.run_rejected opendir) _

/-- Whether a step fills an entry of the memory patches. -/
def LoaderStep.isMemory : LoaderStep → Bool
  | .memory _ => true
  | _ => false

/-- The registration that a step is. -/
def LoaderStep.registration? : LoaderStep → Option Registration
  | .file r => some r
  | _ => none

mutual

/-- **The walk over a folder** registers files only, so it fills no entry of the memory patches. -/
theorem isMemory_folderPatch (discPath externalPath : CStr) (recursive : Bool) (dir : Dir) :
    ∀ step ∈ (rrcRiivoHandleFolderPatch discPath externalPath recursive dir).steps,
      step.isMemory = false := by
  intro step hstep
  match dir with
  | .failed errno =>
    rw [rrcRiivoHandleFolderPatch] at hstep
    cases hstep
  | .opened entries =>
    rw [rrcRiivoHandleFolderPatch] at hstep
    exact isMemory_folderEntries discPath externalPath recursive entries step hstep

/-- A walk over a list of directory entries registers files only, and no memory patch. -/
theorem isMemory_folderEntries (discPath externalPath : CStr) (recursive : Bool)
    (entries : List Dirent) :
    ∀ step ∈ (folderEntries discPath externalPath recursive entries).steps,
      step.isMemory = false := by
  intro step hstep
  match entries with
  | [] =>
    rw [folderEntries] at hstep
    cases hstep
  | entry :: rest =>
    rw [folderEntries] at hstep
    rcases Trace.mem_steps_seq hstep with hentry | hrest
    · exact isMemory_folderEntry discPath externalPath recursive entry step hentry
    · exact isMemory_folderEntries discPath externalPath recursive rest step hrest

/-- The same for one entry: a file, or a folder that is walked in turn. -/
theorem isMemory_folderEntry (discPath externalPath : CStr) (recursive : Bool) (entry : Dirent) :
    ∀ step ∈ (folderEntry discPath externalPath recursive entry).steps,
      step.isMemory = false := by
  intro step hstep
  match entry with
  | .reg name =>
    rw [folderEntry] at hstep
    split at hstep
    · cases hstep
    · obtain rfl := List.mem_singleton.mp hstep
      rfl
  | .dir name below =>
    rw [folderEntry] at hstep
    split at hstep
    · cases hstep
    split at hstep
    · exact isMemory_folderPatch _ _ true below step hstep
    · cases hstep
  | .other name =>
    rw [folderEntry] at hstep
    cases hstep

end

/-- An accepted element fills one entry of the memory patches if it is such a patch with a value,
and none otherwise. -/
theorem Visit.countP_isMemory {v : Visit} (h : v.accepted = true) :
    (v.run opendir).steps.countP LoaderStep.isMemory = if v.fillsEntry then 1 else 0 := by
  cases v with
  | nameless element => cases h
  | file element =>
    obtain ⟨hdisc, hexternal⟩ := (Bool.and_eq_true _ _).mp h
    obtain ⟨disc, hdisc⟩ := Option.isSome_iff_exists.mp hdisc
    obtain ⟨external, hexternal⟩ := Option.isSome_iff_exists.mp hexternal
    rw [Visit.run, parseFile, parseRequiredAttr_some hdisc, parseRequiredAttr_some hexternal]
    rfl
  | folder element =>
    obtain ⟨external, hexternal⟩ := Option.isSome_iff_exists.mp h
    rw [Visit.run, parseFolder, parseRequiredAttr_some hexternal]
    refine List.countP_eq_zero.mpr fun step hstep => ?_
    rw [isMemory_folderPatch _ _ _ _ step hstep]
    exact Bool.false_ne_true
  | memory element =>
    obtain ⟨hoffset, hrest⟩ := (Bool.and_eq_true _ _).mp h
    obtain ⟨offset, hoffset⟩ := Option.isSome_iff_exists.mp hoffset
    rw [Visit.run, parseMemory, parseRequiredAttr_some hoffset, Visit.fillsEntry]
    cases hfile : element.attr (lit "valuefile") with
    | some valuefile =>
      rw [hfile] at hrest
      dsimp only
      rw [if_pos (of_decide_eq_true hrest)]
      rfl
    | none =>
      rw [hfile] at hrest
      obtain ⟨value, hvalue⟩ := Option.isSome_iff_exists.mp hrest
      dsimp only
      rw [parseRequiredAttr_some hvalue]
      rfl

/-- How many entries the document needs: those of the elements before the first that is
rejected. -/
def entriesNeeded (xmlTop : XmlNode) : ℕ :=
  ((visits findFirst index activePatches xmlTop).takeWhile Visit.accepted).countP Visit.fillsEntry

/-- **The walk fills as many entries** as the document needs. -/
theorem countP_isMemory_parsePatches (xmlTop : XmlNode) :
    (parsePatches opendir findFirst index activePatches xmlTop).steps.countP LoaderStep.isMemory =
      entriesNeeded findFirst index activePatches xmlTop := by
  have hacc : ∀ v ∈ (visits findFirst index activePatches xmlTop).takeWhile Visit.accepted,
      v.accepted = true := fun v hv => List.mem_takeWhile_imp hv
  rw [steps_parsePatches, entriesNeeded]
  generalize (visits findFirst index activePatches xmlTop).takeWhile Visit.accepted = vs at hacc ⊢
  induction vs with
  | nil => rfl
  | cons v rest ih =>
    rw [List.forall_mem_cons] at hacc
    rw [List.flatMap_cons, List.countP_append, Visit.countP_isMemory opendir hacc.1, ih hacc.2,
      List.countP_cons, Nat.add_comm]

end Patches

end RrLauncher
