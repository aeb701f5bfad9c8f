/-
# The patches of an option

`rrc_patch_loader_append_patches_for_option` of `riivo_patch_loader.c`: the ids of the
patches that the chosen choice of an option enables are appended to a list.

The elements of the index have an arbitrary order.  The name of each is compared with
`strcmp`; for an `<option>` without a name that is the null pointer, and the run ends.

The choices are searched from the option, and the patches from the choice that was
selected, each time up to the top of the document, so where an option or a choice has no
children the library may find elements that are not below it.  The search is therefore a
parameter (`findFirst`).
-/

import RrLauncher.Shared.Result
import RrLauncher.Shared.Xml

namespace RrLauncher

open CStr (lit)

/-- `MAX_ENABLED_SETTINGS`. -/
def maxEnabledSettings : ℕ := 64

/-- No option has the name. -/
def optionNotFound : RrcResultError := rrcResultCreateErrorCorruptedRrXml "option not found in xml"

/-- The option has no such choice. -/
def choiceNotFound : RrcResultError :=
  rrcResultCreateErrorCorruptedRrXml "choice option has no children"

/-- A patch of the choice has no id. -/
def patchWithoutId : RrcResultError :=
  rrcResultCreateErrorCorruptedRrXml "<patch> without an id encountered"

/-- The list of the patches is full; `RRC_STRINGIFY` does not expand its argument. -/
def tooManySettings : RrcResultError :=
  rrcResultCreateErrorCorruptedRrXml "Attempted to enable more than MAX_ENABLED_SETTINGS settings!"

/-- A `u32` that is passed as an `int`. -/
def intOfU32 (v : UInt32) : ℤ := if v.toNat < 2 ^ 31 then v.toNat else v.toNat - 2 ^ 32

/-- The loop that looks for the choice: the places from `selected_choice` on, and `i`,
which counts the elements among them.  The loop does not ask for their names. -/
def selectChoice (value : ℤ) : List XmlPlace → ℤ → Option XmlPlace
  | [], _ => none
  | selectedChoice :: siblings, i =>
    if ¬ selectedChoice.node.isElement then selectChoice value siblings i
    else if i = value - 1 then some selectedChoice
    else selectChoice value siblings (i + 1)

/-- The loop over the patches of the choice: the list, and what the loop returns. -/
def appendPatches : List XmlNode → List CStr → List CStr × Except (Stdio.Stop RrcResultError) Unit
  | [], patchList => (patchList, .ok ())
  | patch :: siblings, patchList =>
    if ¬ patch.isElement then appendPatches siblings patchList
    else if ¬ patch.isNamed (lit "patch") then appendPatches siblings patchList
    else
      match patch.attr (lit "id") with
      | none => (patchList, .error (.error patchWithoutId))
      | some patchName =>
        if maxEnabledSettings ≤ patchList.length then (patchList, .error (.error tooManySettings))
        else appendPatches siblings (patchList ++ [patchName])

section Search

variable (findFirst : XmlPlace → CStr → Option XmlPlace)

/-- The body of the loop over the index, for the option with the name: the two searches,
`mxmlFindElement(option, top, "choice", ..)` and
`mxmlFindElement(selected_choice, top, "patch", ..)`, and the loops that begin with what
they find. -/
def appendPatchesForChoice (option : XmlPlace) (value : ℤ) (patchList : List CStr) :
    List CStr × Except (Stdio.Stop RrcResultError) Unit :=
  match selectChoice value (siblingsFrom (findFirst option (lit "choice"))) 0 with
  | none => (patchList, .error (.error choiceNotFound))
  | some selectedChoice =>
    appendPatches (nodesFrom (findFirst selectedChoice (lit "patch"))) patchList

/-- The loop over the index, up to the first option with the name. -/
def findOption (name : CStr) (value : ℤ) (patchList : List CStr) :
    List XmlPlace → List CStr × Except (Stdio.Stop RrcResultError) Unit
  | [] => (patchList, .error (.error optionNotFound))
  | option :: index =>
    match option.node.attr (lit "name") with
    | none => (patchList, .error .halt) -- `strcmp(NULL, name)`
    | some optionName =>
      if optionName = name then appendPatchesForChoice findFirst option value patchList
      else findOption name value patchList index

/-- `rrc_patch_loader_append_patches_for_option`: the list, and what is returned. -/
def rrcPatchLoaderAppendPatchesForOption (index : List XmlPlace) (name : CStr) (value : ℤ)
    (patchList : List CStr) : List CStr × Except (Stdio.Stop RrcResultError) Unit :=
  if value = 0 then (patchList, .ok ()) else findOption findFirst name value patchList index

end Search

end RrLauncher
