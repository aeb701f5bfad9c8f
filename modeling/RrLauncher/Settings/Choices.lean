/-
# The choices of an option

`xml_find_option_choices` of `settings.c`: the texts that the menu shows for an option,
of which the first is not in the XML, and the clamping of the saved value.
-/

import RrLauncher.Settings.Settingsfile
import RrLauncher.Shared.Xml

namespace RrLauncher

open CStr (lit)

/-- `RRC_SETTINGSFILE_DEFAULT`. -/
def rrcSettingsfileDefault : UInt32 := 0

/-- `INT_MAX`. -/
def intMax : ℕ := 2 ^ 31 - 1

/-- The loop of `xml_find_option_choices`: the nodes from `choice` on, and what was
stored in `out` so far. -/
def choicesLoop (count : ℕ) :
    List XmlNode → List CStr → Except (Stdio.Stop RrcResultError) (List CStr)
  | [], out => .ok out
  | choice :: siblings, out =>
    if ¬ choice.isElement then choicesLoop count siblings out
    else
      match choice.attr (lit "name") with
      | none => .error (.error (rrcResultCreateErrorCorruptedRrXml "choice has no name attribute"))
      | some choiceS =>
        if count + 1 ≤ out.length then
          .error (.error (rrcResultCreateErrorCorruptedRrXml "index has more elements than choices"))
        else if out.length = intMax then .error .halt -- `i++`
        else choicesLoop count siblings (out ++ [choiceS])

/-- `xml_find_option_choices`, where `position` places come before `node`: the choices,
and the saved value.  The choices are counted below the option, but searched from it up to
the top of the document, with whatever `findFirst` finds there. -/
def xmlFindOptionChoices (findFirst : XmlPlace → CStr → Option XmlPlace) (top : XmlPlace)
    (position : ℕ) (name : CStr) (savedValue : UInt32) :
    Except (Stdio.Stop RrcResultError) (List CStr × UInt32) :=
  match top.findElement position (lit "option") (lit "name") name with
  | none => .error (.error (rrcResultCreateErrorCorruptedRrXml "missing option in xml"))
  | some optionNode =>
    let count := (optionNode.elementsWith (lit "choice") (lit "name")).length
    match choicesLoop count (nodesFrom (findFirst optionNode (lit "choice"))) [lit "Disabled"] with
    | .error stop => .error stop
    | .ok out =>
      .ok (out, if out.length ≤ savedValue.toNat then rrcSettingsfileDefault else savedValue)

/-- **What the loop stores**: the names of the elements, which all have one. -/
theorem choicesLoop_ok {count : ℕ} {nodes : List XmlNode} {out out' : List CStr}
    (h : choicesLoop count nodes out = .ok out') (hint : out.length ≤ intMax) :
    out'.length ≤ intMax ∧ ∃ names, out' = out ++ names ∧
      (nodes.filter XmlNode.isElement).map (XmlNode.attr (lit "name")) = names.map some := by
  induction nodes generalizing out with
  | nil =>
    cases h
    exact ⟨hint, [], (List.append_nil _).symm, rfl⟩
  | cons choice siblings ih =>
    rw [choicesLoop] at h
    split at h
    · rename_i hother
      rw [List.filter_cons_of_neg hother]
      exact ih h hint
    · rename_i helem
      rw [not_not] at helem
      rw [List.filter_cons_of_pos helem, List.map_cons]
      split at h
      · cases h
      · rename_i choiceS hname
        split_ifs at h with hmany hmax
        have hlen : (out ++ [choiceS]).length ≤ intMax := by
          rw [List.length_append, List.length_singleton]
          omega
        obtain ⟨hint', names, rfl, hnames⟩ := ih h hlen
        refine ⟨hint', choiceS :: names, List.append_assoc _ _ _, ?_⟩
        rw [hname, hnames]
        rfl

/-- **The saved value is clamped**: whatever it was, and whatever the library finds for the
choices, there is a text for it. -/
theorem xmlFindOptionChoices_clamps {findFirst : XmlPlace → CStr → Option XmlPlace}
    {top : XmlPlace} {position : ℕ} {name : CStr} {savedValue saved : UInt32} {out : List CStr}
    (h : xmlFindOptionChoices findFirst top position name savedValue = .ok (out, saved)) :
    out.length ≤ intMax ∧ saved.toNat < out.length := by
  unfold xmlFindOptionChoices at h
  split at h
  · cases h
  dsimp only at h
  split at h
  · cases h
  rename_i out' hloop
  obtain ⟨hint, names, hout, -⟩ := choicesLoop_ok hloop (by decide)
  cases h
  refine ⟨hint, ?_⟩
  split_ifs with hbeyond
  · rw [hout]
    exact Nat.succ_pos _
  · exact Nat.lt_of_not_le hbeyond

end RrLauncher
