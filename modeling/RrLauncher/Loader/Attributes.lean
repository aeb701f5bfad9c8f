/-
# Attributes that are not there

The parse asks the elements of the document for their attributes.  Most of them it checks,
and returns an error where one is absent.  The name of an `<option>` and the id of a
`<patch>` of the document it gives to `strcmp` as they are, so where the first thing that
is wrong with a document is one of these, the run ends there and not with an error
(`absent_attributes_rejected_iff`).
-/

import RrLauncher.Loader.Parse
import RrLauncher.Options

namespace RrLauncher

open CStr (lit)
open Mem1 (FileReplacement)

/-- What the parse demands of the document at one place: an attribute, which it checks or does
not check, or something else, without which it returns an error. -/
inductive Demand
  | checked (element : XmlNode) (attr : CStr)
  | unchecked (element : XmlNode) (attr : CStr)
  | refused

namespace Demand

/-- The document meets the demand. -/
def met : Demand → Bool
  | checked element attr => (element.attr attr).isSome
  | unchecked element attr => (element.attr attr).isSome
  | refused => false

/-- The demand is for an attribute, and this is absent. -/
def Absent : Demand → Prop
  | checked element attr => element.attr attr = none
  | unchecked element attr => element.attr attr = none
  | refused => False

/-- A demand for an attribute that is not checked. -/
def isUnchecked : Demand → Bool
  | unchecked .. => true
  | _ => false

/-- A demand for an attribute that is absent is not met, wherever it is made. -/
theorem met_eq_false_of_absent {d : Demand} (h : d.Absent) : d.met = false := by
  cases d with
  | checked element attr => exact Option.isSome_eq_false_iff.mpr (Option.isNone_iff_eq_none.mpr h)
  | unchecked element attr => exact Option.isSome_eq_false_iff.mpr (Option.isNone_iff_eq_none.mpr h)
  | refused => rfl

/-- The first demand that is not met. -/
def firstUnmet (demands : List Demand) : Option Demand := demands.find? fun d => !d.met

end Demand

/-- An error of a document. -/
def IsCorruptedRrXml (stop : Stdio.Stop RrcResultError) : Prop :=
  ∃ context, stop = .error (rrcResultCreateErrorCorruptedRrXml context)

/-- **A run ends as its demands say**: for good where all are met, at `strcmp` where the first
that is not met is for an attribute that is not checked, and with an error of the document where
it is any other. -/
def Ends (demands : List Demand) (stop : Option (Stdio.Stop RrcResultError)) : Prop :=
  match Demand.firstUnmet demands with
  | none => stop = none
  | some (.unchecked ..) => stop = some .halt
  | some _ => ∃ e, stop = some e ∧ IsCorruptedRrXml e

/-- Where a demand is met the run goes on to the others. -/
theorem ends_cons_of_met {d : Demand} (hmet : d.met = true) (demands : List Demand)
    (stop : Option (Stdio.Stop RrcResultError)) : Ends (d :: demands) stop ↔ Ends demands stop := by
  rw [Ends, Ends, Demand.firstUnmet, List.find?_cons_of_neg (by simp [hmet])]
  rfl

/-- A run stops where the first part of it stops. -/
theorem Ends.append_left {demands : List Demand} {e : Stdio.Stop RrcResultError}
    (h : Ends demands (some e)) (later : List Demand) : Ends (demands ++ later) (some e) := by
  rw [Ends, Demand.firstUnmet, List.find?_append]
  unfold Ends Demand.firstUnmet at h
  cases hfind : demands.find? fun d => !d.met with
  | none =>
    rw [hfind] at h
    cases h
  | some d =>
    rw [hfind] at h
    exact h

/-- A run goes on where the first part of it goes on. -/
theorem Ends.append_right {demands : List Demand} (h : Ends demands none) (later : List Demand)
    (stop : Option (Stdio.Stop RrcResultError)) : Ends (demands ++ later) stop ↔ Ends later stop := by
  unfold Ends Demand.firstUnmet at *
  rw [List.find?_append]
  cases hfind : demands.find? fun d => !d.met with
  | none => rfl
  | some d =>
    rw [hfind] at h
    cases d with
    | checked element attr => obtain ⟨e, he, -⟩ := h; cases he
    | unchecked element attr => cases h
    | refused => obtain ⟨e, he, -⟩ := h; cases he

/-! ### The options -/

/-- The option with a name: the first of the index that has it. -/
def optionOf (index : List XmlPlace) (name : CStr) : Option XmlPlace :=
  index.find? fun option => option.node.attr (lit "name") = some name

/-- Of each patch its id, and room for it in the list, which has `count` ids. -/
def idDemands : List XmlNode → ℕ → List Demand
  | [], _ => []
  | patch :: rest, count =>
    .checked patch (lit "id") ::
      if maxEnabledSettings ≤ count then [.refused] else idDemands rest (count + 1)

section Search

variable (findFirst : XmlPlace → CStr → Option XmlPlace)

/-- The choice that a value stands for, among the elements that the library finds from an
option. -/
def choiceOf (option : XmlPlace) (value : ℤ) : Option XmlPlace :=
  if 0 < value then (choicesFound findFirst option)[(value - 1).toNat]? else none

/-- Of each option up to the one with the name its name; then this option, its choice and of
this the ids. -/
def optionDemands (index : List XmlPlace) (name : CStr) (value : ℤ) (count : ℕ) : List Demand :=
  if value = 0 then []
  else
    (index.takeWhile fun option => option.node.attr (lit "name") ≠ some name).map
        (fun option => .unchecked option.node (lit "name")) ++
      match optionOf index name with
      | none => [.refused]
      | some option =>
        match choiceOf findFirst option value with
        | none => [.refused]
        | some choice => idDemands (patchesFound findFirst choice) count

/-- The ids of the patches that a value of an option enables. -/
def enabledIds (index : List XmlPlace) (name : CStr) (value : ℤ) : List CStr :=
  if value = 0 then []
  else
    match (optionOf index name).bind (choiceOf findFirst · value) with
    | none => []
    | some choice => (patchesFound findFirst choice).filterMap (XmlNode.attr (lit "id"))

end Search

/-- How a routine ends that returns a `struct rrc_result`. -/
def stopOf : Except (Stdio.Stop RrcResultError) Unit → Option (Stdio.Stop RrcResultError)
  | .ok () => none
  | .error stop => some stop

/-- Collecting the patches of a choice asks for the `id` of each, in order, and stops at the first
one that has none or finds no room. -/
theorem appendPatches_ends (nodes : List XmlNode) (patchList : List CStr) :
    Ends (idDemands (nodes.filter (XmlNode.isNamed (lit "patch"))) patchList.length)
      (stopOf (appendPatches nodes patchList).2) := by
  induction nodes generalizing patchList with
  | nil => exact rfl
  | cons patch nodes ih =>
    rw [appendPatches]
    by_cases hnamed : patch.isNamed (lit "patch") = true
    · rw [List.filter_cons_of_pos hnamed, if_neg (not_not.mpr (XmlNode.isElement_of_isNamed hnamed)),
        if_neg (not_not.mpr hnamed), idDemands]
      cases hid : patch.attr (lit "id") with
      | none =>
        have hunmet : (Demand.checked patch (lit "id")).met = false := by rw [Demand.met, hid]; rfl
        rw [Ends, Demand.firstUnmet, List.find?_cons_of_pos (by simp [hunmet])]
        exact ⟨_, rfl, _, rfl⟩
      | some patchName =>
        rw [ends_cons_of_met (by rw [Demand.met, hid]; rfl)]
        dsimp only
        split
        · exact ⟨_, rfl, _, rfl⟩
        · have hrest := ih (patchList ++ [patchName])
          rwa [List.length_append] at hrest
    · rw [List.filter_cons_of_neg hnamed, if_pos hnamed, ite_self]
      exact ih patchList

section Search

variable {findFirst : XmlPlace → CStr → Option XmlPlace}

/-- The body of the loop over the index ends as the demands of the choice say, for which the
option must have a choice. -/
theorem appendPatchesForChoice_ends (option : XmlPlace) (value : ℤ) (patchList : List CStr) :
    Ends (match choiceOf findFirst option value with
        | none => [.refused]
        | some choice => idDemands (patchesFound findFirst choice) patchList.length)
      (stopOf (appendPatchesForChoice findFirst option value patchList).2) := by
  have hselect := selectChoice_eq value (siblingsFrom (findFirst option (lit "choice"))) 0
  rw [Int.natCast_zero, Int.sub_zero] at hselect
  rw [appendPatchesForChoice, hselect, choiceOf, choicesFound]
  cases if 0 < value then
      ((siblingsFrom (findFirst option (lit "choice"))).filter fun p =>
        p.node.isElement)[(value - 1).toNat]?
    else none with
  | none => exact ⟨_, rfl, _, rfl⟩
  | some choice => exact appendPatches_ends _ patchList

/-- The loop over the index ends as the demands of the option say: where an option without a
name comes first, at `strcmp`. -/
theorem findOption_ends (name : CStr) (value : ℤ) (hvalue : value ≠ 0) (patchList : List CStr)
    (index : List XmlPlace) :
    Ends (optionDemands findFirst index name value patchList.length)
      (stopOf (findOption findFirst name value patchList index).2) := by
  rw [optionDemands, if_neg hvalue]
  induction index with
  | nil => exact ⟨_, rfl, _, rfl⟩
  | cons option index ih =>
    rw [findOption, optionOf]
    cases hname : option.node.attr (lit "name") with
    | none =>
      have hunmet : (Demand.unchecked option.node (lit "name")).met = false := by
        rw [Demand.met, hname]; rfl
      rw [List.takeWhile_cons_of_pos (by simp [hname]), List.map_cons, List.cons_append, Ends,
        Demand.firstUnmet, List.find?_cons_of_pos (by simp [hunmet])]
      rfl
    | some optionName =>
      dsimp only
      by_cases heq : optionName = name
      · rw [if_pos heq, List.takeWhile_cons_of_neg (by simp [hname, heq]),
          List.find?_cons_of_pos (by simp [hname, heq])]
        exact appendPatchesForChoice_ends option value patchList
      · rw [if_neg heq, List.takeWhile_cons_of_pos (by simp [hname, heq]),
          List.find?_cons_of_neg (by simp [hname, heq]), List.map_cons, List.cons_append,
          ends_cons_of_met (by rw [Demand.met, hname]; rfl)]
        exact ih

/-- **The patches of an option** end as the demands of the option say. -/
theorem appendPatchesForOption_ends (findFirst : XmlPlace → CStr → Option XmlPlace)
    (index : List XmlPlace) (name : CStr) (value : ℤ)
    (patchList : List CStr) :
    Ends (optionDemands findFirst index name value patchList.length)
      (stopOf (rrcPatchLoaderAppendPatchesForOption findFirst index name value patchList).2) := by
  rw [rrcPatchLoaderAppendPatchesForOption]
  by_cases hvalue : value = 0
  · rw [if_pos hvalue, optionDemands, if_pos hvalue]
    exact rfl
  · rw [if_neg hvalue]
    exact findOption_ends name value hvalue patchList index

/-- What the loop over the index appends where it ends well: the ids of the patches of the
choice that the value stands for. -/
theorem findOption_ids {name : CStr} {value : ℤ} (hvalue : value ≠ 0) {patchList : List CStr}
    {index : List XmlPlace} (hok : (findOption findFirst name value patchList index).2 = .ok ()) :
    (findOption findFirst name value patchList index).1 =
      patchList ++ enabledIds findFirst index name value := by
  rw [enabledIds, if_neg hvalue]
  induction index with
  | nil => cases hok
  | cons option index ih =>
    rw [findOption] at hok ⊢
    cases hname : option.node.attr (lit "name") with
    | none =>
      rw [hname] at hok
      cases hok
    | some optionName =>
      rw [hname] at hok
      dsimp only at hok ⊢
      by_cases heq : optionName = name
      · rw [if_pos heq] at hok ⊢
        rw [optionOf, List.find?_cons_of_pos (by simp [hname, heq]), Option.bind_some]
        rcases appendPatchesForChoice_spec findFirst option hvalue patchList with ⟨-, herror⟩ |
          ⟨choice, hpos, hchoice, ⟨-, hids⟩ | herror | herror⟩
        · rw [herror] at hok
          cases hok
        · rw [hids, choiceOf, if_pos hpos, hchoice]
        · rw [herror] at hok
          cases hok
        · rw [herror] at hok
          cases hok
      · rw [if_neg heq] at hok ⊢
        rw [optionOf, List.find?_cons_of_neg (by simp [hname, heq])]
        exact ih hok

/-- **What is appended** for a value of an option where all goes well. -/
theorem appendPatchesForOption_ids {index : List XmlPlace} {name : CStr} {value : ℤ}
    {patchList : List CStr}
    (hok : (rrcPatchLoaderAppendPatchesForOption findFirst index name value patchList).2 = .ok ()) :
    (rrcPatchLoaderAppendPatchesForOption findFirst index name value patchList).1 =
      patchList ++ enabledIds findFirst index name value := by
  rw [rrcPatchLoaderAppendPatchesForOption] at hok ⊢
  by_cases hvalue : value = 0
  · rw [if_pos hvalue, enabledIds, if_pos hvalue, List.append_nil]
  · rw [if_neg hvalue] at hok ⊢
    exact findOption_ids hvalue hok

end Search

/-! ### The document -/

/-- What is demanded of an element that the loops come to. -/
def Visit.demands : Visit → List Demand
  | .nameless element => [.unchecked element (lit "id")]
  | .file element => [.checked element (lit "disc"), .checked element (lit "external")]
  | .folder element => [.checked element (lit "external")]
  | .memory element =>
    .checked element (lit "offset") ::
      match element.attr (lit "valuefile") with
      | some valuefile => if valuefile = rrcLoaderPulPath then [] else [.refused]
      | none => [.checked element (lit "value")]

/-- Where a required attribute is there, what follows decides how the walk ends; where it is
missing, the demand for it does. -/
theorem parseRequiredAttr_ends {element : XmlNode} {attr : String} (node : String)
    {rest : CStr → Walk} {demands : List Demand}
    (hrest : ∀ value, element.attr (lit attr) = some value → Ends demands (rest value).stop) :
    Ends (.checked element (lit attr) :: demands) (parseRequiredAttr element node attr rest).stop := by
  cases hattr : element.attr (lit attr) with
  | none =>
    have hunmet : (Demand.checked element (lit attr)).met = false := by rw [Demand.met, hattr]; rfl
    rw [Ends, Demand.firstUnmet, List.find?_cons_of_pos (by simp [hunmet]), parseRequiredAttr, hattr]
    exact ⟨_, rfl, _, rfl⟩
  | some value =>
    rw [ends_cons_of_met (by rw [Demand.met, hattr]; rfl), parseRequiredAttr_some hattr]
    exact hrest value hattr

section Patches

variable (opendir : CStr → Dir) (findFirst : XmlPlace → CStr → Option XmlPlace)
  (index : XmlPlace → CStr → List XmlPlace) (activePatches : List CStr)

/-- A `<patch>` that has no id is one whose id is absent. -/
def Visit.Proper : Visit → Prop
  | .nameless element => element.attr (lit "id") = none
  | _ => True

/-- **An element** ends as its demands say: with the error for the first of its attributes that is
missing or not supported, and otherwise without one of these errors. -/
theorem Visit.run_ends {v : Visit} (h : v.Proper) : Ends v.demands (v.run opendir).stop := by
  cases v with
  | nameless element =>
    have hunmet : (Demand.unchecked element (lit "id")).met = false := by
      rw [Demand.met, show element.attr (lit "id") = none from h]; rfl
    rw [Ends, Demand.firstUnmet, Visit.demands, List.find?_cons_of_pos (by simp [hunmet])]
    rfl
  | file element =>
    exact parseRequiredAttr_ends _ fun _ _ => parseRequiredAttr_ends _ fun _ _ => rfl
  | folder element => exact parseRequiredAttr_ends _ fun _ _ => rfl
  | memory element =>
    refine parseRequiredAttr_ends _ fun addr _ => ?_
    cases element.attr (lit "valuefile") with
    | some valuefile =>
      dsimp only
      split
      · exact rfl
      · exact ⟨_, rfl, _, rfl⟩
    | none => exact parseRequiredAttr_ends _ fun _ _ => rfl

/-- Only an id that is absent is compared with the null pointer. -/
theorem isEnabled_eq_none {patches : List CStr} {elemId : Option CStr}
    (h : isEnabled patches elemId = none) : elemId = none := by
  cases elemId with
  | none => rfl
  | some id => cases patches <;> cases h

/-- Every visit of the walk is a proper one: an element of a patch that was found under its id. -/
theorem proper_of_mem_visits {xmlTop : XmlNode} :
    ∀ v ∈ visits findFirst index activePatches xmlTop, v.Proper := by
  intro v hv
  obtain ⟨cur, -, hv⟩ := List.mem_flatMap.mp hv
  unfold visitsOf at hv
  split at hv
  · cases hv
  split at hv
  · rename_i hnone
    rw [List.mem_singleton.mp hv]
    exact isEnabled_eq_none hnone
  · cases hv
  · simp only [List.mem_append, List.mem_map] at hv
    rcases hv with ⟨e, -, rfl⟩ | ⟨e, -, rfl⟩ | ⟨e, -, rfl⟩ <;> exact trivial

/-- A loop ends as the demands of its elements say. -/
theorem ends_forEach {vs : List Visit} (h : ∀ v ∈ vs, v.Proper) :
    Ends (vs.flatMap Visit.demands) (Trace.forEach vs (Visit.run opendir)).stop := by
  induction vs with
  | nil => exact rfl
  | cons v rest ih =>
    rw [List.forall_mem_cons] at h
    have hfirst := Visit.run_ends opendir h.1
    rw [List.flatMap_cons, Trace.forEach, Trace.seq]
    cases hstop : (v.run opendir).stop with
    | none =>
      rw [hstop] at hfirst
      exact (hfirst.append_right _ _).mpr (ih h.2)
    | some e =>
      rw [hstop] at hfirst
      exact hfirst.append_left _

/-- **The walk over the patches** ends as their demands do: with an error at the first one that is
not met, and otherwise only with an error that is not about attributes. -/
theorem parsePatches_ends (xmlTop : XmlNode) :
    Ends ((visits findFirst index activePatches xmlTop).flatMap Visit.demands)
      (parsePatches opendir findFirst index activePatches xmlTop).stop := by
  rw [parsePatches_eq]
  exact ends_forEach opendir (proper_of_mem_visits findFirst index activePatches)

end Patches

/-! ### The parse -/

/-- The ids that the settings enable, those of the pack last. -/
def PatchSource.enabled (src : PatchSource) (settings : RrcSettingsfile)
    (xmlTop : Option XmlNode) : List CStr :=
  enabledIds src.findFirst (src.optionsIndex xmlTop) (lit "My Stuff")
      (intOfU32 settings.myStuff) ++
    enabledIds src.findFirst (src.optionsIndex xmlTop) (lit "Pack") 1

/-- **What the parse demands**, in the order in which it comes to it: the names of the options
and the ids of the patches of a choice, for `My Stuff` and for the pack, and then what it
demands of the elements of the document. -/
def PatchSource.demands (src : PatchSource) (settings : RrcSettingsfile) : List Demand :=
  match src.xml with
  | .error _ => []
  | .ok xmlTop =>
    let index := src.optionsIndex xmlTop
    let myStuff := intOfU32 settings.myStuff
    let findFirst := src.findFirst
    optionDemands findFirst index (lit "My Stuff") myStuff 0 ++
      (optionDemands findFirst index (lit "Pack") 1
          (enabledIds findFirst index (lit "My Stuff") myStuff).length ++
        match xmlTop with
        | none => []
        | some top =>
          (visits findFirst src.index (src.enabled settings xmlTop) top).flatMap Visit.demands)

/-- **The active patches** end as the demands of the options say, and are the enabled ones. -/
theorem documentWalk_ends (src : PatchSource) (settings : RrcSettingsfile)
    {xmlTop : Option XmlNode} (hxml : src.xml = .ok xmlTop) :
    Ends (src.demands settings) (src.documentWalk settings).stop := by
  rw [PatchSource.demands, PatchSource.documentWalk, hxml]
  dsimp only
  unfold activePatches
  have hmyStuff := appendPatchesForOption_ends src.findFirst
    (src.optionsIndex xmlTop) (lit "My Stuff") (intOfU32 settings.myStuff) []
  cases hout : rrcPatchLoaderAppendPatchesForOption src.findFirst (src.optionsIndex xmlTop)
      (lit "My Stuff") (intOfU32 settings.myStuff) [] with
  | mk patchList result =>
  rw [hout] at hmyStuff
  cases result with
  | error stop => exact hmyStuff.append_left _
  | ok done =>
  have hids := appendPatchesForOption_ids (congrArg Prod.snd hout)
  rw [hout, List.nil_append] at hids
  dsimp only at hids
  refine (hmyStuff.append_right _ _).mpr ?_
  have hpack := appendPatchesForOption_ends src.findFirst
    (src.optionsIndex xmlTop) (lit "Pack") 1 patchList
  dsimp only
  cases hout' : rrcPatchLoaderAppendPatchesForOption src.findFirst (src.optionsIndex xmlTop)
      (lit "Pack") 1 patchList with
  | mk patches result =>
  rw [hout', hids] at hpack
  cases result with
  | error stop => exact hpack.append_left _
  | ok done =>
  have hids' := appendPatchesForOption_ids (congrArg Prod.snd hout')
  rw [hout', hids] at hids'
  dsimp only at hids'
  refine (hpack.append_right _ _).mpr ?_
  cases xmlTop with
  | none => exact rfl
  | some top =>
    rw [hids']
    exact parsePatches_ends src.opendir src.findFirst src.index _ top

/-- No absent attribute is given to `strcmp`, and every one that the parse demands leads to an
error of the document. -/
def RejectsAbsent (src : PatchSource) (settings : RrcSettingsfile) (parsed : Parsed) : Prop :=
  (src.documentWalk settings).stop ≠ some .halt ∧
    ∀ d ∈ src.demands settings, d.Absent →
      ∃ stop, parsed.result = .error stop ∧ IsCorruptedRrXml stop

/-- **Absent attributes are rejected** exactly if the first demand that the document does not
meet, where there is one, is not for an attribute that goes unchecked. -/
theorem absent_attributes_rejected_iff (src : PatchSource)
    (qsort : List FileReplacement → List FileReplacement) (settings : RrcSettingsfile)
    (mem : Memory) (mem1 : UInt32) (dol : List UInt8) :
    RejectsAbsent src settings (rrcRiivoPatchLoaderParse src qsort settings mem mem1 dol) ↔
      ∀ d, Demand.firstUnmet (src.demands settings) = some d → d.isUnchecked = false := by
  rw [RejectsAbsent]
  cases hxml : src.xml with
  | error errno =>
    have hdemands : src.demands settings = [] := by rw [PatchSource.demands, hxml]
    have hstop : (src.documentWalk settings).stop ≠ some .halt := by
      rw [PatchSource.documentWalk, hxml]
      exact fun h => by cases h
    rw [hdemands]
    exact iff_of_true ⟨hstop, fun d hd => absurd hd List.not_mem_nil⟩ (fun d hd => by cases hd)
  | ok xmlTop =>
    have hends := documentWalk_ends src settings hxml
    unfold Ends at hends
    cases hfirst : Demand.firstUnmet (src.demands settings) with
    | none =>
      rw [hfirst] at hends
      have hmet : ∀ d ∈ src.demands settings, d.met = true := fun d hd => by
        simpa using List.find?_eq_none.mp hfirst d hd
      have hhalt : (src.documentWalk settings).stop ≠ some .halt := by
        rw [hends]
        exact fun h => by cases h
      refine iff_of_true ⟨hhalt, fun d hd habsent => ?_⟩ (fun d hd => by cases hd)
      have hunmet := Demand.met_eq_false_of_absent habsent
      rw [hmet d hd] at hunmet
      cases hunmet
    | some d =>
      rw [hfirst] at hends
      have hrejected : (∃ e, (src.documentWalk settings).stop = some e ∧ IsCorruptedRrXml e) →
          (src.documentWalk settings).stop ≠ some .halt ∧
            ∃ stop, (rrcRiivoPatchLoaderParse src qsort settings mem mem1 dol).result = .error stop ∧
              IsCorruptedRrXml stop := by
        rintro ⟨e, hstop, context, rfl⟩
        rw [parse_eq, hstop]
        exact ⟨(fun h => by cases h), _, rfl, context, rfl⟩
      cases d with
      | checked element attr =>
        obtain ⟨hhalt, herror⟩ := hrejected hends
        exact iff_of_true ⟨hhalt, fun _ _ _ => herror⟩ (fun d hd => by cases hd; rfl)
      | refused =>
        obtain ⟨hhalt, herror⟩ := hrejected hends
        exact iff_of_true ⟨hhalt, fun _ _ _ => herror⟩ (fun d hd => by cases hd; rfl)
      | unchecked element attr =>
        exact iff_of_false (fun h => h.1 hends) (fun h => by cases h _ rfl)

/-- A pack whose choice has no patches, a patch behind its option, and a patch of the document
that has no id. -/
def childlessDocument : XmlNode :=
  .element (lit "wiidisc") []
    [.element (lit "options") []
      [.element (lit "option") [(lit "name", lit "Pack")]
        [.element (lit "choice") [(lit "name", lit "Empty")] []],
        .element (lit "patch") [(lit "id", lit "a")] []],
    .element (lit "patch") [] []]

/-- From a choice without children the search of the library goes on behind the option, and what
it finds there is enabled.  So the id that is absent is compared, although the choice enables no
patch. -/
example :
    let src := PatchSource.ofDocument childlessDocument
    src.enabled ⟨0, 0, 1⟩ (some childlessDocument) = [lit "a"] ∧
      (Demand.firstUnmet (src.demands ⟨0, 0, 1⟩)).map Demand.isUnchecked = some true := by
  decide +kernel

/-- A pack with a patch, and a patch of the document that has no id. -/
def namelessDocument : XmlNode :=
  .element (lit "wiidisc") []
    [.element (lit "option") [(lit "name", lit "Pack")]
      [.element (lit "choice") [] [.element (lit "patch") [(lit "id", lit "rr")] []]],
    .element (lit "patch") [] []]

/-- **An absent id is compared** where a patch of the document has none. -/
theorem absent_attribute_compared :
    ¬ ∀ (src : PatchSource) (qsort : List FileReplacement → List FileReplacement)
      (settings : RrcSettingsfile) (mem : Memory) (mem1 : UInt32) (dol : List UInt8),
      RejectsAbsent src settings (rrcRiivoPatchLoaderParse src qsort settings mem mem1 dol) := by
  intro h
  exact (h (PatchSource.ofDocument namelessDocument) id ⟨0, 0, 1⟩ (fun _ => 0) 0x81700000 []).1
    (by decide +kernel)

end RrLauncher
