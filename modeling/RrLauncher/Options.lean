/-
# The menu and the patch loader

`xml_find_option_choices` and `rrc_patch_loader_append_patches_for_option` walk the same
row of nodes from an option: what the menu shows at an index is the name of the element
whose patches the loader appends for it (`appendPatchesForChoice_spec`).  Both begin with
what the library finds; that these are the children of the option, and the patches those of
the choice, is assumed where it is needed (`FindsChildren`).

The loader reaches the option through an index of all options, and reads the name of
each that comes before.  An `<option>` without a name there ends the run, although the
menu, which searches by name, has shown the choices (`menu_loader_nameless`).
-/

import RrLauncher.Loader.Options
import RrLauncher.Settings.Choices

namespace RrLauncher

open CStr (lit)

/-- The elements that the choices of an option are: the children of the option, from the
first `<choice>` on, that are elements. -/
def choiceElements (option : XmlNode) : List XmlNode :=
  (option.childrenFrom (lit "choice")).filter XmlNode.isElement

/-- The ids of the `<patch>` elements that are children of a choice, in the order of the
document. -/
def patchIds (choice : XmlNode) : List CStr :=
  (choice.children.filter (XmlNode.isNamed (lit "patch"))).filterMap (XmlNode.attr (lit "id"))

/-- The loop that looks for a choice finds the element at its place. -/
theorem selectChoice_eq (value : ℤ) (places : List XmlPlace) (i : ℕ) :
    selectChoice value places i =
      if (i : ℤ) < value then
        (places.filter fun p => p.node.isElement)[(value - 1 - i).toNat]?
      else none := by
  induction places generalizing i with
  | nil => simp [selectChoice]
  | cons place places ih =>
    rw [selectChoice]
    split
    · rename_i hother
      rw [List.filter_cons, if_neg hother, ih]
    · rename_i helem
      rw [not_not] at helem
      rw [List.filter_cons, if_pos helem]
      split
      · rename_i hi
        rw [if_pos (by omega), show (value - 1 - i).toNat = 0 by omega]
        rfl
      · rename_i hi
        rw [show (i : ℤ) + 1 = ((i + 1 : ℕ) : ℤ) from rfl, ih]
        split_ifs with h₁ h₂ h₂
        · rw [show (value - 1 - i).toNat = (value - 1 - (i + 1 : ℕ)).toNat + 1 by omega,
            List.getElem?_cons_succ]
        · omega
        · omega
        · rfl

/-- **What the loop over the patches does**: it appends the ids of the patches, unless
one has none or the list is full. -/
theorem appendPatches_spec (nodes : List XmlNode) (patchList : List CStr) :
    let r := appendPatches nodes patchList
    (r.2 = .ok () ∧ r.1 = patchList ++
        (nodes.filter (XmlNode.isNamed (lit "patch"))).filterMap (XmlNode.attr (lit "id"))) ∨
      r.2 = .error (.error patchWithoutId) ∨ r.2 = .error (.error tooManySettings) := by
  induction nodes generalizing patchList with
  | nil => exact Or.inl ⟨rfl, (List.append_nil _).symm⟩
  | cons patch nodes ih =>
    have hskip : ¬ patch.isNamed (lit "patch") = true →
        (patch :: nodes).filter (XmlNode.isNamed (lit "patch")) =
          nodes.filter (XmlNode.isNamed (lit "patch")) := List.filter_cons_of_neg
    rw [appendPatches]
    split
    · rename_i hother
      rw [hskip fun hnamed => hother (XmlNode.isElement_of_isNamed hnamed)]
      exact ih patchList
    split
    · rename_i hforeign
      rw [hskip hforeign]
      exact ih patchList
    rename_i hnamed
    rw [not_not] at hnamed
    split
    · exact Or.inr (Or.inl rfl)
    · rename_i patchName hid
      split
      · exact Or.inr (Or.inr rfl)
      · rw [List.filter_cons_of_pos hnamed, List.filterMap_cons_some hid]
        simpa only [List.append_assoc, List.singleton_append] using ih (patchList ++ [patchName])

section Search

variable (findFirst : XmlPlace → CStr → Option XmlPlace)

/-- The places at which the loader counts choices: the elements of the row that begins with
what the library finds from the option. -/
def choicesFound (option : XmlPlace) : List XmlPlace :=
  (siblingsFrom (findFirst option (lit "choice"))).filter fun p => p.node.isElement

/-- The `<patch>` elements of the row that begins with what the library finds from a
choice. -/
def patchesFound (choice : XmlPlace) : List XmlNode :=
  (nodesFrom (findFirst choice (lit "patch"))).filter (XmlNode.isNamed (lit "patch"))

variable {findFirst}

/-- Where the search from an option stays inside of it, its choices are those children of
it that are elements. -/
theorem map_choicesFound {option : XmlPlace}
    (hfinds : FindsChildren findFirst option (lit "choice")) :
    (choicesFound findFirst option).map XmlPlace.node = choiceElements option.node := by
  rw [choiceElements, ← hfinds, nodesFrom, List.filter_map]
  rfl

/-- Where the search from a choice stays inside of it, the ids are those of its children. -/
theorem patchIds_of_findsChildren {choice : XmlPlace}
    (hfinds : FindsChildren findFirst choice (lit "patch")) :
    (patchesFound findFirst choice).filterMap (XmlNode.attr (lit "id")) = patchIds choice.node := by
  rw [patchesFound, hfinds, XmlNode.filter_childrenFrom, patchIds]

variable (findFirst)

/-- **What the loader does with the choice** of a value that is not 0: for one that is
not there it returns an error and appends nothing, otherwise it appends the ids of the
patches that it finds from the element in that place. -/
theorem appendPatchesForChoice_spec (option : XmlPlace) {value : ℤ} (hvalue : value ≠ 0)
    (patchList : List CStr) :
    let r := appendPatchesForChoice findFirst option value patchList
    ((value < 0 ∨ (choicesFound findFirst option).length < value) ∧
        r = (patchList, .error (.error choiceNotFound))) ∨
      (∃ choice, 0 < value ∧ (choicesFound findFirst option)[(value - 1).toNat]? = some choice ∧
        ((r.2 = .ok () ∧
            r.1 = patchList ++
              (patchesFound findFirst choice).filterMap (XmlNode.attr (lit "id"))) ∨
          r.2 = .error (.error patchWithoutId) ∨ r.2 = .error (.error tooManySettings))) := by
  have hselect := selectChoice_eq value (siblingsFrom (findFirst option (lit "choice"))) 0
  rw [Int.natCast_zero, Int.sub_zero] at hselect
  unfold appendPatchesForChoice choicesFound patchesFound
  rw [hselect]
  split_ifs with hpos
  · cases hchoice : ((siblingsFrom (findFirst option (lit "choice"))).filter fun p =>
        p.node.isElement)[(value - 1).toNat]? with
    | none =>
      have := List.getElem?_eq_none_iff.mp hchoice
      exact Or.inl ⟨Or.inr (by omega), rfl⟩
    | some choice => exact Or.inr ⟨choice, hpos, rfl, appendPatches_spec _ patchList⟩
  · exact Or.inl ⟨Or.inl (by omega), rfl⟩

/-- Every option that comes before the one with the name has a name. -/
def NamedBefore (name : CStr) (index : List XmlPlace) : Prop :=
  ∀ option ∈ index.takeWhile fun option => option.node.attr (lit "name") ≠ some name,
    (option.node.attr (lit "name")).isSome

/-- **The loop over the index** ends at the option with the name, or at one without a
name before it. -/
theorem findOption_spec {name : CStr} {index : List XmlPlace} {option : XmlPlace}
    (honce : (index.filter fun e => e.node.attr (lit "name") = some name) = [option]) (value : ℤ)
    (patchList : List CStr) :
    (NamedBefore name index ∧
        findOption findFirst name value patchList index =
          appendPatchesForChoice findFirst option value patchList) ∨
      (¬ NamedBefore name index ∧
        findOption findFirst name value patchList index = (patchList, .error .halt)) := by
  unfold NamedBefore
  induction index with
  | nil => cases honce
  | cons e index ih =>
    rw [findOption]
    cases hname : e.node.attr (lit "name") with
    | none =>
      refine Or.inr ⟨fun h => ?_, rfl⟩
      have := h e (by simp [hname])
      rw [hname] at this
      cases this
    | some optionName =>
      dsimp only
      split_ifs with heq
      · subst heq
        rw [List.filter_cons_of_pos (by simp [hname])] at honce
        obtain ⟨rfl, -⟩ := List.cons.inj honce
        exact Or.inl ⟨by simp [hname], rfl⟩
      · rw [List.filter_cons_of_neg (by simp [hname, heq])] at honce
        rw [List.takeWhile_cons_of_pos (by simp [hname, heq]), List.forall_mem_cons, hname,
          Option.isSome_some, eq_self, true_and]
        exact ih honce

end Search

/-- **What the menu and the loader agree on** for a saved value `v`, where the menu shows
`shown` and the loader leaves the list and the result `r`. -/
structure Agree (option : XmlNode) (shown : List CStr) (v : UInt32) (patchList : List CStr)
    (r : List CStr × Except (Stdio.Stop RrcResultError) Unit) : Prop where
  choice : 1 ≤ v.toNat → v.toNat < shown.length →
    r.2 ≠ .error .halt ∧ r.2 ≠ .error (.error optionNotFound) ∧
      r.2 ≠ .error (.error choiceNotFound) ∧
      ∃ choice, (choiceElements option)[v.toNat - 1]? = some choice ∧
        choice.attr (lit "name") = shown[v.toNat]? ∧
        (r.2 = .ok () → r.1 = patchList ++ patchIds choice)
  disabled : v = 0 → r = (patchList, .ok ())
  beyond : shown.length ≤ v.toNat → r.1 = patchList ∧ ∃ e, r.2 = .error (.error e)

section Agreement

variable {findFirst : XmlPlace → CStr → Option XmlPlace}

/-- What the menu shows are the names of the elements that it finds from the option, after
one text of its own. -/
theorem xmlFindOptionChoices_ok {top : XmlPlace} {position : ℕ} {name : CStr} {v saved : UInt32}
    {shown : List CStr}
    (h : xmlFindOptionChoices findFirst top position name v = .ok (shown, saved)) :
    shown.length ≤ intMax ∧ ∃ option names,
      option ∈ (top.elements (lit "option")).filter
        (fun e => e.node.attr (lit "name") = some name) ∧
      shown = lit "Disabled" :: names ∧
      ((nodesFrom (findFirst option (lit "choice"))).filter XmlNode.isElement).map
        (XmlNode.attr (lit "name")) = names.map some := by
  unfold xmlFindOptionChoices at h
  split at h
  · cases h
  rename_i option hfind
  dsimp only at h
  split at h
  · cases h
  rename_i out hloop
  cases h
  obtain ⟨hint, names, rfl, hnames⟩ := choicesLoop_ok hloop (by decide)
  refine ⟨hint, option, names, ?_, rfl, hnames⟩
  unfold XmlPlace.findElement at hfind
  have hmem := List.mem_of_mem_drop (List.mem_of_find?_eq_some hfind)
  have hfits := List.find?_some hfind
  rw [Bool.and_eq_true, decide_eq_true_iff] at hfits
  unfold XmlPlace.elements
  simp only [List.mem_filter, decide_eq_true_iff]
  exact ⟨⟨hmem, hfits.1⟩, hfits.2⟩

/-- Only zero becomes zero when the bits are read as an `int`. -/
theorem intOfU32_ne_zero {v : UInt32} (hv : v ≠ 0) : intOfU32 v ≠ 0 := by
  have hpos : v.toNat ≠ 0 := fun h => hv (UInt32.toNat_inj.mp h)
  have hlt := v.toNat_lt
  unfold intOfU32
  split_ifs <;> omega

/-- A value that is positive as an `int` is the same number. -/
theorem intOfU32_of_pos {v : UInt32} (h : 0 < intOfU32 v) : intOfU32 v = v.toNat := by
  have hlt := v.toNat_lt
  unfold intOfU32 at h ⊢
  split_ifs at h ⊢ <;> omega

/-- The name of a choice is the text that the menu shows for it. -/
theorem choice_shown {choices : List XmlNode} {names : List CStr} {i : ℕ} {choice : XmlNode}
    (hnames : choices.map (XmlNode.attr (lit "name")) = names.map some)
    (hchoice : choices[i]? = some choice) : choice.attr (lit "name") = names[i]? := by
  have hsame := congrArg (·[i]?) hnames
  simp only [List.getElem?_map, hchoice, Option.map_some] at hsame
  cases hname : names[i]? with
  | none =>
    rw [hname] at hsame
    cases hsame
  | some shownName =>
    rw [hname] at hsame
    exact Option.some.inj hsame

/-- **The choice that is looked up** is the one that the menu shows. -/
theorem agree_appendPatchesForChoice {option : XmlPlace} {names : List CStr}
    (hchoices : FindsChildren findFirst option (lit "choice"))
    (hpatches : ∀ choice ∈ choicesFound findFirst option,
      FindsChildren findFirst choice (lit "patch"))
    (hnames : (choiceElements option.node).map (XmlNode.attr (lit "name")) = names.map some)
    (hint : names.length + 1 ≤ intMax) {v : UInt32} (hv : v ≠ 0) (patchList : List CStr) :
    Agree option.node (lit "Disabled" :: names) v patchList
      (appendPatchesForChoice findFirst option (intOfU32 v) patchList) := by
  have hfound := map_choicesFound hchoices
  have hlen : (choicesFound findFirst option).length = names.length := by
    rw [← hfound, List.map_map] at hnames
    have hmap := congrArg List.length hnames
    rwa [List.length_map, List.length_map] at hmap
  have hspec := appendPatchesForChoice_spec findFirst option (intOfU32_ne_zero hv) patchList
  refine ⟨fun hpos hlt => ?_, fun h => absurd h hv, fun hge => ?_⟩
  · rw [List.length_cons] at hlt
    have hmax : intMax = 2 ^ 31 - 1 := rfl
    have hcast : intOfU32 v = v.toNat := if_pos (by omega)
    rw [hcast] at hspec ⊢
    rcases hspec with ⟨habsent, -⟩ | ⟨choice, -, hchoice, hspec⟩
    · omega
    rw [show ((v.toNat : ℤ) - 1).toNat = v.toNat - 1 by omega] at hchoice
    have hinside := hpatches choice (List.mem_of_getElem? hchoice)
    have helement : (choiceElements option.node)[v.toNat - 1]? = some choice.node := by
      rw [← hfound, List.getElem?_map, hchoice]
      rfl
    have hshown : choice.node.attr (lit "name") = (lit "Disabled" :: names)[v.toNat]? := by
      rw [show v.toNat = v.toNat - 1 + 1 by omega, List.getElem?_cons_succ]
      exact choice_shown hnames helement
    rcases hspec with ⟨hok, hids⟩ | herror | herror
    · rw [hok]
      rw [patchIds_of_findsChildren hinside] at hids
      exact ⟨nofun, nofun, nofun, choice.node, helement, hshown, fun _ => hids⟩
    · rw [herror]
      exact ⟨nofun, by decide, by decide, choice.node, helement, hshown, nofun⟩
    · rw [herror]
      exact ⟨nofun, by decide, by decide, choice.node, helement, hshown, nofun⟩
  · rw [List.length_cons] at hge
    rcases hspec with ⟨-, h⟩ | ⟨choice, hvpos, hchoice, -⟩
    · rw [h]
      exact ⟨rfl, _, rfl⟩
    · have hbound := (List.getElem?_eq_some_iff.mp hchoice).1
      have hcast := intOfU32_of_pos hvpos
      omega

/-- **The menu and the loader agree** just if every option that the index has before the
one they are about has a name, or the value is 0; where the searches from the option and
from its choices stay inside of these. -/
theorem menu_loader_agree_iff {top option : XmlPlace} {name : CStr} {index : List XmlPlace}
    (hindex : index.Perm (top.elements (lit "option")))
    (honce : ((top.elements (lit "option")).filter fun e => e.node.attr (lit "name") = some name) =
      [option])
    (hchoices : FindsChildren findFirst option (lit "choice"))
    (hpatches : ∀ choice ∈ choicesFound findFirst option,
      FindsChildren findFirst choice (lit "patch"))
    {position : ℕ} {v saved : UInt32} {shown : List CStr}
    (hmenu : xmlFindOptionChoices findFirst top position name v = .ok (shown, saved))
    (patchList : List CStr) :
    Agree option.node shown v patchList
        (rrcPatchLoaderAppendPatchesForOption findFirst index name (intOfU32 v) patchList) ↔
      v = 0 ∨ NamedBefore name index := by
  obtain ⟨hint, e, names, hmem, rfl, hnames⟩ := xmlFindOptionChoices_ok hmenu
  rw [honce, List.mem_singleton] at hmem
  subst hmem
  rw [hchoices] at hnames
  have honce' : (index.filter fun e => e.node.attr (lit "name") = some name) = [e] := by
    have hperm := hindex.filter fun e => e.node.attr (lit "name") = some name
    rw [honce] at hperm
    exact List.perm_singleton.mp hperm
  rw [List.length_cons] at hint
  unfold rrcPatchLoaderAppendPatchesForOption
  by_cases hv : v = 0
  · subst hv
    rw [if_pos (by decide)]
    refine iff_of_true ⟨fun h => absurd h (by decide), fun _ => rfl, fun h => ?_⟩ (Or.inl rfl)
    rw [List.length_cons] at h
    exact absurd h (Nat.not_succ_le_zero _)
  rw [if_neg (intOfU32_ne_zero hv), or_iff_right hv]
  rcases findOption_spec findFirst honce' (intOfU32 v) patchList with ⟨hnamed, h⟩ | ⟨hnameless, h⟩ <;> rw [h]
  · exact iff_of_true
      (agree_appendPatchesForChoice hchoices hpatches hnames hint hv patchList) hnamed
  · refine iff_of_false (fun hagree => ?_) hnameless
    have hpos : 1 ≤ v.toNat := Nat.pos_of_ne_zero fun h => hv (UInt32.toNat_inj.mp h)
    rcases Nat.lt_or_ge v.toNat (lit "Disabled" :: names).length with hlt | hge
    · exact (hagree.choice hpos hlt).1 rfl
    · obtain ⟨-, e, herror⟩ := hagree.beyond hge
      cases herror

end Agreement

/-- An option with one choice, as the document of the pack has it, with blanks between the
elements. -/
def myStuffOption : XmlNode :=
  .element (lit "option") [(lit "name", lit "My Stuff")]
    [.other, .element (lit "choice") [(lit "name", lit "Retro Rewind")]
      [.other, .element (lit "patch") [(lit "id", lit "RRLoad")] []], .other]

/-- A document with some options. -/
def optionsDocument (options : List XmlNode) : XmlNode :=
  .element (lit "wiidisc") [] [.element (lit "options") [] [.element (lit "section") [] options]]

/-- Where an option with blanks and one choice is. -/
def myStuffPlace : XmlPlace := ⟨myStuffOption, [], [[], [], []]⟩

/-- The searches of the library from this option and from its choice stay inside of them. -/
theorem findsChildren_myStuffPlace :
    FindsChildren XmlPlace.findFirst myStuffPlace (lit "choice") ∧
      ∀ choice ∈ choicesFound XmlPlace.findFirst myStuffPlace,
        FindsChildren XmlPlace.findFirst choice (lit "patch") := by
  refine ⟨findsChildren_findFirst rfl _, fun choice hchoice => ?_⟩
  obtain rfl := List.mem_singleton.mp hchoice
  exact findsChildren_findFirst rfl _

/-- The menu and the loader with one option and its only choice. -/
theorem menu_loader_agree_iff_my_stuff :
    Agree myStuffOption [lit "Disabled", lit "Retro Rewind"] 1 []
      (rrcPatchLoaderAppendPatchesForOption XmlPlace.findFirst [myStuffPlace] (lit "My Stuff")
        (intOfU32 1) []) := by
  obtain ⟨hchoices, hpatches⟩ := findsChildren_myStuffPlace
  have hmenu : xmlFindOptionChoices XmlPlace.findFirst (optionsDocument [myStuffOption]).place 1
      (lit "My Stuff") 1 = .ok ([lit "Disabled", lit "Retro Rewind"], 1) := rfl
  refine (menu_loader_agree_iff (List.Perm.refl [myStuffPlace]) rfl hchoices hpatches hmenu
    []).mpr (Or.inr ?_)
  intro option (hoption : option ∈ [])
  cases hoption

/-- **An option without a name** in front of the one that the menu shows ends the run of
the loader, although the searches from that one stay inside of it. -/
theorem menu_loader_nameless :
    let top := (optionsDocument [.element (lit "option") [] [], myStuffOption]).place
    ((top.elements (lit "option")).filter fun e => e.node.attr (lit "name") = some (lit "My Stuff")) =
        [myStuffPlace] ∧
      FindsChildren XmlPlace.findFirst myStuffPlace (lit "choice") ∧
      (∀ choice ∈ choicesFound XmlPlace.findFirst myStuffPlace,
        FindsChildren XmlPlace.findFirst choice (lit "patch")) ∧
      xmlFindOptionChoices XmlPlace.findFirst top 1 (lit "My Stuff") 1 =
        .ok ([lit "Disabled", lit "Retro Rewind"], 1) ∧
      ¬ Agree myStuffOption [lit "Disabled", lit "Retro Rewind"] 1 []
        (rrcPatchLoaderAppendPatchesForOption XmlPlace.findFirst (top.elements (lit "option"))
          (lit "My Stuff") (intOfU32 1) []) := by
  refine ⟨rfl, findsChildren_myStuffPlace.1, findsChildren_myStuffPlace.2, rfl, fun hagree => ?_⟩
  exact (hagree.choice (by decide) (by decide)).1 rfl

end RrLauncher
