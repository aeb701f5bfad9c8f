/-
# The service of a description

A description is a text with `<service>` blocks in it.  `rr_fetch_control_url` searches it
from a block on for the tags of the type and of the control URL, and these searches can end
in a later block.  The comparisons with the end of the block leave such a find out, so the
service that is taken is the first block that offers one (`service_selection`).
-/

import RrLauncher.Net.ControlUrl

namespace RrLauncher

open CStr (lit)

/-! ### Descriptions -/

/-- The tags of a block. -/
def serviceTags : List CStr := [lit "<service>", lit "</service>"]

/-- The tags that are searched for. -/
def searchedTags : List CStr :=
  serviceTags ++
    [lit "<serviceType>", lit "</serviceType>", lit "<controlURL>", lit "</controlURL>"]

/-- A text in which some tags do not occur. -/
abbrev TextWithout (tags : List CStr) : Type :=
  {text : CStr // ∀ tag ∈ tags, ¬ tag.bytes <:+: text.bytes}

/-- The elements of a block that are asked for. -/
inductive ElementName
  | serviceType
  | controlUrl
  deriving DecidableEq

/-- The tag in front of an element. -/
def ElementName.startTag : ElementName → CStr
  | serviceType => lit "<serviceType>"
  | controlUrl => lit "<controlURL>"

/-- The tag behind an element. -/
def ElementName.endTag : ElementName → CStr
  | serviceType => lit "</serviceType>"
  | controlUrl => lit "</controlURL>"

/-- An element with a text in which no tag begins. -/
structure Element where
  name : ElementName
  text : CStr
  noTag : 60 ∉ text.bytes

/-- An element between its tags. -/
def Element.render (element : Element) : CStr :=
  element.name.startTag ++ element.text ++ element.name.endTag

/-- Elements, each with what stands behind it. -/
def renderElements {tags : List CStr} : List (Element × TextWithout tags) → CStr
  | [] => lit ""
  | (element, text) :: elements => element.render ++ (text.val ++ renderElements elements)

/-- A block: elements that are asked for, with any others in the texts between them. -/
structure ServiceBlock where
  first : TextWithout searchedTags
  elements : List (Element × TextWithout searchedTags)

/-- A block between its tags. -/
def ServiceBlock.render (block : ServiceBlock) : CStr :=
  lit "<service>" ++ (block.first.val ++ renderElements block.elements) ++ lit "</service>"

/-- Blocks, each with what stands behind it. -/
def renderBlocks : List (ServiceBlock × TextWithout serviceTags) → CStr
  | [] => lit ""
  | (block, text) :: blocks => block.render ++ (text.val ++ renderBlocks blocks)

/-- A description: blocks, and texts between them. -/
structure Description where
  first : TextWithout serviceTags
  blocks : List (ServiceBlock × TextWithout serviceTags)

/-- The text of a description. -/
def Description.render (desc : Description) : CStr := desc.first.val ++ renderBlocks desc.blocks

/-- The text of an element of the block; of several the first counts. -/
def ServiceBlock.textOf (block : ServiceBlock) (name : ElementName) : Option CStr :=
  (block.elements.find? (·.1.name = name)).map (·.1.text)

/-- A block offers a service: it has a type and a control URL, both are short enough, and the
type is one of those that are looked for. -/
structure ServiceBlock.Offers (block : ServiceBlock) (serviceType url : CStr) : Prop where
  hasType : block.textOf .serviceType = some serviceType
  hasUrl : block.textOf .controlUrl = some url
  wan : (lit "WANIPConnection").bytes <:+: serviceType.bytes ∨
    (lit "WANPPPConnection").bytes <:+: serviceType.bytes
  typeFits : serviceType.len < 128
  urlFits : url.len < 256

/-! ### Tags -/

/-- A tag begins with `<`, and has no other, so the next `<` behind it begins something else. -/
theorem tag_cases : ∀ tag ∈ searchedTags, ∃ name, tag.bytes = 60 :: name ∧ 60 ∉ name := by
  intro tag htag
  refine ⟨tag.bytes.tail, ?_⟩
  revert tag
  decide

/-- No tag begins with another one, so at one place only one of the searched tags can stand. -/
theorem tag_incomparable : ∀ tag ∈ searchedTags, ∀ tag' ∈ searchedTags, tag ≠ tag' →
    ¬ tag.bytes <+: tag'.bytes := by
  decide

/-- The opening tag of each element is one of the tags that the scan of a block asks for. -/
theorem startTag_mem (name : ElementName) : name.startTag ∈ searchedTags := by
  cases name <;> decide

/-- The closing tag of each element is one of the tags that the scan of a block asks for. -/
theorem endTag_mem (name : ElementName) : name.endTag ∈ searchedTags := by
  cases name <;> decide

/-- The opening tag of an element differs from both tags of any other element, so a search for it
goes past that other one. -/
theorem startTag_ne {name name' : ElementName} (h : name' ≠ name) :
    name.startTag ≠ name'.startTag ∧ name.startTag ≠ name'.endTag := by
  revert h
  cases name <;> cases name' <;> decide

/-- The opening tag of an element is not that of a block, so a block does not look like an element.
-/
theorem startTag_ne_service (name : ElementName) : name.startTag ≠ lit "<service>" := by
  cases name <;> decide

section Search

variable {tag : CStr}

/-- A search for a tag goes over another one, wherever that stands. -/
theorem clear_tag (htag : tag ∈ searchedTags) {tag' : CStr} (htag' : tag' ∈ searchedTags)
    (hne : tag ≠ tag') (rest : List UInt8) : Search.Clear tag.bytes tag'.bytes rest := by
  have h := tag_incomparable tag htag tag' htag' hne
  have h' := tag_incomparable tag' htag' tag htag hne.symm
  obtain ⟨name, hname, -⟩ := tag_cases tag htag
  obtain ⟨name', hname', hclear⟩ := tag_cases tag' htag'
  rw [hname, hname'] at h h' ⊢
  exact Search.clear_of_incomparable hclear h h' rest

/-- It goes over a text in which no tag begins. -/
theorem clear_text (htag : tag ∈ searchedTags) {text : List UInt8} (htext : 60 ∉ text)
    (rest : List UInt8) : Search.Clear tag.bytes text rest := by
  obtain ⟨name, hname, -⟩ := tag_cases tag htag
  rw [hname]
  exact Search.clear_of_head htext rest

/-- It goes over a text without the tag, where a tag or nothing follows. -/
theorem clear_textWithout (htag : tag ∈ searchedTags) {tags : List CStr} (text : TextWithout tags)
    (hmem : tag ∈ tags) {rest : List UInt8} (hrest : ∀ c ∈ rest.head?, c = 60) :
    Search.Clear tag.bytes text.val.bytes rest := by
  have htext := text.property tag hmem
  obtain ⟨name, hname, hclear⟩ := tag_cases tag htag
  rw [hname] at htext ⊢
  exact Search.clear_of_not_infix hclear hrest htext

/-- Elements one after the other are rendered one after the other. -/
theorem renderElements_append {tags : List CStr} (a b : List (Element × TextWithout tags)) :
    (renderElements (a ++ b)).bytes = (renderElements a).bytes ++ (renderElements b).bytes := by
  induction a with
  | nil => rfl
  | cons element a ih =>
    obtain ⟨element, behind⟩ := element
    simp only [List.cons_append, renderElements, CStr.append_bytes, ih, List.append_assoc]

/-- An element begins with `<`, so no text in front of it can run into it. -/
theorem head_render (element : Element) (rest : List UInt8) :
    ∀ c ∈ (element.render.bytes ++ rest).head?, c = 60 := by
  obtain ⟨name, text, -⟩ := element
  intro c hc
  cases name <;> exact (Option.some.inj hc).symm

/-- Elements in a row begin with `<`, and where there are none what follows them is asked to. -/
theorem head_renderElements {tags : List CStr} (elements : List (Element × TextWithout tags))
    {rest : List UInt8} (hrest : ∀ c ∈ rest.head?, c = 60) :
    ∀ c ∈ ((renderElements elements).bytes ++ rest).head?, c = 60 := by
  cases elements with
  | nil => exact hrest
  | cons element elements =>
    obtain ⟨element, behind⟩ := element
    rw [renderElements, CStr.append_bytes, List.append_assoc]
    exact head_render element _

/-- **It goes over elements** with other tags: a search for a tag does not stop inside of them, as
their texts have none of the searched ones. -/
theorem clear_elements (htag : tag ∈ searchedTags)
    (elements : List (Element × TextWithout searchedTags))
    (hother : ∀ element ∈ elements, tag ≠ element.1.name.startTag ∧ tag ≠ element.1.name.endTag)
    {rest : List UInt8} (hrest : ∀ c ∈ rest.head?, c = 60) :
    Search.Clear tag.bytes (renderElements elements).bytes rest := by
  induction elements with
  | nil => trivial
  | cons element elements ih =>
    obtain ⟨element, behind⟩ := element
    rw [List.forall_mem_cons] at hother
    obtain ⟨⟨hstart, hend⟩, hother⟩ := hother
    simp only [renderElements, Element.render, CStr.append_bytes, Search.clear_append]
    exact ⟨⟨⟨clear_tag htag (startTag_mem _) hstart _, clear_text htag element.noTag _⟩,
      clear_tag htag (endTag_mem _) hend _⟩,
      clear_textWithout htag behind htag (head_renderElements elements hrest), ih hother⟩

/-- **It goes over the beginning of a block**, up to a tag. -/
theorem clear_beginning (htag : tag ∈ searchedTags) (hservice : tag ≠ lit "<service>")
    (first : TextWithout searchedTags) (elements : List (Element × TextWithout searchedTags))
    (hother : ∀ element ∈ elements, tag ≠ element.1.name.startTag ∧ tag ≠ element.1.name.endTag)
    {rest : List UInt8} (hrest : ∀ c ∈ rest.head?, c = 60) :
    Search.Clear tag.bytes
      ((lit "<service>").bytes ++ (first.val.bytes ++ (renderElements elements).bytes)) rest := by
  rw [Search.clear_append, Search.clear_append]
  exact ⟨clear_tag htag (by decide) hservice _,
    clear_textWithout htag first htag (head_renderElements elements hrest),
    clear_elements htag elements hother hrest⟩

end Search

/-! ### One block -/

section Block

variable (block : ServiceBlock) (after : CStr)

/-- What a search finds that begins at a block. -/
def fromBlock : CStr := block.render ++ after

/-- What a search finds that ends with the block. -/
def fromBlockEnd : CStr := lit "</service>" ++ after

/-- The bytes from a block on: its opening tag, the text in front of its elements, these, and what
starts with its closing tag. -/
theorem fromBlock_bytes : (fromBlock block after).bytes = (lit "<service>").bytes ++
    (block.first.val.bytes ++ ((renderElements block.elements).bytes ++
      (fromBlockEnd after).bytes)) := by
  simp only [fromBlock, fromBlockEnd, ServiceBlock.render, CStr.append_bytes, List.append_assoc]

/-- What ends the block starts with `<`, so no tag can begin in a text in front of it and end behind
that. -/
theorem head_fromBlockEnd : ∀ c ∈ (fromBlockEnd after).bytes.head?, c = 60 :=
  fun _ hc => (Option.some.inj hc).symm

/-- **The end of a block** is the first one behind its beginning. -/
theorem strstr_blockEnd :
    (fromBlock block after).strstr (lit "</service>") = some (fromBlockEnd after) := by
  rw [CStr.strstr_eq_some_iff]
  refine ⟨(lit "<service>").bytes ++
    (block.first.val.bytes ++ (renderElements block.elements).bytes), ?_, ?_,
    List.prefix_append _ _⟩
  · rw [fromBlock_bytes]
    simp only [List.append_assoc]
  · refine clear_beginning (by decide) (by decide) _ _ (fun element _ => ?_)
      (head_fromBlockEnd after)
    cases element.1.name <;> decide

/-- **An element of the block** is found by its tag. -/
theorem strstr_startTag {name : ElementName} {text : CStr} (h : block.textOf name = some text) :
    60 ∉ text.bytes ∧ ∃ behind : CStr, (fromBlock block after).strstr name.startTag =
      some (name.startTag ++ (text ++ (name.endTag ++ (behind ++ fromBlockEnd after)))) := by
  rw [ServiceBlock.textOf, Option.map_eq_some_iff] at h
  obtain ⟨⟨element, text'⟩, hfind, rfl⟩ := h
  obtain ⟨hname, before, behind, helements, hbefore⟩ := List.find?_eq_some_iff_append.mp hfind
  rw [decide_eq_true_iff] at hname
  subst hname
  refine ⟨element.noTag, text'.val ++ renderElements behind, ?_⟩
  rw [CStr.strstr_eq_some_iff]
  refine ⟨(lit "<service>").bytes ++ (block.first.val.bytes ++ (renderElements before).bytes),
    ?_, ?_, List.prefix_append _ _⟩
  · rw [fromBlock_bytes, helements, renderElements_append]
    simp only [renderElements, Element.render, CStr.append_bytes, List.append_assoc]
  · refine clear_beginning (startTag_mem _) (startTag_ne_service _) _ _ (fun element' hmem => ?_) ?_
    · refine startTag_ne fun hsame => ?_
      have := hbefore element' hmem
      rw [hsame] at this
      simp at this
    · have hhead := head_render element
        (text'.val ++ renderElements behind ++ fromBlockEnd after).bytes
      simpa only [Element.render, CStr.append_bytes, List.append_assoc] using hhead

/-- **Without such an element** the search ends behind the block. -/
theorem strstr_startTag_le {name : ElementName} (h : block.textOf name = none) {t : CStr}
    (ht : (fromBlock block after).strstr name.startTag = some t) :
    t.len ≤ (fromBlockEnd after).len := by
  rw [ServiceBlock.textOf, Option.map_eq_none_iff, List.find?_eq_none] at h
  have hclear := clear_beginning (startTag_mem name) (startTag_ne_service name) block.first
    block.elements (fun element hmem => startTag_ne fun hsame => h element hmem (by simp [hsame]))
    (head_fromBlockEnd after)
  have hbytes := fromBlock_bytes block after
  rw [← List.append_assoc block.first.val.bytes, ← List.append_assoc] at hbytes
  rw [CStr.strstr_skip hbytes hclear] at ht
  exact (CStr.strstr_len ht).2

/-- The text of an element ends at its own tag, as it has no `<` itself. -/
theorem strstr_endTag (name : ElementName) {text : CStr} (htext : 60 ∉ text.bytes) (rest : CStr) :
    (text ++ (name.endTag ++ rest)).strstr name.endTag = some (name.endTag ++ rest) := by
  rw [CStr.strstr_eq_some_iff]
  exact ⟨text.bytes, rfl, clear_text (endTag_mem name) htext _, List.prefix_append _ _⟩

/-- What stands between two places, as the code computes it from two pointers, is the text between
them. -/
theorem take_between (text rest : CStr) :
    (text ++ rest).len - rest.len = text.len ∧ (text ++ rest).take text.len = text := by
  rw [CStr.append_len, Nat.add_sub_cancel]
  exact ⟨rfl, CStr.ext (List.take_left' rfl)⟩

/-- **A block with both elements** is taken if they are as they should be. -/
theorem wanService_of_elements {serviceType url : CStr}
    (htype : block.textOf .serviceType = some serviceType)
    (hurl : block.textOf .controlUrl = some url) :
    wanService (fromBlock block after) (fromBlockEnd after) =
      if serviceType.len < 128 ∧ url.len < 256 ∧ serviceType.len < 256 ∧
          (serviceType.contains (lit "WANIPConnection") ∨
            serviceType.contains (lit "WANPPPConnection"))
      then some (serviceType, url) else none := by
  obtain ⟨htypeText, behindType, hst⟩ := strstr_startTag block after htype
  obtain ⟨hurlText, behindUrl, hct⟩ := strstr_startTag block after hurl
  have hste := strstr_endTag .serviceType htypeText (behindType ++ fromBlockEnd after)
  have hcte := strstr_endTag .controlUrl hurlText (behindUrl ++ fromBlockEnd after)
  dsimp only [ElementName.startTag, ElementName.endTag] at hst hct hste hcte
  -- both elements begin and end in the block
  have hpositive : 0 < (lit "</serviceType>").len ∧ 0 < (lit "</controlURL>").len := by decide
  rw [wanService, hst, hct]
  dsimp only
  rw [if_pos (by simp only [CStr.append_len]; omega), CStr.drop_append, CStr.drop_append, hste,
    hcte]
  dsimp only
  rw [if_pos (by simp only [CStr.append_len]; omega), (take_between serviceType _).1,
    (take_between url _).1, (take_between serviceType _).2, (take_between url _).2]

/-- **What is taken from a block** is what it offers. -/
theorem wanService_iff (serviceType url : CStr) :
    wanService (fromBlock block after) (fromBlockEnd after) = some (serviceType, url) ↔
      block.Offers serviceType url := by
  constructor
  · intro h
    cases htype : block.textOf .serviceType with
    | none =>
      rw [wanService] at h
      split at h
      · rename_i st ct hst hct
        have hle := strstr_startTag_le block after htype hst
        rw [if_neg (fun hin => Nat.not_lt.mpr hle hin.1)] at h
        cases h
      · cases h
    | some type =>
      cases hurl : block.textOf .controlUrl with
      | none =>
        rw [wanService] at h
        split at h
        · rename_i st ct hst hct
          have hle := strstr_startTag_le block after hurl hct
          rw [if_neg (fun hin => Nat.not_lt.mpr hle hin.2)] at h
          cases h
        · cases h
      | some url' =>
        rw [wanService_of_elements block after htype hurl] at h
        split at h
        · rename_i hwan
          cases h
          obtain ⟨htypeFits, hurlFits, -, hwan⟩ := hwan
          rw [CStr.contains_iff, CStr.contains_iff] at hwan
          exact ⟨htype, hurl, hwan, htypeFits, hurlFits⟩
        · cases h
  · intro h
    have htypeFits := h.typeFits
    rw [wanService_of_elements block after h.hasType h.hasUrl, if_pos]
    rw [CStr.contains_iff, CStr.contains_iff]
    exact ⟨htypeFits, h.urlFits, by omega, h.wan⟩

end Block

/-! ### The whole description -/

/-- The first of the blocks that offer a service. -/
def FirstOffer (blocks : List ServiceBlock) (serviceType url : CStr) : Prop :=
  ∃ before block after, blocks = before ++ block :: after ∧
    (∀ earlier ∈ before, ∀ serviceType url, ¬ earlier.Offers serviceType url) ∧
    block.Offers serviceType url

/-- A block that offers a service hides all blocks behind it: the first offer is its own, and there
is no other. -/
theorem firstOffer_cons_of_offers {block : ServiceBlock} {serviceType url : CStr}
    (h : block.Offers serviceType url) (blocks : List ServiceBlock) (serviceType' url' : CStr) :
    FirstOffer (block :: blocks) serviceType' url' ↔ serviceType' = serviceType ∧ url' = url := by
  constructor
  · rintro ⟨before, block', after, hsplit, hbefore, hoffers⟩
    cases before with
    | nil =>
      cases hsplit
      have htype := h.hasType.symm.trans hoffers.hasType
      have hurl := h.hasUrl.symm.trans hoffers.hasUrl
      exact ⟨(Option.some.inj htype).symm, (Option.some.inj hurl).symm⟩
    | cons earlier before =>
      cases hsplit
      exact absurd h (hbefore _ List.mem_cons_self _ _)
  · rintro ⟨rfl, rfl⟩
    exact ⟨[], block, blocks, rfl, fun earlier h => (by cases h), h⟩

/-- A block that offers nothing is passed over: the first offer is that of the blocks behind it. -/
theorem firstOffer_cons_of_not {block : ServiceBlock}
    (h : ∀ serviceType url, ¬ block.Offers serviceType url) (blocks : List ServiceBlock)
    (serviceType url : CStr) :
    FirstOffer (block :: blocks) serviceType url ↔ FirstOffer blocks serviceType url := by
  constructor
  · rintro ⟨before, block', after, hsplit, hbefore, hoffers⟩
    cases before with
    | nil =>
      cases hsplit
      exact absurd hoffers (h _ _)
    | cons earlier before =>
      rw [List.cons_append, List.cons.injEq] at hsplit
      rw [List.forall_mem_cons] at hbefore
      exact ⟨before, block', after, hsplit.2, hbefore.2, hoffers⟩
  · rintro ⟨before, block', after, rfl, hbefore, hoffers⟩
    exact ⟨block :: before, block', after, rfl, List.forall_mem_cons.mpr ⟨h, hbefore⟩, hoffers⟩

/-- Blocks in a row begin with `<`, if there are any. -/
theorem head_renderBlocks (blocks : List (ServiceBlock × TextWithout serviceTags)) :
    ∀ c ∈ (renderBlocks blocks).bytes.head?, c = 60 := by
  cases blocks with
  | nil =>
    intro c hc
    cases hc
  | cons block blocks => exact fun c hc => (Option.some.inj hc).symm

/-- **The loop over the services** goes from block to block, where no block begins in what is in
front of them. -/
theorem findWanService_cons {front : CStr} (block : ServiceBlock) (text : TextWithout serviceTags)
    (blocks : List (ServiceBlock × TextWithout serviceTags))
    (hfront : Search.Clear (lit "<service>").bytes front.bytes
      (renderBlocks ((block, text) :: blocks)).bytes) :
    findWanService (front ++ renderBlocks ((block, text) :: blocks)) =
      match wanService (fromBlock block (text.val ++ renderBlocks blocks))
        (fromBlockEnd (text.val ++ renderBlocks blocks)) with
      | some service => some service
      | none => findWanService (lit ">" ++ text.val ++ renderBlocks blocks) := by
  have hservice : (front ++ renderBlocks ((block, text) :: blocks)).strstr (lit "<service>") =
      some (fromBlock block (text.val ++ renderBlocks blocks)) := by
    refine CStr.strstr_eq_some_iff.mpr ⟨front.bytes, rfl, hfront, ?_⟩
    rw [fromBlock_bytes]
    exact List.prefix_append _ _
  have hdrop : (fromBlockEnd (text.val ++ renderBlocks blocks)).drop 9 =
      lit ">" ++ text.val ++ renderBlocks blocks := CStr.ext rfl
  rw [findWanService]
  split
  · rename_i hnone
    rw [hservice] at hnone
    cases hnone
  · rename_i p' hsome
    rw [hservice] at hsome
    cases hsome
    split
    · rename_i hnone
      rw [strstr_blockEnd] at hnone
      cases hnone
    · rename_i e hend
      rw [strstr_blockEnd] at hend
      cases hend
      cases wanService (fromBlock block (text.val ++ renderBlocks blocks))
        (fromBlockEnd (text.val ++ renderBlocks blocks)) with
      | some service => rfl
      | none => exact congrArg findWanService hdrop

/-- **The first block that offers a service** is found, by induction on the blocks. -/
theorem findWanService_renderBlocks (blocks : List (ServiceBlock × TextWithout serviceTags))
    {front : CStr} (hfront : Search.Clear (lit "<service>").bytes front.bytes
      (renderBlocks blocks).bytes) (serviceType url : CStr) :
    findWanService (front ++ renderBlocks blocks) = some (serviceType, url) ↔
      FirstOffer (blocks.map (·.1)) serviceType url := by
  induction blocks generalizing front with
  | nil =>
    have hnone : (front ++ renderBlocks []).strstr (lit "<service>") = none := by
      have hskip : (front ++ renderBlocks []).strstr (lit "<service>") =
          (renderBlocks []).strstr (lit "<service>") := CStr.strstr_skip rfl hfront
      rw [hskip]
      decide
    constructor
    · intro h
      rw [findWanService] at h
      split at h
      · cases h
      · rename_i hsome
        rw [hnone] at hsome
        cases hsome
    · rintro ⟨before, block, after, hsplit, -⟩
      cases before <;> cases hsplit
  | cons block blocks ih =>
    obtain ⟨block, text⟩ := block
    have hnext : Search.Clear (lit "<service>").bytes (lit ">" ++ text.val).bytes
        (renderBlocks blocks).bytes := by
      rw [CStr.append_bytes, Search.clear_append]
      exact ⟨clear_text (by decide) (by decide) _,
        clear_textWithout (by decide) text (by decide) (head_renderBlocks blocks)⟩
    rw [findWanService_cons block text blocks hfront, List.map_cons]
    cases htaken : wanService (fromBlock block (text.val ++ renderBlocks blocks))
        (fromBlockEnd (text.val ++ renderBlocks blocks)) with
    | some service =>
      obtain ⟨serviceType', url'⟩ := service
      rw [firstOffer_cons_of_offers ((wanService_iff _ _ _ _).mp htaken)]
      simp only [Option.some.injEq, Prod.mk.injEq]
      exact and_congr eq_comm eq_comm
    | none =>
      rw [firstOffer_cons_of_not]
      · exact ih hnext
      · intro serviceType' url' hoffers
        rw [(wanService_iff _ _ _ _).mpr hoffers] at htaken
        cases htaken

/-- **No block offers a service** if none is the first one that does. -/
theorem exists_firstOffer {blocks : List ServiceBlock} {block : ServiceBlock}
    {serviceType url : CStr} (hmem : block ∈ blocks) (h : block.Offers serviceType url) :
    ∃ serviceType url, FirstOffer blocks serviceType url := by
  induction blocks with
  | nil => cases hmem
  | cons head blocks ih =>
    by_cases hhead : ∃ serviceType url, head.Offers serviceType url
    · obtain ⟨serviceType', url', hoffers⟩ := hhead
      exact ⟨serviceType', url', (firstOffer_cons_of_offers hoffers blocks _ _).mpr ⟨rfl, rfl⟩⟩
    · have hnot : ∀ serviceType url, ¬ head.Offers serviceType url :=
        fun serviceType url hoffers => hhead ⟨serviceType, url, hoffers⟩
      rcases List.mem_cons.mp hmem with rfl | hmem
      · exact absurd h (hnot _ _)
      · obtain ⟨serviceType', url', hfirst⟩ := ih hmem
        exact ⟨serviceType', url', (firstOffer_cons_of_not hnot blocks _ _).mpr hfirst⟩

/-- **The service is the first that is offered.**  The type and the control URL are those of the
same block, and without a block that offers one there is no device. -/
theorem service_selection (exchange : Exchange) {d : RrUpnpDevice} {host path : CStr}
    {port : UInt16} (desc : Description)
    (hlocation : rrParseLocationUrl d.location 64 = some (host, port, path))
    (hxml : rrHttpRequest exchange host port path none none upnpBuf = some desc.render) :
    (∀ d', rrFetchControlUrl exchange d = some d' ↔
      ∃ serviceType url, FirstOffer (desc.blocks.map (·.1)) serviceType url ∧
        d' = { d with
          serviceType, controlUrl := controlUrl host port path url, host, port, valid := true }) ∧
      (rrFetchControlUrl exchange d = none ↔
        ∀ block ∈ desc.blocks, ∀ serviceType url, ¬ block.1.Offers serviceType url) := by
  have hfirst : Search.Clear (lit "<service>").bytes desc.first.val.bytes
      (renderBlocks desc.blocks).bytes :=
    clear_textWithout (by decide) desc.first (by decide) (head_renderBlocks desc.blocks)
  have hfind := findWanService_renderBlocks desc.blocks hfirst
  rw [rrFetchControlUrl, fetchControlUrl, hlocation]
  dsimp only
  rw [hxml]
  dsimp only
  rw [Description.render]
  cases hfound : findWanService (desc.first.val ++ renderBlocks desc.blocks) with
  | none =>
    have hno : ∀ serviceType url, ¬ FirstOffer (desc.blocks.map (·.1)) serviceType url := by
      intro serviceType url h
      rw [(hfind serviceType url).mpr h] at hfound
      cases hfound
    refine ⟨fun d' => ⟨fun h => (by cases h), ?_⟩, iff_of_true rfl ?_⟩
    · rintro ⟨serviceType, url, h, -⟩
      exact absurd h (hno serviceType url)
    · intro block hmem serviceType url hoffers
      obtain ⟨serviceType', url', h⟩ := exists_firstOffer (List.mem_map_of_mem hmem) hoffers
      exact hno serviceType' url' h
  | some service =>
    obtain ⟨serviceType, url⟩ := service
    have hoffer := (hfind serviceType url).mp hfound
    refine ⟨fun d' => ⟨fun h => ?_, ?_⟩, iff_of_false (fun h => by cases h) fun h => ?_⟩
    · cases h
      exact ⟨serviceType, url, hoffer, rfl⟩
    · rintro ⟨serviceType', url', h, rfl⟩
      have hsame := (hfind serviceType' url').mpr h
      rw [hfound] at hsame
      cases hsame
      rfl
    · obtain ⟨before, block, after, hsplit, -, hoffers⟩ := hoffer
      have hmem : block ∈ desc.blocks.map (·.1) := by
        rw [hsplit]
        exact List.mem_append_right _ List.mem_cons_self
      obtain ⟨entry, hentry, rfl⟩ := List.mem_map.mp hmem
      exact h entry hentry serviceType url hoffers

/-- A block with a WAN type and no control URL, and one with both. -/
def twoBlocks : Description where
  first := ⟨lit "HTTP/1.1 200 OK\r\n\r\n<root><serviceList>", by decide +kernel⟩
  blocks :=
    [(⟨⟨lit "", by decide⟩, [(⟨.serviceType, lit "urn:WANIPConnection:1", by decide⟩,
        ⟨lit "<SCPDURL>/s</SCPDURL>", by decide +kernel⟩)]⟩, ⟨lit "", by decide⟩),
      (⟨⟨lit "", by decide⟩, [(⟨.controlUrl, lit "/c", by decide⟩, ⟨lit "", by decide⟩),
        (⟨.serviceType, lit "urn:WANPPPConnection:1", by decide⟩, ⟨lit "", by decide⟩)]⟩,
        ⟨lit "</serviceList></root>", by decide +kernel⟩)]

/-- Of two blocks the first one offers no service that is looked for: the second is taken, with its
own type and URL. -/
theorem service_selection_second :
    rrFetchControlUrl (fun _ _ _ => some twoBlocks.render.bytes) locatedDevice =
      some { locatedDevice with
        serviceType := lit "urn:WANPPPConnection:1",
        controlUrl := controlUrl (lit "192.168.1.1") 5000 (lit "/d.xml") (lit "/c"),
        host := lit "192.168.1.1", port := 5000, valid := true } := by
  refine ((service_selection (fun _ _ _ => some twoBlocks.render.bytes) twoBlocks
    location_locatedDevice (by decide +kernel)).1 _).mpr ⟨_, _, ?_, rfl⟩
  refine ⟨[_], _, [], rfl, ?_, ⟨rfl, rfl, Or.inr (by decide), by decide, by decide⟩⟩
  intro earlier hearlier serviceType url hoffers
  rw [List.mem_singleton] at hearlier
  subst hearlier
  cases hoffers.hasUrl

end RrLauncher
