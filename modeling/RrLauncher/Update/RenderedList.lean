/-
# Lists as the server writes them

A list has a line for each entry: a version, a space and a text.  The parsers find the
lines (`fieldsOf_renderList`) and in each line the version and the first word of the text
(`readLine_line`), which is all of the text where it has no space.
-/

import RrLauncher.Update.ListTables

namespace RrLauncher

open Stdio

/-- An entry of a list: a version and a text that is not empty and has no newline. -/
structure ListEntry where
  version : RrcVersion
  text : CStr
  text_ne_nil : text.bytes ≠ []
  newline_notMem : newline ∉ text.bytes

namespace ListEntry

/-- The bytes of the line of an entry. -/
def lineBytes (entry : ListEntry) : List UInt8 :=
  versionRender entry.version ++ space :: entry.text.bytes

/-- The line of an entry. -/
def line (entry : ListEntry) : CStr :=
  ⟨entry.lineBytes, by
    rw [lineBytes, List.mem_append, List.mem_cons, not_or, not_or]
    exact ⟨(versionString entry.version).noNul, by decide, entry.text.noNul⟩⟩

/-- The entry as the parsers return it. -/
def pair (entry : ListEntry) : RrcVersion × CStr := (entry.version, entry.text)

/-- The text up to its first space. -/
def firstWord (entry : ListEntry) : CStr := CStr.ofBuffer (entry.text.bytes.takeWhile (· ≠ space))

end ListEntry

/-- The bytes of a list, with or without a newline at its end. -/
def renderBytes (finalNewline : Bool) (entries : List ListEntry) : List UInt8 :=
  let lines := (entries.map ListEntry.lineBytes).flatMap (· ++ [newline])
  if finalNewline then lines else lines.dropLast

/-- A rendered list has no NUL, so as a C string it is read to its end. -/
theorem zero_notMem_renderBytes (finalNewline : Bool) (entries : List ListEntry) :
    0 ∉ renderBytes finalNewline entries := by
  have hlines : 0 ∉ (entries.map ListEntry.lineBytes).flatMap (· ++ [newline]) := by
    rw [List.flatMap_map, List.mem_flatMap]
    rintro ⟨entry, -, hmem⟩
    rw [List.mem_append, List.mem_singleton] at hmem
    exact hmem.elim entry.line.noNul (by decide)
  unfold renderBytes
  split
  · exact hlines
  · exact fun h => hlines (List.dropLast_subset _ h)

/-- The text of a list. -/
def renderList (finalNewline : Bool) (entries : List ListEntry) : CStr :=
  ⟨renderBytes finalNewline entries, zero_notMem_renderBytes finalNewline entries⟩

/-! ### The lines of a list -/

/-- A rendered version has digits, minus signs and dots, and nothing else. -/
theorem mem_versionRender {v : RrcVersion} {c : UInt8} (h : c ∈ versionRender v) :
    Decimal.isdigit c = true ∨ c = 45 ∨ c = dot := by
  have hdecimal : ∀ x : ℤ, c ∈ Decimal.decimal x → Decimal.isdigit c = true ∨ c = 45 ∨ c = dot :=
    fun x hx => (Decimal.mem_decimal hx).imp_right .inl
  rw [versionRender, List.mem_append, List.mem_cons, List.mem_append, List.mem_cons] at h
  rcases h with h | h | h | h | h
  · exact hdecimal _ h
  · exact .inr (.inr h)
  · exact hdecimal _ h
  · exact .inr (.inr h)
  · exact hdecimal _ h

/-- A rendered version has no blank, so it is the first field of its line. -/
theorem space_notMem_versionRender (v : RrcVersion) : space ∉ versionRender v :=
  fun h => absurd (mem_versionRender h) (by decide)

/-- The rendered line of an entry has no line break inside, so it is one line of the list. -/
theorem newline_notMem_lineBytes (entry : ListEntry) : newline ∉ entry.lineBytes := by
  rw [ListEntry.lineBytes, List.mem_append, List.mem_cons, not_or, not_or]
  exact ⟨fun h => absurd (mem_versionRender h) (by decide), by decide, entry.newline_notMem⟩

/-- **The lines of a list** that was rendered are those of its entries, whether or not a line break
ends the last one. -/
theorem fieldsOf_renderList (finalNewline : Bool) (entries : List ListEntry) :
    fieldsOf (renderList finalNewline entries) newline = entries.map ListEntry.line := by
  have hlines : ∀ l ∈ entries.map ListEntry.lineBytes, newline ∉ l := by
    intro l hl
    obtain ⟨entry, -, rfl⟩ := List.mem_map.mp hl
    exact newline_notMem_lineBytes entry
  have hne : ∀ l ∈ entries.map ListEntry.lineBytes, l ≠ [] := by
    intro l hl
    obtain ⟨entry, -, rfl⟩ := List.mem_map.mp hl
    exact List.append_ne_nil_of_right_ne_nil _ (List.cons_ne_nil _ _)
  have hfields : Fields.fields newline (renderBytes finalNewline entries) =
      entries.map ListEntry.lineBytes := by
    cases finalNewline with
    | true => exact Fields.fields_flatMap hlines
    | false => exact Fields.fields_dropLast_flatMap hlines hne
  rw [fieldsOf, renderList, hfields, List.map_map]
  exact List.map_congr_left fun entry _ => CStr.ofBuffer_bytes_of_noNul entry.line

/-- The fields of a line: the version, and those of the text. -/
theorem fieldsOf_line (entry : ListEntry) :
    fieldsOf entry.line space = versionString entry.version :: fieldsOf entry.text space := by
  show (Fields.fields space (versionRender entry.version ++ space :: entry.text.bytes)).map _ = _
  rw [Fields.fields_append_sep (space_notMem_versionRender _), List.map_cons]
  exact congrArg (· :: _) (CStr.ofBuffer_bytes_of_noNul (versionString entry.version))

/-- The line of an entry has one more field than the text behind its version, as that text may have
blanks of its own. -/
theorem fieldCount_line (entry : ListEntry) :
    Fields.fieldCount space entry.line.bytes = Fields.fieldCount space entry.text.bytes + 1 := by
  rw [← length_fieldsOf, fieldsOf_line, List.length_cons, length_fieldsOf]

/-- **What is read of a line**: the version, and the text up to its first space. -/
theorem readLine_line (splitFailed : String) (entry : ListEntry) :
    (readLine splitFailed entry.line).2 = .ok (entry.version, entry.firstWord) := by
  have hhead := Fields.head?_fields space entry.text_ne_nil
  rw [readLine_eq, fieldsOf_line]
  cases hfields : Fields.fields space entry.text.bytes with
  | nil =>
    rw [hfields] at hhead
    cases hhead
  | cons word more =>
    rw [hfields] at hhead
    obtain rfl := Option.some.inj hhead
    rw [fieldsOf, hfields, List.map_cons, List.take_succ_cons,
      show rrcSplitLim = 4095 + 1 from rfl, List.take_succ_cons, readParts]
    simp only [rrcVersionFromString_render]
    rfl

/-- A text without a space is its first word, and only such a text is. -/
theorem firstWord_eq_iff (entry : ListEntry) :
    entry.firstWord = entry.text ↔ space ∉ entry.text.bytes := by
  have hbytes : entry.firstWord.bytes = entry.text.bytes.takeWhile (· ≠ space) :=
    List.takeWhile_eq_self_iff.mpr fun c hc => by
      have hmem := (List.takeWhile_prefix _).mem hc
      simpa using fun h : c = 0 => entry.text.noNul (h ▸ hmem)
  constructor
  · intro h hspace
    rw [h] at hbytes
    have hall := List.takeWhile_eq_self_iff.mp hbytes.symm space hspace
    simp at hall
  · intro h
    refine CStr.ext (hbytes.trans (List.takeWhile_eq_self_iff.mpr fun c hc => ?_))
    simpa using fun hsp : c = space => h (hsp ▸ hc)

end RrLauncher
