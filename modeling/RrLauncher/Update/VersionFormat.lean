/-
# The format of a version

`versionutils.h` says that `rrc_version_from_string` takes strings of the format
"major.minor.patch" and returns an error for any other.  The parser reads the sections
between the dots up to the third one, each with `strtol`, which takes the number that a
section begins with and 0 where it begins with none.  So what it rejects are the strings
one of whose first three sections is empty, and it keeps to the format on these and on
the strings that have it (`version_format_iff`).
-/

import RrLauncher.Update.Versionutils

namespace RrLauncher

open CStr (lit)

/-- `rrc_version_from_string` with what `out_version` points to. -/
def rrcVersionFromStringTo (versionStr : CStr) (outVersion : RrcVersion) :
    Except RrcResultError Unit × RrcVersion :=
  match rrcVersionFromString versionStr with
  | .ok version => (.ok (), version)
  | .error e => (.error e, outVersion)

/-- The decimal number `x`, which fits in an `int`. -/
structure IsNumber (s : List UInt8) (x : Decimal.CInt) : Prop where
  ne_nil : s ≠ []
  digits : ∀ c ∈ s, Decimal.isdigit c = true
  value_eq : (Decimal.value s : ℤ) = x.val

/-- `major.minor.patch`. -/
def IsVersion (s : List UInt8) (v : RrcVersion) : Prop :=
  ∃ major minor patch, s = major ++ dot :: (minor ++ dot :: patch) ∧
    IsNumber major v.major ∧ IsNumber minor v.minor ∧ IsNumber patch v.patch

/-- The sections between the dots, up to the third one. -/
def versionSections (s : List UInt8) : List (List UInt8) := (s.splitOn dot).take 3

/-- The parser takes a string in the format for the version that it is, and any other string
for an error, with which the version that was there stays. -/
def KeepsFormat (versionStr : CStr) : Prop :=
  ∀ outVersion,
    (∃ v, IsVersion versionStr.bytes v ∧
      rrcVersionFromStringTo versionStr outVersion = (.ok (), v)) ∨
    ((∀ v, ¬ IsVersion versionStr.bytes v) ∧
      ∃ e, rrcVersionFromStringTo versionStr outVersion = (.error e, outVersion))

/-! ### What the parser reads -/

/-- With nothing read of the current section, the sections are those of the rest of the string. -/
theorem modifyHead_nil_append (sections : List (List UInt8)) :
    sections.modifyHead ([] ++ ·) = sections := by
  cases sections <;> rfl

/-- The loop reads the section that was begun and those behind it, up to the third one. -/
theorem versionLoop_eq (s current : List UInt8) {parts : List Decimal.CInt}
    (hparts : parts.length ≤ 2) :
    let sections := ((s.splitOn dot).modifyHead (current ++ ·)).take (3 - parts.length)
    versionLoop s current parts =
      if [] ∈ sections then .error (rrcResultCreateErrorCorruptedVersionfile "Invalid format")
      else .ok (parts ++ sections.map Decimal.strtol) := by
  intro sections
  obtain ⟨k, hk⟩ : ∃ k, 3 - parts.length = k + 1 := ⟨2 - parts.length, by omega⟩
  induction s generalizing current parts k with
  | nil =>
    have hsections : sections = [current] := by simp [sections, hk]
    rw [hsections, versionLoop]
    simp [eq_comm]
  | cons c rest ih =>
    rw [versionLoop]
    by_cases hc : c = dot
    · have hsections : sections = current :: (rest.splitOn dot).take k := by
        simp [sections, hk, List.splitOn_cons_eq_if_modifyHead, hc]
      rw [if_pos hc, hsections]
      by_cases hcurrent : current = []
      · rw [if_pos hcurrent, hcurrent, if_pos List.mem_cons_self]
      rw [if_neg hcurrent]
      dsimp only
      rw [List.length_append, List.length_singleton]
      have hmem : [] ∈ current :: (rest.splitOn dot).take k ↔ [] ∈ (rest.splitOn dot).take k := by
        rw [List.mem_cons, or_iff_right (Ne.symm hcurrent)]
      by_cases hthird : parts.length + 1 > 2
      · -- the third section is the last one that is read
        obtain rfl : k = 0 := by omega
        rw [if_pos hthird, List.take_zero, if_neg (by simp [eq_comm, hcurrent])]
        rfl
      · have hlen : (parts ++ [Decimal.strtol current]).length = parts.length + 1 := by simp
        have hrest : ((rest.splitOn dot).modifyHead ([] ++ ·)).take
            (3 - (parts ++ [Decimal.strtol current]).length) = (rest.splitOn dot).take k := by
          rw [hlen, show 3 - (parts.length + 1) = k by omega, modifyHead_nil_append]
        rw [if_neg hthird, ih [] (by omega) (k - 1) (by omega), hrest]
        simp only [hmem, List.map_cons, List.append_assoc, List.singleton_append]
    · have hsections : sections = ((rest.splitOn dot).modifyHead (current ++ [c] ++ ·)).take
          (3 - parts.length) := by
        have hbeq : (c == dot) = false := beq_eq_false_iff_ne.mpr hc
        simp only [sections, List.splitOn_cons_eq_if_modifyHead, hbeq, Bool.false_eq_true,
          if_false, List.modifyHead_modifyHead]
        congr 2
        funext x
        simp
      rw [if_neg hc, hsections]
      exact ih (current ++ [c]) hparts k hk

/-- **What the parser rejects** is a string with an empty section among the first three. -/
theorem rrcVersionFromString_eq (versionStr : CStr) :
    rrcVersionFromString versionStr =
      if [] ∈ versionSections versionStr.bytes then
        .error (rrcResultCreateErrorCorruptedVersionfile "Invalid format")
      else
        let parts := (versionSections versionStr.bytes).map Decimal.strtol
        .ok ⟨parts.getD 0 0, parts.getD 1 0, parts.getD 2 0⟩ := by
  have hnone : ([] : List Decimal.CInt).length ≤ 2 := Nat.zero_le 2
  have hloop := versionLoop_eq versionStr.bytes [] hnone
  have hsections : ((versionStr.bytes.splitOn dot).modifyHead ([] ++ ·)).take
      (3 - ([] : List Decimal.CInt).length) = versionSections versionStr.bytes := by
    rw [modifyHead_nil_append]
    rfl
  rw [hsections] at hloop
  rw [rrcVersionFromString, hloop]
  split_ifs <;> rfl

/-- A number has no dot inside, so it is a section as a whole. -/
theorem IsNumber.dot_notMem {s : List UInt8} {x : Decimal.CInt} (h : IsNumber s x) : dot ∉ s :=
  fun hdot => absurd (h.digits dot hdot) (by decide)

/-- Reading a section that is a number gives that number. -/
theorem IsNumber.strtol_eq {s : List UInt8} {x : Decimal.CInt} (h : IsNumber s x) :
    Decimal.strtol s = x := by
  have hfits : Decimal.value s < 2 ^ 31 := by
    have hx := x.property.2
    have hvalue := h.value_eq
    omega
  exact Subtype.ext ((Decimal.strtol_of_digits h.ne_nil h.digits hfits).trans h.value_eq)

/-- **A string in the format** is read as the version that it is. -/
theorem IsVersion.rrcVersionFromString {s : CStr} {v : RrcVersion} (h : IsVersion s.bytes v) :
    rrcVersionFromString s = .ok v := by
  obtain ⟨major, minor, patch, hs, hmajor, hminor, hpatch⟩ := h
  have hsections : versionSections s.bytes = [major, minor, patch] := by
    rw [versionSections, hs, List.splitOn_append_cons_self_of_not_mem hmajor.dot_notMem,
      List.splitOn_append_cons_self_of_not_mem hminor.dot_notMem,
      List.splitOn_eq_singleton hpatch.dot_notMem]
    rfl
  rw [rrcVersionFromString_eq, hsections, if_neg]
  · simp [hmajor.strtol_eq, hminor.strtol_eq, hpatch.strtol_eq]
  · simp [hmajor.ne_nil, hminor.ne_nil, hpatch.ne_nil, eq_comm]

/-! ### The format -/

/-- **The parser keeps to the format** on the strings that have it and on those with an empty
section among the first three, and on no others. -/
theorem version_format_iff (versionStr : CStr) :
    KeepsFormat versionStr ↔
      (∃ v, IsVersion versionStr.bytes v) ∨ [] ∈ versionSections versionStr.bytes := by
  constructor
  · intro h
    rcases h ⟨0, 0, 0⟩ with ⟨v, hv, -⟩ | ⟨-, e, he⟩
    · exact .inl ⟨v, hv⟩
    · refine .inr ?_
      by_contra hnone
      rw [rrcVersionFromStringTo, rrcVersionFromString_eq, if_neg hnone] at he
      cases he
  · intro h outVersion
    by_cases hversion : ∃ v, IsVersion versionStr.bytes v
    · obtain ⟨v, hv⟩ := hversion
      refine .inl ⟨v, hv, ?_⟩
      rw [rrcVersionFromStringTo, hv.rrcVersionFromString]
    · have hempty := h.resolve_left hversion
      refine .inr ⟨not_exists.mp hversion,
        rrcResultCreateErrorCorruptedVersionfile "Invalid format", ?_⟩
      rw [rrcVersionFromStringTo, rrcVersionFromString_eq, if_pos hempty]

/-- The first word of a page that says what went wrong is taken for the version 0.0.0. -/
theorem version_format_html : ¬ ∀ versionStr, KeepsFormat versionStr := by
  intro h
  rcases h (lit "<html>") ⟨0, 0, 0⟩ with ⟨v, ⟨major, minor, patch, hs, -⟩, -⟩ | ⟨-, e, he⟩
  · have hdot : dot ∈ (lit "<html>").bytes := by
      rw [hs]
      exact List.mem_append_right _ List.mem_cons_self
    exact absurd hdot (by decide)
  · rw [rrcVersionFromStringTo, rrcVersionFromString_eq, if_neg (by decide)] at he
    cases he

end RrLauncher
