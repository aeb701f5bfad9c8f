/-
# Versions

`versionutils.c`: a version is three `int`s, parsed from the first three
dot-separated sections of a string, each with `strtol`.  `update.c` renders it
with `"%d.%d.%d"`, which parses back (`rrcVersionFromString_render`).
-/

import RrLauncher.Lib.CStr
import RrLauncher.Lib.Decimal
import RrLauncher.Shared.Result

namespace RrLauncher

/-- `struct rrc_version`. -/
structure RrcVersion where
  major : Decimal.CInt
  minor : Decimal.CInt
  patch : Decimal.CInt
  deriving DecidableEq

/-- `rrc_version_is_older`. -/
def rrcVersionIsOlder (a b : RrcVersion) : Bool :=
  if a.major.val < b.major.val then true
  else if a.major.val > b.major.val then false
  else if a.minor.val < b.minor.val then true
  else if a.minor.val > b.minor.val then false
  else if a.patch.val < b.patch.val then true
  else false

/-- `rrc_version_equals`. -/
def rrcVersionEquals (a b : RrcVersion) : Bool :=
  a.major = b.major && a.minor = b.minor && a.patch = b.patch

/-- `'.'`. -/
def dot : UInt8 := 46

/-- The loop of `rrc_version_from_string`: the characters left, those of the
section that was begun, and the sections read so far. -/
def versionLoop : List UInt8 → List UInt8 → List Decimal.CInt → Except RrcResultError (List Decimal.CInt)
  | [], sect, parts =>
    if sect = [] then .error (rrcResultCreateErrorCorruptedVersionfile "Invalid format")
    else .ok (parts ++ [Decimal.strtol sect])
  | c :: rest, sect, parts =>
    if c = dot then
      if sect = [] then .error (rrcResultCreateErrorCorruptedVersionfile "Invalid format")
      else
        let parts := parts ++ [Decimal.strtol sect]
        if parts.length > 2 then .ok parts else versionLoop rest [] parts
    else versionLoop rest (sect ++ [c]) parts

/-- `rrc_version_from_string`. -/
def rrcVersionFromString (versionStr : CStr) : Except RrcResultError RrcVersion := do
  let parts ← versionLoop versionStr.bytes [] []
  return ⟨parts.getD 0 0, parts.getD 1 0, parts.getD 2 0⟩

/-- `"%d.%d.%d"`. -/
def versionRender (v : RrcVersion) : List UInt8 :=
  Decimal.decimal v.major.val ++
    dot :: (Decimal.decimal v.minor.val ++ dot :: Decimal.decimal v.patch.val)

/-- The comparison of the source, component by component, is equality of the versions. -/
theorem rrcVersionEquals_iff (a b : RrcVersion) : rrcVersionEquals a b = true ↔ a = b := by
  cases a
  cases b
  simp [rrcVersionEquals, and_assoc]

/-- The order of versions is lexicographic: the major number counts first, then the minor one, then
the patch. -/
theorem rrcVersionIsOlder_iff (a b : RrcVersion) : rrcVersionIsOlder a b = true ↔
    a.major.val < b.major.val ∨ (a.major.val = b.major.val ∧
      (a.minor.val < b.minor.val ∨ (a.minor.val = b.minor.val ∧ a.patch.val < b.patch.val))) := by
  unfold rrcVersionIsOlder
  split_ifs <;> simp <;> omega

/-- No version is older than itself, so an entry of the current version is not an update. -/
theorem rrcVersionIsOlder_irrefl (a : RrcVersion) : rrcVersionIsOlder a a = false := by
  rw [← Bool.not_eq_true, rrcVersionIsOlder_iff]
  omega

/-- A version that is older than an older one is older, too. With the next lemma this makes the
comparison a strict order. -/
theorem rrcVersionIsOlder_trans {a b c : RrcVersion} (h₁ : rrcVersionIsOlder a b = true)
    (h₂ : rrcVersionIsOlder b c = true) : rrcVersionIsOlder a c = true := by
  rw [rrcVersionIsOlder_iff] at h₁ h₂ ⊢
  omega

/-- Of two versions at most one is older than the other. -/
theorem rrcVersionIsOlder_asymm {a b : RrcVersion} (h : rrcVersionIsOlder a b = true) :
    rrcVersionIsOlder b a = false := by
  rw [← Bool.not_eq_true]
  intro h'
  have := rrcVersionIsOlder_trans h h'
  rw [rrcVersionIsOlder_irrefl] at this
  cases this

/-- A string that is no version has the wrong format. -/
theorem rrcVersionFromString_error {s : CStr} {e : RrcResultError}
    (h : rrcVersionFromString s = .error e) :
    ∃ context, e = rrcResultCreateErrorCorruptedVersionfile context := by
  have hloop : ∀ {rest sect parts}, versionLoop rest sect parts = .error e →
      e = rrcResultCreateErrorCorruptedVersionfile "Invalid format" := by
    intro rest sect parts
    fun_induction versionLoop rest sect parts with
    | case1 => exact fun h => (Except.error.inj h).symm
    | case2 => exact fun h => nomatch h
    | case3 => exact fun h => (Except.error.inj h).symm
    | case4 => exact fun h => nomatch h
    | case5 rest sect parts _ parts' hfew ih => exact ih
    | case6 c rest sect parts hc ih => exact ih
  unfold rrcVersionFromString at h
  cases hparts : versionLoop s.bytes [] [] with
  | error e' =>
    rw [hparts] at h
    cases h
    exact ⟨_, hloop hparts⟩
  | ok parts =>
    rw [hparts] at h
    cases h

/-! ### Rendering and parsing -/

/-- A section is read up to its dot, character by character, with what was read of it so far in
front. -/
theorem versionLoop_section {sect : List UInt8} (hsect : dot ∉ sect) (rest sofar : List UInt8)
    (parts : List Decimal.CInt) :
    versionLoop (sect ++ rest) sofar parts = versionLoop rest (sofar ++ sect) parts := by
  induction sect generalizing sofar with
  | nil => rw [List.nil_append, List.append_nil]
  | cons c sect ih =>
    rw [List.mem_cons, not_or] at hsect
    rw [List.cons_append, versionLoop, if_neg (Ne.symm hsect.1), ih hsect.2, List.append_assoc,
      List.singleton_append]

/-- The decimal digits of a number, with its sign, have no dot among them, so the dots that are
printed between the numbers are the only ones. -/
theorem dot_notMem_decimal (x : ℤ) : dot ∉ Decimal.decimal x := fun h =>
  (Decimal.mem_decimal h).elim (fun h => absurd h (by decide)) (fun h => absurd h (by decide))

/-- The decimal digits of a number have no NUL among them, so a printed version is a string as a
whole. -/
theorem zero_notMem_decimal (x : ℤ) : 0 ∉ Decimal.decimal x := fun h =>
  (Decimal.mem_decimal h).elim (fun h => absurd h (by decide)) (fun h => absurd h (by decide))

/-- A number is printed with one digit at least, so no section of a rendered version is empty. -/
theorem decimal_ne_nil (x : ℤ) : Decimal.decimal x ≠ [] := by
  cases x with
  | ofNat n => exact Decimal.digits_ne_nil n
  | negSucc n => exact List.cons_ne_nil _ _

/-- A rendered version as a string. -/
def versionString (v : RrcVersion) : CStr :=
  ⟨versionRender v, by
    rw [versionRender, List.mem_append, List.mem_cons, List.mem_append, List.mem_cons]
    have hdot : (0 : UInt8) ≠ dot := by decide
    simp [hdot, zero_notMem_decimal]⟩

/-- **A rendered version parses back**, negative numbers included. -/
theorem rrcVersionFromString_render (v : RrcVersion) :
    rrcVersionFromString (versionString v) = .ok v := by
  have hread : ∀ x : Decimal.CInt, Decimal.strtol (Decimal.decimal x.val) = x := by
    intro x
    simpa using Decimal.strtol_decimal x [] (by simp)
  have hloop : versionLoop (versionRender v) [] [] = .ok [v.major, v.minor, v.patch] := by
    rw [versionRender, versionLoop_section (dot_notMem_decimal _), versionLoop, if_pos rfl]
    simp only [List.nil_append, if_neg (decimal_ne_nil v.major.val), hread, List.length_singleton,
      gt_iff_lt, show ¬ 2 < 1 by decide, if_false]
    rw [versionLoop_section (dot_notMem_decimal _), versionLoop, if_pos rfl]
    simp only [List.nil_append, if_neg (decimal_ne_nil v.minor.val), hread, List.singleton_append,
      List.length_cons, List.length_nil, gt_iff_lt, show ¬ 2 < 0 + 1 + 1 by decide, if_false]
    have hlast := versionLoop_section (dot_notMem_decimal v.patch.val) [] [] [v.major, v.minor]
    rw [List.append_nil, List.nil_append] at hlast
    rw [hlast, versionLoop, if_neg (decimal_ne_nil v.patch.val), hread]
    rfl
  rw [rrcVersionFromString, versionString, hloop]
  rfl

end RrLauncher
