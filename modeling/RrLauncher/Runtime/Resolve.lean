/-
# Resolving a disc path to a replacement

The lookup half of `runtime-ext/source/dvd.c`: the binary search by hash with its
walk back to the first equal hash, the walk forward that tells hash collisions
apart, and `rte_dvd_resolve_path_to_entry_num`, which tries the filename
replacements with the last segment of the path and then the full replacements.
`strcicmp` is the one of `runtime-ext/source/util.c`.

The search itself is `SortedSearch`, over the two arrays of `struct
rrc_riivo_disc`; their counts are the lengths of the lists.
-/

import RrLauncher.Lib.SortedSearch
import RrLauncher.Shared.Riivo
import Mathlib.Algebra.Group.Int.Defs
import Mathlib.Algebra.Group.Nat.Defs
import Mathlib.Data.Int.Basic
import Mathlib.Data.List.Find
import Mathlib.Data.Nat.Basic

namespace RrLauncher

/-- `struct rrc_riivo_disc`. -/
structure RrcRiivoDisc where
  sdFiles : List RrcRiivoSdFile
  filenameReplacements : List RrcRiivoFileReplacement
  replacements : List RrcRiivoFileReplacement

/-- The loop of `strcicmp`, where both strings end with their NUL. -/
def strcicmpLoop : List UInt8 → List UInt8 → ℤ
  | a :: p1, b :: p2 =>
    let result : ℤ := (CStr.tolower a).toNat - (CStr.tolower b).toNat
    if result = 0 then strcicmpLoop p1 p2 else result
  | [], b :: _ => 0 - (CStr.tolower b).toNat
  | a :: _, [] => (CStr.tolower a).toNat - 0
  | [], [] => 0

/-- `strcicmp`. -/
def strcicmp (a b : CStr) : ℤ := strcicmpLoop a.bytes b.bytes

/-- The comparison without regard to case finds two strings equal exactly if they are so in lower
case. -/
theorem strcicmpLoop_eq_zero {a b : List UInt8} (ha : 0 ∉ a) (hb : 0 ∉ b) :
    strcicmpLoop a b = 0 ↔ a.map CStr.tolower = b.map CStr.tolower := by
  have hpos : ∀ {c : UInt8}, c ≠ 0 → (CStr.tolower c).toNat ≠ 0 := fun hc h =>
    CStr.tolower_ne_zero hc (UInt8.toNat_inj.mp h)
  induction a generalizing b with
  | nil =>
    cases b with
    | nil => simp [strcicmpLoop]
    | cons c b =>
      have hc := hpos fun h => hb (h ▸ List.mem_cons_self)
      simp only [strcicmpLoop, List.map_nil, List.map_cons, reduceCtorEq, iff_false]
      omega
  | cons d a ih =>
    rw [List.mem_cons, not_or] at ha
    cases b with
    | nil =>
      have hd := hpos (Ne.symm ha.1)
      simp only [strcicmpLoop, List.map_nil, List.map_cons, reduceCtorEq, iff_false]
      omega
    | cons c b =>
      rw [List.mem_cons, not_or] at hb
      simp only [strcicmpLoop, List.map_cons, List.cons.injEq]
      by_cases heq : CStr.tolower d = CStr.tolower c
      · simp [heq, ih ha.2 hb.2]
      · have hne : (CStr.tolower d).toNat ≠ (CStr.tolower c).toNat := fun h =>
          heq (UInt8.toNat_inj.mp h)
        have hsub : ((CStr.tolower d).toNat : ℤ) - (CStr.tolower c).toNat ≠ 0 := by omega
        simp [heq, hsub]

/-- **`strcicmp` compares lowered strings**: it finds two of them equal exactly if they are so in
lower case. -/
theorem strcicmp_eq_zero (a b : CStr) : strcicmp a b = 0 ↔ a.lower = b.lower := by
  rw [strcicmp, strcicmpLoop_eq_zero a.noNul b.noNul]
  exact ⟨fun h => CStr.ext h, fun h => congrArg CStr.bytes h⟩

/-- `rte_dvd_search_replacement_by_hash`; `none` is the `-1`. -/
def rteDvdSearchReplacementByHash (hash : UInt32) (replacements : List RrcRiivoFileReplacement) :
    Option ℕ :=
  SortedSearch.searchFirst (·.hash.toNat) replacements hash.toNat

/-- `rte_dvd_search_replacement`: the entry number it stores, where it returns
true. -/
def rteDvdSearchReplacement (hash : UInt32) (filename : CStr)
    (replacements : List RrcRiivoFileReplacement) : Option ℕ :=
  match rteDvdSearchReplacementByHash hash replacements with
  | some index =>
    (SortedSearch.scanRun (·.hash.toNat) hash.toNat
      (fun replacement => strcicmp replacement.disc filename = 0)
      (replacements.drop index)).map (·.entrynum)
  | none => none

/-- `rte_dvd_resolve_path_to_entry_num`: the entry number it stores, where it
returns true.  Bringing the SD card up, which it does first, is left out. -/
def rteDvdResolvePathToEntryNum (riivoDisc : RrcRiivoDisc) (path : CStr) : Option ℕ :=
  let filename := skipSlash path
  let filenameSegment := ((filename.strrchr slash).map CStr.advance).getD filename
  let fullHash := rrcHashStringLowercase filename
  let filenameHash := rrcHashStringLowercase filenameSegment
  match rteDvdSearchReplacement filenameHash filenameSegment riivoDisc.filenameReplacements with
  | some entryNum => some entryNum
  | none => rteDvdSearchReplacement fullHash filename riivoDisc.replacements

/-- **The search of the source**, the lower bound of the hash and then the scan over equal hashes,
is the general search of a sorted array at the entries of the table. -/
theorem rteDvdSearchReplacement_eq (hash : UInt32) (filename : CStr)
    (replacements : List RrcRiivoFileReplacement) :
    rteDvdSearchReplacement hash filename replacements =
      (SortedSearch.searchRun (·.hash.toNat) replacements hash.toNat
        fun replacement => strcicmp replacement.disc filename = 0).map (·.entrynum) := by
  rw [rteDvdSearchReplacement, rteDvdSearchReplacementByHash, SortedSearch.searchRun]
  cases SortedSearch.searchFirst (·.hash.toNat) replacements hash.toNat <;> rfl

/-- The order of `cmp_file_replacements_by_hash`, which `qsort` sorts by. -/
def SortedByHash (replacements : List RrcRiivoFileReplacement) : Prop :=
  SortedSearch.Sorted (·.hash.toNat) replacements

/-- **Searching is a linear scan**: on an array sorted by hash, for the first
entry with the hash and a disc path equal up to case. -/
theorem rteDvdSearchReplacement_eq_find? {replacements : List RrcRiivoFileReplacement}
    (hs : SortedByHash replacements) (hash : UInt32) (filename : CStr) :
    rteDvdSearchReplacement hash filename replacements =
      (replacements.find? fun r => r.hash = hash ∧ strcicmp r.disc filename = 0).map
        (·.entrynum) := by
  rw [rteDvdSearchReplacement_eq, SortedSearch.searchRun_eq_find? hs]
  simp [UInt32.toNat_inj]

/-- **Both searches do what a scan from the front does**: the one by hash finds the first index
with the hash, the one by path the first entry with the hash and a path equal up to case. -/
theorem search_is_scan {replacements : List RrcRiivoFileReplacement}
    (hs : SortedByHash replacements) (hash : UInt32) (filename : CStr) :
    (∀ index, rteDvdSearchReplacementByHash hash replacements = some index ↔
      ∃ h : index < replacements.length, replacements[index].hash = hash ∧
        ∀ j (hj : j < index), replacements[j].hash ≠ hash) ∧
      (rteDvdSearchReplacementByHash hash replacements = none ↔
        ∀ r ∈ replacements, r.hash ≠ hash) ∧
      rteDvdSearchReplacement hash filename replacements =
        (replacements.find? fun r => r.hash = hash ∧ r.disc.lower = filename.lower).map
          (·.entrynum) := by
  refine ⟨fun index => ?_, ?_, ?_⟩
  · refine (SortedSearch.searchFirst_eq_some hs).trans ?_
    simp only [UInt32.toNat_inj, ne_eq]
  · refine (SortedSearch.searchFirst_eq_none hs).trans ?_
    simp only [UInt32.toNat_inj, ne_eq]
  · rw [rteDvdSearchReplacement_eq_find? hs]
    simp only [strcicmp_eq_zero]

/-- Three entries with one hash between two others. -/
def collidingReplacements : List RrcRiivoFileReplacement :=
  [⟨CStr.lit "a", 1, 0⟩, ⟨CStr.lit "b", 2, 1⟩, ⟨CStr.lit "c", 2, 2⟩, ⟨CStr.lit "d", 2, 3⟩,
    ⟨CStr.lit "e", 3, 4⟩]

/-- Entries with equal hashes of which the search lands in the middle: it goes back to the first of
them, and the scan finds the one with the path. -/
theorem search_is_scan_colliding :
    rteDvdSearchReplacementByHash 2 collidingReplacements = some 1 ∧
      rteDvdSearchReplacementByHash 4 collidingReplacements = none ∧
      rteDvdSearchReplacement 2 (CStr.lit "D") collidingReplacements = some 3 := by
  have hs : SortedByHash collidingReplacements := by
    unfold SortedByHash SortedSearch.Sorted collidingReplacements
    decide
  obtain ⟨hfirst, -, hpath⟩ := search_is_scan hs 2 (CStr.lit "D")
  obtain ⟨-, hnone, -⟩ := search_is_scan hs 4 (CStr.lit "D")
  refine ⟨(hfirst 1).mpr ⟨by decide, rfl, fun j hj => ?_⟩, hnone.mpr (by decide), hpath.trans rfl⟩
  obtain rfl : j = 0 := by omega
  exact (by decide : (1 : UInt32) ≠ 2)

/-- **Two hash functions and one comparison agree**: on an array of lowered disc
paths stored with their hashes, searching for a path of any letter case finds the
entry of the lowered path. -/
theorem rteDvdSearchReplacement_lowercase {replacements : List RrcRiivoFileReplacement}
    (hs : SortedByHash replacements)
    (hhash : ∀ r ∈ replacements, r.hash = rrcHashString r.disc)
    (hlower : ∀ r ∈ replacements, r.disc.lower = r.disc) (filename : CStr) :
    rteDvdSearchReplacement (rrcHashStringLowercase filename) filename replacements =
      (replacements.find? (·.disc = filename.lower)).map (·.entrynum) := by
  rw [rteDvdSearchReplacement_eq_find? hs]
  congr 1
  refine List.find?_congr fun r hr => ?_
  rw [decide_eq_decide, strcicmp_eq_zero, hlower r hr, hhash r hr, rrcHashStringLowercase_eq]
  exact ⟨fun h => h.2, fun h => ⟨h ▸ rfl, h⟩⟩

/-- The segment the resolver looks up is the text after the last `/` of the path
it was given. -/
theorem afterLast_skipSlash (path : CStr) :
    (skipSlash path).afterLast slash = path.afterLast slash := by
  by_cases h : path.first = slash
  · rw [skipSlash, if_pos h]
    ext1
    cases hb : path.bytes with
    | nil => simp [CStr.afterLast, hb]
    | cons c s =>
      rw [CStr.first, hb, List.headD_cons] at h
      subst h
      simp only [CStr.afterLast, CStr.advance_bytes, hb, List.tail_cons, List.reverse_cons]
      by_cases hmem : slash ∈ s
      · obtain ⟨t, u, htu, hct⟩ := List.eq_append_cons_of_mem (List.mem_reverse.mpr hmem)
        have hct' : slash ∉ t.reverse := fun hm => hct (List.mem_reverse.mp hm)
        have hleft := CStr.takeWhile_reverse_append u hct'
        have hright := CStr.takeWhile_reverse_append (u ++ [slash]) hct'
        rw [List.reverse_reverse] at hleft hright
        rw [htu, hleft, List.append_assoc, List.cons_append, hright]
      · have hright := CStr.takeWhile_reverse_append [] hmem
        have hall : s.reverse.takeWhile (· ≠ slash) = s.reverse :=
          List.takeWhile_eq_self_iff.mpr fun x hx => by
            simpa using fun hxc : x = slash => hmem (hxc ▸ List.mem_reverse.mp hx)
        rw [hright, hall]
  · rw [skipSlash, if_neg h]

end RrLauncher
