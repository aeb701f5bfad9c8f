/-
# Joining paths

Two paths are joined with one separator between them: where the left one ends with a
separator none is added, and one at the front of the right one is left out.  An empty
path adds nothing.  So joining is associative (`join_assoc`), and it does not matter
whether a path is built from its parts at once or folder by folder.
-/

import Mathlib.Algebra.Group.Nat.Defs
import Mathlib.Data.List.Basic

namespace Paths

variable {α : Type} [DecidableEq α] (sep : α)

/-- A path that ends with a separator. -/
def folder (l : List α) : List α := if l.getLast? = some sep then l else l ++ [sep]

/-- A path without a separator at its front. -/
def relative (l : List α) : List α := if l.head? = some sep then l.tail else l

/-- One path after the other. -/
def join (l r : List α) : List α :=
  if l = [] then r else if r = [] then l else folder sep l ++ relative sep r

/-- An empty path joined with another one is that other one, with no separator in front of it. -/
@[simp] theorem nil_join (r : List α) : join sep [] r = r := by rw [join, if_pos rfl]

/-- A path joined with an empty one stays as it is, with no separator behind it. -/
@[simp] theorem join_nil (l : List α) : join sep l [] = l := by
  rw [join, if_pos rfl]
  split
  · exact Eq.symm ‹_›
  · rfl

/-- Two paths that are not empty are joined at exactly one separator: that of the first one or an
added one, and none of the second. -/
theorem join_of_ne_nil {l r : List α} (hl : l ≠ []) (hr : r ≠ []) :
    join sep l r = folder sep l ++ relative sep r := by rw [join, if_neg hl, if_neg hr]

/-- A path with a separator behind it is not empty. -/
theorem folder_ne_nil (l : List α) : folder sep l ≠ [] := by
  rw [folder]
  split
  · rename_i h
    rintro rfl
    cases h
  · exact List.concat_ne_nil sep l

/-- Whether a separator is added behind a path depends on its last part alone, if that one is not
empty. -/
theorem folder_append {l r : List α} (hr : r ≠ []) : folder sep (l ++ r) = l ++ folder sep r := by
  rw [folder, folder, List.getLast?_append_of_ne_nil l hr]
  split
  · rfl
  · rw [List.append_assoc]

/-- A path that ends with a separator gets no second one. -/
theorem folder_folder (l : List α) : folder sep (folder sep l) = folder sep l := by
  by_cases h : l.getLast? = some sep
  · rw [folder, folder, if_pos h, if_pos h]
  · have hlast : (l ++ [sep]).getLast? = some sep := List.getLast?_concat ..
    rw [folder, folder, if_neg h, if_pos hlast]

/-- The separator at the front of a path belongs to its first part, if that one is not empty. -/
theorem relative_append {l : List α} (hl : l ≠ []) (r : List α) :
    relative sep (l ++ r) = relative sep l ++ r := by
  rw [relative, relative, List.head?_append_of_ne_nil l hl]
  split
  · rw [List.tail_append_of_ne_nil hl]
  · rfl

/-- A separator at the front is taken away. -/
theorem relative_cons_self (rest : List α) : relative sep (sep :: rest) = rest := if_pos rfl

/-- A path that starts with any other character stays as it is. -/
theorem relative_cons_of_ne {c : α} (hc : c ≠ sep) (rest : List α) :
    relative sep (c :: rest) = c :: rest := if_neg fun h => hc (Option.some.inj h)

/-- The separator at the seam is added once, whichever side it is looked at from. -/
theorem folder_append_relative (l : List α) {r : List α} (hr : r ≠ []) :
    folder sep (folder sep l ++ relative sep r) = folder sep l ++ relative sep (folder sep r) := by
  obtain ⟨c, rest, rfl⟩ := List.exists_cons_of_ne_nil hr
  by_cases hc : c = sep
  · subst hc
    rw [relative_cons_self]
    by_cases hrest : rest = []
    · have hfolder : folder c [c] = [c] := if_pos rfl
      rw [hrest, List.append_nil, folder_folder, hfolder, relative_cons_self, List.append_nil]
    · have hfolder : folder c ([c] ++ rest) = c :: folder c rest := folder_append c hrest
      rw [folder_append c hrest, ← List.singleton_append, hfolder, relative_cons_self]
  · -- what is added behind `r` does not change its front
    have hfront : ∃ rest', folder sep (c :: rest) = c :: rest' := by
      rw [folder]
      split
      · exact ⟨rest, rfl⟩
      · exact ⟨rest ++ [sep], rfl⟩
    obtain ⟨rest', hrest'⟩ := hfront
    rw [relative_cons_of_ne sep hc, folder_append sep hr, hrest', relative_cons_of_ne sep hc]

/-- **Joining is associative.** The separator at each seam is there exactly once, in whatever order
the parts were put together. -/
theorem join_assoc (a b c : List α) : join sep (join sep a b) c = join sep a (join sep b c) := by
  by_cases ha : a = []
  · rw [ha, nil_join, nil_join]
  by_cases hb : b = []
  · rw [hb, join_nil, nil_join]
  by_cases hc : c = []
  · rw [hc, join_nil, join_nil]
  have hleft : folder sep a ++ relative sep b ≠ [] :=
    fun h => folder_ne_nil sep a (List.append_eq_nil_iff.mp h).1
  have hright : folder sep b ++ relative sep c ≠ [] :=
    fun h => folder_ne_nil sep b (List.append_eq_nil_iff.mp h).1
  rw [join_of_ne_nil sep ha hb, join_of_ne_nil sep hleft hc, join_of_ne_nil sep hb hc,
    join_of_ne_nil sep ha hright, folder_append_relative sep a hb,
    relative_append sep (folder_ne_nil sep b), List.append_assoc]

/-- A join ends as its right side does, as long as that end does not begin with the separator that
may be dropped. -/
theorem suffix_join {s r : List α} (hs : s.head? ≠ some sep) (hsuffix : s <:+ r) (l : List α) :
    s <:+ join sep l r := by
  by_cases hl : l = []
  · rwa [hl, nil_join]
  by_cases hr : r = []
  · have hnil : s = [] := List.suffix_nil.mp (hr ▸ hsuffix)
    rw [hnil]
    exact List.nil_suffix
  rw [join_of_ne_nil sep hl hr]
  refine List.IsSuffix.trans ?_ (List.suffix_append _ _)
  obtain ⟨c, rest, rfl⟩ := List.exists_cons_of_ne_nil hr
  by_cases hc : c = sep
  · subst hc
    rw [relative_cons_self]
    rcases List.suffix_cons_iff.mp hsuffix with rfl | hrest
    · exact absurd rfl hs
    · exact hrest
  · rwa [relative_cons_of_ne sep hc]

/-- What is in a join is in one of the paths, or is the separator. -/
theorem mem_join {l r : List α} {x : α} (h : x ∈ join sep l r) : x ∈ l ∨ x = sep ∨ x ∈ r := by
  rw [join] at h
  split at h
  · exact Or.inr (Or.inr h)
  split at h
  · exact Or.inl h
  rcases List.mem_append.mp h with hl | hr
  · rw [folder] at hl
    split at hl
    · exact Or.inl hl
    · rcases List.mem_append.mp hl with hl | hsep
      · exact Or.inl hl
      · exact Or.inr (Or.inl (List.mem_singleton.mp hsep))
  · rw [relative] at hr
    split at hr
    · exact Or.inr (Or.inr (List.mem_of_mem_tail hr))
    · exact Or.inr (Or.inr hr)

/-- At most one character is added behind a path. -/
theorem length_folder_le (l : List α) : (folder sep l).length ≤ l.length + 1 := by
  rw [folder]
  split
  · exact Nat.le_succ _
  · exact Nat.le_of_eq List.length_append

/-- A path does not grow when the separator at its front is taken away. -/
theorem length_relative_le (r : List α) : (relative sep r).length ≤ r.length := by
  rw [relative]
  split
  · rw [List.length_tail]
    exact Nat.sub_le _ _
  · exact Nat.le_refl _

/-- One element more than both sides have is enough for a join, which is how the source sizes its
buffers. -/
theorem length_join_le (l r : List α) : (join sep l r).length ≤ l.length + r.length + 1 := by
  have hfolder := length_folder_le sep l
  have hrelative := length_relative_le sep r
  rw [join]
  split
  · omega
  split
  · omega
  · rw [List.length_append]
    omega

/-- A function that keeps the separator, and makes no other, goes through a join. -/
theorem map_join {f : α → α} (hf : ∀ x, f x = sep ↔ x = sep) (l r : List α) :
    (join sep l r).map f = join sep (l.map f) (r.map f) := by
  have hsome : ∀ o : Option α, o.map f = some sep ↔ o = some sep := by
    intro o
    cases o with
    | none => exact iff_of_false nofun nofun
    | some x => rw [Option.map_some, Option.some.injEq, Option.some.injEq, hf]
  have hfolder : (folder sep l).map f = folder sep (l.map f) := by
    rw [folder, folder, List.getLast?_map, ite_congr (propext (hsome _)) (fun _ => rfl) (fun _ => rfl)]
    split
    · rfl
    · rw [List.map_append, List.map_singleton, (hf sep).mpr rfl]
  have hrelative : (relative sep r).map f = relative sep (r.map f) := by
    rw [relative, relative, List.head?_map, ite_congr (propext (hsome _)) (fun _ => rfl) (fun _ => rfl)]
    split
    · exact List.map_tail
    · rfl
  by_cases hl : l = []
  · rw [hl, nil_join, List.map_nil, nil_join]
  by_cases hr : r = []
  · rw [hr, join_nil, List.map_nil, join_nil]
  rw [join_of_ne_nil sep hl hr, List.map_append, hfolder, hrelative,
    join_of_ne_nil sep (mt List.map_eq_nil_iff.mp hl) (mt List.map_eq_nil_iff.mp hr)]

/-- A path that ends with a separator gets the other path behind it, without a separator of
its own. -/
theorem join_of_getLast? {l r : List α} (hl : l.getLast? = some sep) :
    join sep l r = l ++ relative sep r := by
  by_cases hr : r = []
  · rw [hr, join_nil, relative, if_neg nofun, List.append_nil]
  · have hne : l ≠ [] := by
      rintro rfl
      cases hl
    rw [join_of_ne_nil sep hne hr, folder, if_pos hl]

/-- So the separator is not doubled there, unless the other path begins with two. -/
theorem head?_relative {r : List α} (hr : ¬ [sep, sep] <+: r) :
    (relative sep r).head? ≠ some sep := by
  intro hhead
  cases r with
  | nil => cases hhead
  | cons c rest =>
    by_cases hc : c = sep
    · subst hc
      rw [relative_cons_self] at hhead
      obtain ⟨rest', rfl⟩ := List.head?_eq_some_iff.mp hhead
      exact hr ⟨rest', rfl⟩
    · rw [relative_cons_of_ne sep hc] at hhead
      exact hc (Option.some.inj hhead)

end Paths
