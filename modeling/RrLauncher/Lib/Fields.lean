/-
# Fields between separators

The fields of a text are what stands between its separators.  A separator at the end
does not begin another field, so the text without characters has no field, and of two
separators in a row the second one ends an empty field.
-/

import Mathlib.Data.List.Basic
import Mathlib.Data.Nat.Notation

namespace Fields

universe u

variable {α : Type u} [DecidableEq α]

/-- The fields of a text. -/
def fields (sep : α) : List α → List (List α)
  | [] => []
  | c :: rest =>
    if c = sep then [] :: fields sep rest
    else
      match fields sep rest with
      | [] => [[c]]
      | field :: more => (c :: field) :: more

/-- How many fields a text has: one for each separator, and one for what is behind the
last of them. -/
def fieldCount (sep : α) (s : List α) : ℕ :=
  s.count sep + if ∀ c ∈ s.getLast?, c = sep then 0 else 1

/-- The fields of a text that goes on after `current`, of the field that was begun. -/
def fieldsAfter (sep : α) (current s : List α) : List (List α) :=
  match fields sep s with
  | [] => []
  | field :: more => (current ++ field) :: more

/-- The empty string has no fields, not even an empty one. -/
@[simp] theorem fields_nil (sep : α) : fields sep [] = [] := rfl

/-- A separator at the front ends an empty field, and the rest is split on its own. -/
theorem fields_sep (sep : α) (s : List α) : fields sep (sep :: s) = [] :: fields sep s := if_pos rfl

/-- A string with any character has a field, if only an empty one. -/
theorem fields_ne_nil (sep c : α) (s : List α) : fields sep (c :: s) ≠ [] := by
  rw [fields]
  split_ifs
  · exact List.cons_ne_nil _ _
  · split <;> exact List.cons_ne_nil _ _

/-- **The number of fields** is what the separators say: one for each of them, and one more where
something stands behind the last. -/
theorem length_fields (sep : α) (s : List α) : (fields sep s).length = fieldCount sep s := by
  unfold fieldCount
  induction s with
  | nil => rfl
  | cons c s ih =>
    cases s with
    | nil =>
      by_cases hc : c = sep <;> simp [fields, hc]
    | cons d s =>
      rw [List.getLast?_cons_cons, fields]
      by_cases hc : c = sep
      · subst hc
        rw [if_pos rfl, List.length_cons, ih, List.count_cons_self]
        exact Nat.add_right_comm _ _ _
      · rw [if_neg hc, List.count_cons_of_ne hc, ← ih]
        cases h : fields sep (d :: s) with
        | nil => exact absurd h (fields_ne_nil sep d s)
        | cons field more => rfl

/-- A separator ends a field, and so does the last character: in both cases there is one more field
than in the rest. -/
theorem length_fields_end {sep c : α} {s : List α} (h : c = sep ∨ s = []) :
    (fields sep (c :: s)).length = (fields sep s).length + 1 := by
  by_cases hc : c = sep
  · rw [hc, fields_sep, List.length_cons]
  · obtain rfl := h.resolve_left hc
    rw [show fields sep [c] = [[c]] from if_neg hc]
    rfl

/-- Any other character belongs to the field that goes on behind it. -/
theorem length_fields_char {sep c : α} {s : List α} (h : ¬ (c = sep ∨ s = [])) :
    (fields sep (c :: s)).length = (fields sep s).length := by
  rw [not_or] at h
  obtain ⟨d, s, rfl⟩ := List.exists_cons_of_ne_nil h.2
  rw [fields, if_neg h.1]
  cases hd : fields sep (d :: s) with
  | nil => exact absurd hd (fields_ne_nil sep d s)
  | cons field more => rfl

/-- With nothing read of the current field, what remains is split from its start. -/
@[simp] theorem fieldsAfter_nil_left (sep : α) (s : List α) : fieldsAfter sep [] s = fields sep s := by
  unfold fieldsAfter
  cases fields sep s <;> rfl

/-- Nothing is left to be split at the end of the string: the last character has ended its field, so
that none is open here. -/
@[simp] theorem fieldsAfter_nil_right (sep : α) (current : List α) :
    fieldsAfter sep current [] = [] := rfl

/-- A separator ends the current field, and the rest is split from its start. -/
theorem fieldsAfter_sep (sep : α) (current s : List α) :
    fieldsAfter sep current (sep :: s) = current :: fields sep s := by
  unfold fieldsAfter
  rw [fields_sep]
  simp

/-- The last character, where it is no separator, ends the last field. -/
theorem fieldsAfter_last {sep c : α} (hc : c ≠ sep) (current : List α) :
    fieldsAfter sep current [c] = [current ++ [c]] := by
  unfold fieldsAfter fields
  rw [if_neg hc]
  rfl

/-- A character that is no separator goes to the field that was begun. -/
theorem fieldsAfter_char {sep c : α} (hc : c ≠ sep) (current : List α) {s : List α} (hs : s ≠ []) :
    fieldsAfter sep current (c :: s) = fieldsAfter sep (current ++ [c]) s := by
  obtain ⟨d, s, rfl⟩ := List.exists_cons_of_ne_nil hs
  unfold fieldsAfter
  rw [fields, if_neg hc]
  cases h : fields sep (d :: s) with
  | nil => exact absurd h (fields_ne_nil sep d s)
  | cons field more => simp

/-! ### Joining fields -/

/-- What stands before the first separator is the first field. -/
theorem fields_append_sep {sep : α} {field : List α} (h : sep ∉ field) (rest : List α) :
    fields sep (field ++ sep :: rest) = field :: fields sep rest := by
  induction field with
  | nil => exact fields_sep sep rest
  | cons c field ih =>
    rw [List.mem_cons, not_or] at h
    rw [List.cons_append, fields, if_neg (Ne.symm h.1), ih h.2]

/-- A text without a separator is one field, if it is not empty. -/
theorem fields_singleton {sep : α} {field : List α} (h : sep ∉ field) (hne : field ≠ []) :
    fields sep field = [field] := by
  induction field with
  | nil => exact absurd rfl hne
  | cons c field ih =>
    rw [List.mem_cons, not_or] at h
    rw [fields, if_neg (Ne.symm h.1)]
    cases field with
    | nil => rfl
    | cons d field => rw [ih h.2 (List.cons_ne_nil d field)]

/-- The first field goes up to the first separator, or to the end where there is none. -/
theorem head?_fields (sep : α) {s : List α} (hne : s ≠ []) :
    (fields sep s).head? = some (s.takeWhile (· ≠ sep)) := by
  induction s with
  | nil => exact absurd rfl hne
  | cons c s ih =>
    rw [fields]
    by_cases hc : c = sep
    · rw [if_pos hc, List.takeWhile_cons_of_neg (by simpa using hc)]
      rfl
    · rw [if_neg hc, List.takeWhile_cons_of_pos (by simpa using hc)]
      cases s with
      | nil => rfl
      | cons d s =>
        have hrest := ih (List.cons_ne_nil d s)
        cases h : fields sep (d :: s) with
        | nil => exact absurd h (fields_ne_nil sep d s)
        | cons field more =>
          rw [h] at hrest
          simpa using hrest

/-- **Fields that each end with a separator** are the fields of the text. -/
theorem fields_flatMap {sep : α} {ls : List (List α)} (h : ∀ l ∈ ls, sep ∉ l) :
    fields sep (ls.flatMap (· ++ [sep])) = ls := by
  induction ls with
  | nil => rfl
  | cons l ls ih =>
    rw [List.forall_mem_cons] at h
    rw [List.flatMap_cons, List.append_assoc, List.singleton_append, fields_append_sep h.1, ih h.2]

/-- The same where the separator behind the last piece is left out: as the pieces are not empty, the
last one still counts. -/
theorem fields_dropLast_flatMap {sep : α} {ls : List (List α)} (h : ∀ l ∈ ls, sep ∉ l)
    (hne : ∀ l ∈ ls, l ≠ []) : fields sep (ls.flatMap (· ++ [sep])).dropLast = ls := by
  induction ls with
  | nil => rfl
  | cons l ls ih =>
    rw [List.forall_mem_cons] at h hne
    rw [List.flatMap_cons, List.append_assoc, List.singleton_append]
    cases ls with
    | nil => rw [List.flatMap_nil, List.dropLast_concat, fields_singleton h.1 hne.1]
    | cons m ls =>
      rw [List.dropLast_append_of_ne_nil (List.cons_ne_nil _ _),
        List.dropLast_cons_of_ne_nil (by simp), fields_append_sep h.1, ih h.2 hne.2]

/-- No field has a separator, and of characters it has those of the text. -/
theorem mem_of_mem_fields {sep : α} {s field : List α} (h : field ∈ fields sep s) {x : α}
    (hx : x ∈ field) : x ∈ s ∧ x ≠ sep := by
  induction s generalizing field with
  | nil => cases h
  | cons c s ih =>
    rw [fields] at h
    split at h
    · rcases List.mem_cons.mp h with rfl | hrest
      · cases hx
      · exact (ih hrest hx).imp_left (List.mem_cons_of_mem c)
    · rename_i hc
      split at h
      · obtain rfl := List.mem_singleton.mp h
        obtain rfl := List.mem_singleton.mp hx
        exact ⟨List.mem_cons_self, hc⟩
      · rename_i first more hfields
        rcases List.mem_cons.mp h with rfl | hmore
        · rcases List.mem_cons.mp hx with rfl | hx
          · exact ⟨List.mem_cons_self, hc⟩
          · exact (ih (hfields ▸ List.mem_cons_self) hx).imp_left (List.mem_cons_of_mem c)
        · exact (ih (hfields ▸ List.mem_cons_of_mem _ hmore) hx).imp_left (List.mem_cons_of_mem c)

omit [DecidableEq α] in
/-- Joined fields have one separator behind each field that another one follows. -/
theorem intercalate_cons_cons (sep : α) (field next : List α) (more : List (List α)) :
    [sep].intercalate (field :: next :: more) = field ++ sep :: [sep].intercalate (next :: more) := by
  simp [List.intercalate]

/-- **Joining the fields** gives the text back, without the separator that it may end with. -/
theorem intercalate_fields (sep : α) (s : List α) :
    [sep].intercalate (fields sep s) = if s.getLast? = some sep then s.dropLast else s := by
  induction s with
  | nil => rfl
  | cons c s ih =>
    cases s with
    | nil =>
      rw [fields, List.getLast?_singleton]
      by_cases hc : c = sep
      · rw [if_pos hc, if_pos (congrArg some hc)]
        rfl
      · rw [if_neg hc, if_neg fun h => hc (Option.some.inj h)]
        rfl
    | cons d s =>
      -- there is a field behind `c`, which is joined with what is before it
      obtain ⟨field, more, hfields⟩ := List.exists_cons_of_ne_nil (fields_ne_nil sep d s)
      rw [hfields] at ih
      have hjoin : [sep].intercalate (fields sep (c :: d :: s)) =
          c :: [sep].intercalate (field :: more) := by
        rw [fields, hfields]
        by_cases hc : c = sep
        · rw [if_pos hc, intercalate_cons_cons, hc]
          rfl
        · rw [if_neg hc]
          cases more with
          | nil => simp [List.intercalate]
          | cons next more =>
            dsimp only
            rw [intercalate_cons_cons, intercalate_cons_cons]
            rfl
      rw [hjoin, ih, List.getLast?_cons_cons, List.dropLast_cons_cons]
      split
      · rfl
      · rfl

end Fields
