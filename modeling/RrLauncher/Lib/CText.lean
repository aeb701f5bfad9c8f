/-
# Searching C strings

A pointer into a string is the rest of the string from there on.  Of two pointers into
the same string the one with the longer rest is the smaller one, and the difference of
two pointers is the difference of the lengths.
-/

import RrLauncher.Lib.CStr
import RrLauncher.Lib.Search

namespace CStr

/-- The string from `s + n` on. -/
def drop (s : CStr) (n : ℕ) : CStr := ⟨s.bytes.drop n, fun h => s.noNul (List.mem_of_mem_drop h)⟩

/-- The first `n` bytes of the string. -/
def take (s : CStr) (n : ℕ) : CStr := ⟨s.bytes.take n, fun h => s.noNul (List.mem_of_mem_take h)⟩

/-- One string after the other. -/
def append (s t : CStr) : CStr :=
  ⟨s.bytes ++ t.bytes, fun h => (List.mem_append.mp h).elim s.noNul t.noNul⟩

instance : Append CStr := ⟨append⟩

/-- What `snprintf` leaves in a buffer of `size` bytes. -/
def fit (s : CStr) (size : ℕ) : CStr := s.take (size - 1)

/-- Skips the bytes that satisfy `p`. -/
def skipWhile (p : UInt8 → Bool) (s : CStr) : CStr :=
  ⟨s.bytes.dropWhile p, fun h => s.noNul ((List.dropWhile_suffix p).mem h)⟩

/-- `strstr(s, needle)`. -/
def strstr (s needle : CStr) : Option CStr :=
  match h : s.bytes.tails.find? needle.bytes.isPrefixOf with
  | some t => some ⟨t, fun h0 => s.noNul
      (((List.mem_tails _ _).mp (List.mem_of_find?_eq_some h)).mem h0)⟩
  | none => none

/-- `strchr(s, c)`, where `c` is not the NUL. -/
def strchr (s : CStr) (c : UInt8) : Option CStr :=
  let t := s.skipWhile (· ≠ c)
  if t.bytes = [] then none else some t

/-- Advancing a pointer into a string drops as many bytes from the front. -/
@[simp] theorem drop_bytes (s : CStr) (n : ℕ) : (s.drop n).bytes = s.bytes.drop n := rfl

/-- The length behind the pointer is what remains, and nothing where the pointer went past the end.
-/
@[simp] theorem drop_len (s : CStr) (n : ℕ) : (s.drop n).len = s.len - n := List.length_drop

/-- Cutting a string off after some bytes keeps these bytes. -/
@[simp] theorem take_bytes (s : CStr) (n : ℕ) : (s.take n).bytes = s.bytes.take n := rfl

/-- Appending strings appends their bytes. The NUL of the first one is overwritten. -/
@[simp] theorem append_bytes (s t : CStr) : (s ++ t).bytes = s.bytes ++ t.bytes := rfl

/-- The length of strings put together is the sum of their lengths, since neither has a NUL inside.
-/
@[simp] theorem append_len (s t : CStr) : (s ++ t).len = s.len + t.len := List.length_append

/-- A string that has at least as many bytes as are kept is cut to exactly that length. -/
theorem take_len {s : CStr} {n : ℕ} (h : n ≤ s.len) : (s.take n).len = n := by
  rw [len, take_bytes, List.length_take]
  exact Nat.min_eq_left h

/-- Behind the first of two strings put together stands the second one. -/
theorem drop_append (s t : CStr) : (s ++ t).drop s.len = t := CStr.ext (List.drop_left' rfl)

/-- **A buffer is large enough** exactly for the strings that are left as they are. -/
theorem fit_eq_iff {s : CStr} {size : ℕ} (hsize : 0 < size) : s.fit size = s ↔ s.len < size := by
  have hlen : s.len = s.bytes.length := rfl
  rw [CStr.ext_iff, fit, take_bytes, List.take_eq_self_iff]
  omega

/-- A string copied to a buffer with room is shorter than the buffer, since the last byte is kept
for the NUL. -/
theorem fit_len_lt (s : CStr) {size : ℕ} (hsize : 0 < size) : (s.fit size).len < size := by
  have hlen : (s.fit size).len = min (size - 1) s.len := List.length_take
  omega

/-- Looking at the first byte of a string: it is a given one, other than NUL, exactly if the string
is not empty and starts with it. -/
theorem first_eq_iff {s : CStr} {c : UInt8} (hc : c ≠ 0) : s.first = c ↔ s.bytes.head? = some c := by
  unfold first
  cases s.bytes with
  | nil => simp [Ne.symm hc]
  | cons b rest => simp

/-- What `strstr` finds is no longer than the string, and at least as long as what it
looks for. -/
theorem strstr_len {s needle t : CStr} (h : s.strstr needle = some t) :
    needle.len ≤ t.len ∧ t.len ≤ s.len := by
  unfold strstr at h
  split at h
  · rename_i u hu
    cases h
    have hsuffix : u <:+ s.bytes := (List.mem_tails _ _).mp (List.mem_of_find?_eq_some hu)
    have hstarts : needle.bytes <+: u := List.isPrefixOf_iff_prefix.mp (List.find?_some hu)
    exact ⟨hstarts.length_le, hsuffix.length_le⟩
  · cases h

/-- On the bytes, `strstr` gives the first of the tails of the string that starts with the searched
text. -/
theorem strstr_bytes (s needle : CStr) :
    (s.strstr needle).map bytes = s.bytes.tails.find? needle.bytes.isPrefixOf := by
  unfold strstr
  split
  · rename_i t h
    exact h.symm
  · rename_i h
    exact h.symm

/-- `strstr` looks at the first position, then at the others. -/
theorem strstr_cons {s needle : CStr} {c : UInt8} {rest : List UInt8} (hs : s.bytes = c :: rest) :
    s.strstr needle =
      if needle.bytes <+: c :: rest then some s else (s.drop 1).strstr needle := by
  have hinj : Function.Injective (Option.map bytes) :=
    Option.map_injective fun s t h => CStr.ext h
  refine hinj ?_
  rw [strstr_bytes, hs, List.tails_cons, List.find?_cons]
  by_cases h : needle.bytes <+: c :: rest
  · rw [List.isPrefixOf_iff_prefix.mpr h, if_pos h, Option.map_some, hs]
  · have hfalse : needle.bytes.isPrefixOf (c :: rest) = false := by
      rw [← Bool.not_eq_true, List.isPrefixOf_iff_prefix]
      exact h
    rw [hfalse, if_neg h, strstr_bytes, drop_bytes, hs]
    rfl

/-- A string is determined by its bytes up to the NUL, so equal bytes give equal strings. -/
theorem bytes_injective : Function.Injective bytes := fun _ _ h => CStr.ext h

/-- **What `strstr` finds**: the string from the first place on at which it begins with
`needle`. -/
theorem strstr_eq_some_iff {s needle t : CStr} :
    s.strstr needle = some t ↔ ∃ before, s.bytes = before ++ t.bytes ∧
      Search.Clear needle.bytes before t.bytes ∧ needle.bytes <+: t.bytes := by
  rw [← Search.firstAt_eq_some_iff, Search.firstAt, ← strstr_bytes, Option.map_eq_some_iff]
  constructor
  · intro h
    exact ⟨t, h, rfl⟩
  · rintro ⟨u, hu, hbytes⟩
    rw [hu, CStr.ext hbytes]

/-- **A piece is skipped** in which `needle` does not begin. -/
theorem strstr_skip {s needle rest : CStr} {before : List UInt8}
    (hs : s.bytes = before ++ rest.bytes)
    (hclear : Search.Clear needle.bytes before rest.bytes) :
    s.strstr needle = rest.strstr needle := by
  refine Option.map_injective bytes_injective ?_
  rw [strstr_bytes, strstr_bytes, hs]
  exact Search.firstAt_append hclear

/-- `strstr` finds nothing exactly if the searched bytes do not stand anywhere in the string. -/
theorem strstr_eq_none_iff {s needle : CStr} :
    s.strstr needle = none ↔ ¬ needle.bytes <:+: s.bytes := by
  rw [← Search.firstAt_eq_none_iff, Search.firstAt, ← strstr_bytes, Option.map_eq_none_iff]

/-- A string contains another one, as the code tests it with `strstr`, exactly if its bytes stand in
it as one block. -/
theorem contains_iff {s needle : CStr} : s.contains needle = true ↔ needle.bytes <:+: s.bytes := by
  rw [contains, List.any_eq_true, List.infix_iff_prefix_suffix]
  constructor
  · rintro ⟨t, ht, hstarts⟩
    exact ⟨t, List.isPrefixOf_iff_prefix.mp hstarts, (List.mem_tails t s.bytes).mp ht⟩
  · rintro ⟨t, hstarts, ht⟩
    exact ⟨t, (List.mem_tails t s.bytes).mpr ht, List.isPrefixOf_iff_prefix.mpr hstarts⟩

/-- What `strchr` finds, where the byte is in the string. -/
theorem strchr_append {s : CStr} {c : UInt8} {before rest : List UInt8} (hc : c ∉ before)
    (hs : s.bytes = before ++ c :: rest) : ∃ t, s.strchr c = some t ∧ t.bytes = c :: rest := by
  have hskip : (s.skipWhile (· ≠ c)).bytes = c :: rest := by
    show s.bytes.dropWhile _ = _
    rw [hs, List.dropWhile_append_of_pos, List.dropWhile_cons_of_neg (by simp)]
    intro b hb
    exact decide_eq_true (fun h => hc (h ▸ hb))
  refine ⟨_, ?_, hskip⟩
  unfold strchr
  dsimp only
  rw [hskip, if_neg (List.cons_ne_nil _ _)]

/-- `strchr` finds nothing where the byte does not occur in the string. -/
theorem strchr_eq_none {s : CStr} {c : UInt8} (hc : c ∉ s.bytes) : s.strchr c = none := by
  have hskip : (s.skipWhile (· ≠ c)).bytes = [] := by
    show s.bytes.dropWhile _ = _
    rw [List.dropWhile_eq_nil_iff]
    intro b hb
    exact decide_eq_true (fun h => hc (h ▸ hb))
  unfold strchr
  dsimp only
  rw [hskip, if_pos rfl]

/-- **Up to what `strchr` finds**, or to the end, the byte is not in the string. -/
theorem not_mem_take_strchr (s : CStr) (c : UInt8) :
    c ∉ s.bytes.take (s.len - ((s.strchr c).map len).getD 0) := by
  by_cases hc : c ∈ s.bytes
  · obtain ⟨before, rest, hs, hbefore⟩ := List.eq_append_cons_of_mem hc
    obtain ⟨t, ht, hbytes⟩ := strchr_append hbefore hs
    have hlen : s.len - t.len = before.length := by
      rw [len, len, hs, hbytes, List.length_append]
      exact Nat.add_sub_cancel _ _
    rw [ht, Option.map_some, Option.getD_some, hlen, hs, List.take_left]
    exact hbefore
  · exact fun h => hc (List.mem_of_mem_take h)

/-- What `strchr` finds starts with the searched byte. The NUL is excluded, as `strchr` finds that
one at the end of the string. -/
theorem strchr_first {s t : CStr} {c : UInt8} (hc : c ≠ 0) (h : s.strchr c = some t) :
    t.first = c := by
  by_cases hmem : c ∈ s.bytes
  · obtain ⟨before, rest, hs, hbefore⟩ := List.eq_append_cons_of_mem hmem
    obtain ⟨u, hu, hbytes⟩ := strchr_append hbefore hs
    rw [hu] at h
    cases h
    rw [first_eq_iff hc, hbytes]
    rfl
  · rw [strchr_eq_none hmem] at h
    cases h

/-- What `strchr` finds is no longer than the string, and not empty. -/
theorem strchr_len {s t : CStr} {c : UInt8} (h : s.strchr c = some t) :
    0 < t.len ∧ t.len ≤ s.len := by
  unfold strchr at h
  dsimp only at h
  split at h
  · cases h
  · rename_i hne
    cases h
    exact ⟨List.length_pos_iff.mpr hne, (List.dropWhile_suffix _).length_le⟩

end CStr
