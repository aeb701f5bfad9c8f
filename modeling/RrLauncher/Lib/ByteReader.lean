/-
# Reading a byte stream from the front

Readers take what they need from the front of the bytes that are left and fail
when there is not enough.  A reader that `Reads` a piece as a value takes exactly
that piece, whatever follows, and fails on each of its strict prefixes.  Both
halves compose (`Reads.bind`), so a format that is read piece by piece is read
back from what was written, and no truncated file passes for a whole one.

What a reader takes from bytes that nobody wrote is described by `Local`: it does not
depend on the bytes behind.  `leading` are the values that a reader takes in turn, up to
its first failure, and they too are those of a prefix of the bytes (`leading_local`).
-/

import Mathlib.Algebra.Group.Nat.Defs
import Mathlib.Data.List.Basic

namespace ByteReader

/-- A reader of values from the front of some bytes, which hands on the rest of them or fails. -/
abbrev Reader (ε α : Type) := StateT (List UInt8) (Except ε) α

variable {ε α β : Type}

/-- The reader takes the piece `bs` as the value `a`. -/
def Reads (r : Reader ε α) (bs : List UInt8) (a : α) : Prop :=
  (∀ rest, r (bs ++ rest) = .ok (a, rest)) ∧ ∀ p, p <+: bs → p ≠ bs → ∃ e, r p = .error e

/-- A strict prefix of two pieces is one of the first, or all of it and one of the
second. -/
theorem strict_prefix_append {bs cs p : List UInt8} (h : p <+: bs ++ cs) (hne : p ≠ bs ++ cs) :
    (p <+: bs ∧ p ≠ bs) ∨ ∃ q, p = bs ++ q ∧ q <+: cs ∧ q ≠ cs := by
  rcases List.prefix_or_prefix_of_prefix h (List.prefix_append bs cs) with hp | ⟨q, rfl⟩
  · by_cases heq : p = bs
    · refine Or.inr ⟨[], by rw [heq, List.append_nil], List.nil_prefix, fun hcs => hne ?_⟩
      rw [heq, ← hcs, List.append_nil]
    · exact Or.inl ⟨hp, heq⟩
  · exact Or.inr ⟨q, rfl, (List.prefix_append_right_inj bs).mp h, fun hq => hne (by rw [hq])⟩

/-- A reader that only returns a value reads it from no bytes at all. -/
theorem Reads.pure (a : α) : Reads (Pure.pure a : Reader ε α) [] a :=
  ⟨fun _ => rfl, fun _ hp hne => absurd (List.prefix_nil.mp hp) hne⟩

/-- **Reading piece by piece**: if one reader reads a value from some bytes, and the next one
another value from others, then the two in a row do from all of them. No strict prefix of these
reads at all. -/
theorem Reads.bind {m : Reader ε α} {f : α → Reader ε β} {bs cs : List UInt8} {a : α} {b : β}
    (hm : Reads m bs a) (hf : Reads (f a) cs b) : Reads (m >>= f) (bs ++ cs) b := by
  refine ⟨fun rest => ?_, fun p hp hne => ?_⟩
  · show (m (bs ++ cs ++ rest) >>= fun x => f x.1 x.2) = _
    rw [List.append_assoc, hm.1 (cs ++ rest)]
    exact hf.1 rest
  · rcases strict_prefix_append hp hne with ⟨hpb, hpne⟩ | ⟨q, rfl, hq, hqne⟩
    · obtain ⟨e, he⟩ := hm.2 p hpb hpne
      refine ⟨e, ?_⟩
      show (m p >>= fun x => f x.1 x.2) = _
      rw [he]
      rfl
    · obtain ⟨e, he⟩ := hf.2 q hq hqne
      refine ⟨e, ?_⟩
      show (m (bs ++ q) >>= fun x => f x.1 x.2) = _
      rw [hm.1 q]
      exact he

/-- The next `n` bytes, or the error where there are fewer of them. -/
def take (n : ℕ) (e : ε) : Reader ε (List UInt8) := fun bytes =>
  if n ≤ bytes.length then .ok (bytes.take n, bytes.drop n) else .error e

/-- As many bytes as a string has read back as that string. -/
theorem reads_take (bs : List UInt8) (e : ε) : Reads (take bs.length e) bs bs := by
  refine ⟨fun rest => ?_, fun p hp hne => ⟨e, ?_⟩⟩
  · rw [take, if_pos (by simp), List.take_left, List.drop_left]
  · rw [take, if_neg]
    exact fun hle => hne (hp.eq_of_length_le hle)

/-- The bytes of a `u32`, most significant first. -/
def be32 (x : UInt32) : List UInt8 :=
  [UInt8.ofNat (x.toNat / 2 ^ 24), UInt8.ofNat (x.toNat / 2 ^ 16), UInt8.ofNat (x.toNat / 2 ^ 8),
    UInt8.ofNat x.toNat]

/-- A `u32` from its bytes. -/
def u32 (e : ε) : Reader ε UInt32
  | a :: b :: c :: d :: rest =>
    .ok (UInt32.ofNat (a.toNat * 2 ^ 24 + b.toNat * 2 ^ 16 + c.toNat * 2 ^ 8 + d.toNat), rest)
  | _ => .error e

/-- **A `u32` reads back** from its four bytes, and from fewer of them nothing is read. -/
theorem reads_u32 (x : UInt32) (e : ε) : Reads (u32 e) (be32 x) x := by
  refine ⟨fun rest => ?_, fun p hp hne => ⟨e, ?_⟩⟩
  · have hx := x.toNat_lt
    simp only [be32, List.cons_append, List.nil_append, u32, Except.ok.injEq, Prod.mk.injEq,
      and_true, UInt8.toNat_ofNat']
    rw [← UInt32.toNat_inj, UInt32.toNat_ofNat']
    omega
  · have hlen : p.length < 4 := by
      have hle : p.length ≤ 4 := hp.length_le
      have hne4 : p.length ≠ 4 := fun h => hne (hp.eq_of_length h)
      omega
    match p, hlen with
    | [], _ => rfl
    | [_], _ => rfl
    | [_, _], _ => rfl
    | [_, _, _], _ => rfl

/-! ### What a reader takes -/

/-- What the reader takes from the front does not depend on what follows. -/
def Local (r : Reader ε α) : Prop :=
  ∀ bytes a rest, r bytes = .ok (a, rest) →
    ∃ piece, bytes = piece ++ rest ∧ ∀ rest', r (piece ++ rest') = .ok (a, rest')

/-- A reader that only returns a value takes nothing, so nothing behind it matters. -/
theorem Local.pure (a : α) : Local (Pure.pure a : Reader ε α) := by
  rintro bytes _ _ ⟨⟩
  exact ⟨[], rfl, fun _ => rfl⟩

/-- A reader that only fails never takes anything. -/
theorem Local.throw (e : ε) : Local (MonadExcept.throw e : Reader ε α) :=
  fun _ _ _ h => by cases h

/-- Two readers one after the other: where neither looks at what follows the piece that it takes,
the two together do not look behind theirs. -/
theorem Local.bind {m : Reader ε α} {f : α → Reader ε β} (hm : Local m) (hf : ∀ a, Local (f a)) :
    Local (m >>= f) := by
  intro bytes b rest h
  change (m bytes >>= fun x => f x.1 x.2) = _ at h
  cases hrun : m bytes with
  | error e =>
    rw [hrun] at h
    cases h
  | ok x =>
    rw [hrun] at h
    obtain ⟨piece₁, rfl, hall₁⟩ := hm bytes x.1 x.2 hrun
    obtain ⟨piece₂, hpiece, hall₂⟩ := hf x.1 x.2 b rest h
    refine ⟨piece₁ ++ piece₂, by rw [List.append_assoc, ← hpiece], fun rest' => ?_⟩
    show (m (piece₁ ++ piece₂ ++ rest') >>= fun x => f x.1 x.2) = _
    rw [List.append_assoc, hall₁]
    exact hall₂ rest'

/-- A choice of readers by a condition that has nothing to do with the bytes is as local as both of
them. -/
theorem Local.ite {c : Prop} [Decidable c] {r r' : Reader ε α} (h : Local r) (h' : Local r') :
    Local (if c then r else r') := by
  split
  · exact h
  · exact h'

/-- Taking a number of bytes depends on those bytes alone. -/
theorem local_take (n : ℕ) (e : ε) : Local (take n e) := by
  intro bytes a rest h
  rw [take] at h
  split at h
  · rename_i hle
    cases h
    refine ⟨bytes.take n, (List.take_append_drop n bytes).symm, fun rest' => ?_⟩
    have hlen : (bytes.take n).length = n := List.length_take_of_le hle
    rw [take, if_pos (by rw [List.length_append, hlen]; exact Nat.le_add_right n _),
      List.take_left' hlen, List.drop_left' hlen]
  · cases h

/-- Reading a 32-bit number depends on its four bytes alone. -/
theorem local_u32 (e : ε) : Local (u32 e) := by
  intro bytes x rest h
  match bytes, h with
  | a :: b :: c :: d :: _, h =>
    cases h
    exact ⟨[a, b, c, d], rfl, fun _ => rfl⟩

/-- The values that a reader takes, `n` at most, up to its first failure. -/
def leading (r : Reader ε α) : ℕ → List UInt8 → List α
  | 0, _ => []
  | n + 1, bytes =>
    match r bytes with
    | .error _ => []
    | .ok (a, rest) => a :: leading r n rest

/-- No more values are taken than were asked for, and fewer where the bytes end or one is not
accepted. -/
theorem leading_length_le (r : Reader ε α) (n : ℕ) (bytes : List UInt8) :
    (leading r n bytes).length ≤ n := by
  induction n generalizing bytes with
  | zero => exact Nat.le_refl 0
  | succ n ih =>
    rw [leading]
    split
    · exact Nat.zero_le _
    · exact Nat.succ_le_succ (ih _)

/-- **The first values come from the first bytes**, whatever follows them. -/
theorem leading_local {r : Reader ε α} (hr : Local r) {n k : ℕ} {bytes : List UInt8}
    (hk : k ≤ (leading r n bytes).length) :
    ∃ piece rest, bytes = piece ++ rest ∧ ∀ m rest', k ≤ m →
      leading r m (piece ++ rest') = (leading r n bytes).take k ++ leading r (m - k) rest' := by
  induction k generalizing n bytes with
  | zero => exact ⟨[], bytes, rfl, fun m rest' _ => rfl⟩
  | succ k ih =>
    cases n with
    | zero => cases hk
    | succ n =>
      rw [leading] at hk ⊢
      split at hk
      · cases hk
      · rename_i a rest hrun
        obtain ⟨piece₁, rfl, hall₁⟩ := hr _ _ _ hrun
        obtain ⟨piece₂, rest₂, rfl, hall₂⟩ := ih (Nat.le_of_succ_le_succ hk)
        refine ⟨piece₁ ++ piece₂, rest₂, (List.append_assoc ..).symm, fun m rest' hm => ?_⟩
        cases m with
        | zero => cases hm
        | succ m =>
          rw [List.append_assoc, leading, hall₁]
          simp only [List.take_succ_cons, List.cons_append, Nat.add_sub_add_right]
          rw [hall₂ m rest' (Nat.le_of_succ_le_succ hm)]

/-- Of the bytes of a prefix a reader takes a prefix of the values. -/
theorem leading_take {r : Reader ε α} (hr : Local r) (n : ℕ) (p q : List UInt8) :
    leading r n p <+: leading r n (p ++ q) := by
  obtain ⟨piece, rest, rfl, hall⟩ := leading_local hr (Nat.le_refl (leading r n p).length)
  rw [List.append_assoc, hall n (rest ++ q) (leading_length_le r n _), List.take_length]
  exact List.prefix_append _ _

end ByteReader
