/-
# Words in memory

The words that stand one behind the other from an address on, most significant byte first.
Words that are written are there (`wordsAt_write`), and they come along where their bytes are
copied (`WordsAt.copied`).
-/

import RrLauncher.Lib.ByteReader
import RrLauncher.Lib.Memory.Loops

namespace Memory

open ByteReader (be32)

/-- The `n` bytes from `p` on. -/
def bytesAt (m : Memory) (p : UInt32) (n : ℕ) : List UInt8 :=
  (List.range n).map fun i => m (p + UInt32.ofNat i)

/-- The `n` words from `p` on. -/
def wordsFrom (m : Memory) (p : UInt32) (n : ℕ) : List UInt32 :=
  (List.range n).map fun i => m.word (p + UInt32.ofNat (4 * i))

/-- The words are at `p`. -/
def WordsAt (m : Memory) (p : UInt32) (words : List UInt32) : Prop :=
  ∀ i (h : i < words.length), m.word (p + UInt32.ofNat (4 * i)) = words[i]

/-- As many bytes are read as were asked for. -/
@[simp] theorem length_bytesAt (m : Memory) (p : UInt32) (n : ℕ) : (m.bytesAt p n).length = n := by
  rw [bytesAt, List.length_map, List.length_range]

/-- As many words are read as were asked for. -/
@[simp] theorem length_wordsFrom (m : Memory) (p : UInt32) (n : ℕ) :
    (m.wordsFrom p n).length = n := by
  rw [wordsFrom, List.length_map, List.length_range]

/-- The words that are read from an address stand there. -/
theorem wordsAt_wordsFrom (m : Memory) (p : UInt32) (n : ℕ) : m.WordsAt p (m.wordsFrom p n) := by
  intro i hi
  simp only [wordsFrom, List.getElem_map, List.getElem_range]

/-- The words behind the first one are four bytes further on. The addresses wrap on both sides
alike. -/
theorem next_word (p : UInt32) (i : ℕ) :
    p + 4 + UInt32.ofNat (4 * i) = p + UInt32.ofNat (4 * (i + 1)) := by
  rw [Nat.mul_succ, UInt32.ofNat_add, UInt32.add_comm (UInt32.ofNat (4 * i)), ← UInt32.add_assoc]
  rfl

/-- A word is its four bytes, wherever they are: two places with the same bytes have the same word.
-/
theorem word_eq_of_bytes {m m' : Memory} {p q : UInt32}
    (h : ∀ i < 4, m' (p + UInt32.ofNat i) = m (q + UInt32.ofNat i)) : m'.word p = m.word q := by
  have h₀ : m' p = m q := by simpa using h 0 (by omega)
  have h₁ : m' (p + 1) = m (q + 1) := h 1 (by omega)
  have h₂ : m' (p + 2) = m (q + 2) := h 2 (by omega)
  have h₃ : m' (p + 3) = m (q + 3) := h 3 (by omega)
  rw [word, word, h₀, h₁, h₂, h₃]

/-- Words stand at an address exactly if the first one does and the others stand four bytes behind
it. -/
theorem wordsAt_cons {m : Memory} {p w : UInt32} {words : List UInt32} :
    m.WordsAt p (w :: words) ↔ m.word p = w ∧ m.WordsAt (p + 4) words := by
  constructor
  · intro h
    refine ⟨by simpa using h 0 (Nat.succ_pos _), fun i hi => ?_⟩
    rw [next_word]
    exact h (i + 1) (Nat.succ_lt_succ hi)
  · rintro ⟨hw, hrest⟩ i hi
    cases i with
    | zero => simpa using hw
    | succ i =>
      rw [← next_word]
      exact hrest i (Nat.lt_of_succ_lt_succ hi)

/-- Words that stand at an address, and others directly behind them, stand there together. -/
theorem WordsAt.append {m : Memory} {p : UInt32} {words rest : List UInt32} (h : m.WordsAt p words)
    (hrest : m.WordsAt (p + UInt32.ofNat (4 * words.length)) rest) : m.WordsAt p (words ++ rest) := by
  induction words generalizing p with
  | nil => simpa using hrest
  | cons w words ih =>
    rw [wordsAt_cons] at h
    rw [List.cons_append, wordsAt_cons]
    refine ⟨h.1, ih h.2 ?_⟩
    rw [next_word]
    exact hrest

/-- Of words that stand at an address the first ones stand there, and the others directly behind
them. -/
theorem WordsAt.split {m : Memory} {p : UInt32} {words rest : List UInt32}
    (h : m.WordsAt p (words ++ rest)) :
    m.WordsAt p words ∧ m.WordsAt (p + UInt32.ofNat (4 * words.length)) rest := by
  induction words generalizing p with
  | nil => exact ⟨fun i hi => absurd hi (Nat.not_lt_zero i), by simpa using h⟩
  | cons w words ih =>
    rw [List.cons_append, wordsAt_cons] at h
    obtain ⟨hfirst, hbehind⟩ := ih h.2
    rw [next_word] at hbehind
    exact ⟨wordsAt_cons.mpr ⟨h.1, hfirst⟩, hbehind⟩

/-- Words stay where they are if only other addresses change. -/
theorem WordsAt.congr {m m' : Memory} {p : UInt32} {words : List UInt32} (h : m.WordsAt p words)
    (hsame : ∀ a, InRange p (4 * words.length) a → m' a = m a) : m'.WordsAt p words := by
  intro i hi
  rw [← h i hi]
  exact word_congr fun a ha => hsame a (ha.of_offset (by omega))

/-- **Words come along with their bytes**: where the bytes of words were copied to, the same words
stand. -/
theorem WordsAt.copied {m m' : Memory} {p q : UInt32} {words : List UInt32} (h : m.WordsAt q words)
    (hbytes : ∀ i < 4 * words.length, m' (p + UInt32.ofNat i) = m (q + UInt32.ofNat i)) :
    m'.WordsAt p words := by
  intro i hi
  rw [← h i hi]
  refine word_eq_of_bytes fun k hk => ?_
  rw [UInt32.add_assoc, UInt32.add_assoc, ← UInt32.ofNat_add]
  exact hbytes _ (by omega)

/-- The bytes of a word, most significant first, give the word when it is read. -/
theorem word_of_holds {m : Memory} {p w : UInt32} (h : m.Holds p (be32 w)) : m.word p = w := by
  have hw := w.toNat_lt
  have hlen : (be32 w).length = 4 := rfl
  have h₀ : m p = UInt8.ofNat (w.toNat / 2 ^ 24) := by
    rw [← UInt32.add_zero p]
    exact h 0 (by omega)
  have h₁ : m (p + 1) = UInt8.ofNat (w.toNat / 2 ^ 16) := h 1 (by omega)
  have h₂ : m (p + 2) = UInt8.ofNat (w.toNat / 2 ^ 8) := h 2 (by omega)
  have h₃ : m (p + 3) = UInt8.ofNat w.toNat := h 3 (by omega)
  rw [word, h₀, h₁, h₂, h₃]
  simp only [UInt8.toNat_ofNat']
  rw [← UInt32.toNat_inj, UInt32.toNat_ofNat_of_lt' (show _ < 2 ^ 32 by omega)]
  omega

/-- Where a text stands in memory, its first part stands at the same address. -/
theorem Holds.left {m : Memory} {p : UInt32} {bytes rest : List UInt8}
    (h : m.Holds p (bytes ++ rest)) : m.Holds p bytes := by
  intro i hi
  rw [h i (by rw [List.length_append]; omega), List.getElem_append_left hi]

/-- Where a text stands in memory, its second part stands behind the first one. -/
theorem Holds.right {m : Memory} {p : UInt32} {bytes rest : List UInt8}
    (h : m.Holds p (bytes ++ rest)) : m.Holds (p + UInt32.ofNat bytes.length) rest := by
  intro i hi
  rw [UInt32.add_assoc, ← UInt32.ofNat_add, h _ (by rw [List.length_append]; omega),
    List.getElem_append_right (Nat.le_add_right _ _)]
  simp only [Nat.add_sub_cancel_left]

/-- The bytes of words, most significant byte first, are these words where they stand in memory. -/
theorem wordsAt_of_holds {m : Memory} {p : UInt32} {words : List UInt32}
    (h : m.Holds p (words.flatMap be32)) : m.WordsAt p words := by
  induction words generalizing p with
  | nil => exact fun i hi => absurd hi (Nat.not_lt_zero i)
  | cons w words ih =>
    rw [List.flatMap_cons] at h
    exact wordsAt_cons.mpr ⟨word_of_holds h.left, ih h.right⟩

/-- Words have four bytes each, so as many bytes are written for a list of them. -/
theorem length_flatMap_be32 (words : List UInt32) :
    (words.flatMap be32).length = 4 * words.length := by
  induction words with
  | nil => rfl
  | cons w words ih =>
    rw [List.flatMap_cons, List.length_append, ih, List.length_cons]
    have hfour : (be32 w).length = 4 := rfl
    omega

/-- **Words that are written are there** afterwards, each at its place, if they do not come around
in memory to their own start. -/
theorem wordsAt_write (m : Memory) (p : UInt32) {words : List UInt32}
    (h : 4 * words.length ≤ 2 ^ 32) : (m.write p (words.flatMap be32)).WordsAt p words :=
  wordsAt_of_holds (holds_write m p (by rw [length_flatMap_be32]; exact h))

/-- Bytes that are copied are there afterwards, one by one, whether or not the two places overlap:
they are read first. -/
theorem write_bytesAt_add (m : Memory) (p q : UInt32) {n i : ℕ} (hn : n ≤ 2 ^ 32) (hi : i < n) :
    m.write p (m.bytesAt q n) (p + UInt32.ofNat i) = m (q + UInt32.ofNat i) := by
  have hlen : i < (m.bytesAt q n).length := by rw [length_bytesAt]; exact hi
  rw [holds_write m p (by rw [length_bytesAt]; exact hn) i hlen]
  simp only [bytesAt, List.getElem_map, List.getElem_range]

/-- Addresses of the range, by how far they are behind the first one. -/
theorem inRange_ofNat {p : UInt32} {i n : ℕ} (hi : i < n) (hn : n ≤ 2 ^ 32) :
    InRange p n (p + UInt32.ofNat i) := by
  rw [InRange, toNat_offset (by omega)]
  exact hi

end Memory
