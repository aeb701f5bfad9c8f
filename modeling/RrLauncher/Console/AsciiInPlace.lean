/-
# ASCII text in place

`rrc_con_ascii_safe` may write over the text that it is reading.  No replacement is longer than
the bytes it stands for, whatever these are, so the loop never writes in front of what it still
has to read (`asciiSafeLoop_eq`), and the result is the same as with another buffer.  What it
reads is written down in a second run of the loop (`asciiSafeRun`).
-/

import RrLauncher.Console.AsciiSafe
import Mathlib.Data.List.Infix

namespace RrLauncher

/-- Bytes that the font of the console has, none of them a NUL. -/
def IsAscii (bytes : List UInt8) : Prop := ∀ b ∈ bytes, b < 0x80 ∧ b ≠ 0

instance (bytes : List UInt8) : Decidable (IsAscii bytes) :=
  inferInstanceAs (Decidable (∀ b ∈ bytes, b < 0x80 ∧ b ≠ 0))

/-! ### One piece -/

/-- A replacement has at most two bytes for a code point of two bytes, and three at most. -/
theorem asciiReplacement_spec (codepoint : ℕ) :
    IsAscii (asciiReplacement codepoint) ∧ (asciiReplacement codepoint).length ≤ 3 ∧
      (codepoint < 2 ^ 11 → (asciiReplacement codepoint).length ≤ 2) := by
  have hone : ∀ s : CStr, IsAscii s.bytes → s.bytes.length ≤ 2 →
      IsAscii s.bytes ∧ s.bytes.length ≤ 3 ∧ (codepoint < 2 ^ 11 → s.bytes.length ≤ 2) :=
    fun s hs hlen => ⟨hs, hlen.trans (by decide), fun _ => hlen⟩
  unfold asciiReplacement
  split
  case h_14 =>
    refine ⟨List.forall_iff_forall_mem.mp (by decide), by decide, fun h => absurd h (by decide)⟩
  all_goals exact hone _ (List.forall_iff_forall_mem.mp (by decide)) (by decide)

/-- The bits under a mask are below the power of two that the mask is below. -/
theorem lowBits_lt (b mask : UInt8) {n : ℕ} (h : mask.toNat < 2 ^ n) :
    lowBits b mask < 2 ^ n := by
  rw [lowBits, UInt8.toNat_and]
  exact Nat.lt_of_le_of_lt Nat.and_le_right h

/-- What a continuation byte is in front of: there is such a byte. -/
theorem lt_length_of_isContinuation {p : List UInt8} {i : ℕ} (h : isContinuation p i = true) :
    i < p.length := by
  by_contra hlen
  rw [isContinuation, List.getD_eq_getElem?_getD, List.getElem?_eq_none (Nat.le_of_not_lt hlen)] at h
  exact absurd h (by decide)

/-- **A piece is no longer than what it stands for**, and stands for bytes that are there. -/
theorem asciiPiece_spec {p : List UInt8} (hp : p ≠ []) (hnul : 0 ∉ p) :
    IsAscii (asciiPiece p).2 ∧ (asciiPiece p).2.length ≤ (asciiPiece p).1 ∧
      (asciiPiece p).1 ≤ p.length := by
  have hpos := List.length_pos_of_ne_nil hp
  have hrepl := fun codepoint => asciiReplacement_spec codepoint
  unfold asciiPiece
  dsimp only
  split_ifs with hascii htwo hthree hfour
  · have hhead : p.headD 0 ≠ 0 := by
      obtain ⟨c, rest, rfl⟩ := List.exists_cons_of_ne_nil hp
      exact fun h => hnul (h ▸ List.mem_cons_self)
    exact ⟨List.forall_mem_singleton.mpr ⟨hascii, hhead⟩, Nat.le_refl _, hpos⟩
  · have h₁ := lowBits_lt (p.headD 0) 0x1F (n := 5) (by decide)
    have h₂ := lowBits_lt (p.getD 1 0) 0x3F (n := 6) (by decide)
    exact ⟨(hrepl _).1, (hrepl _).2.2 (by omega), lt_length_of_isContinuation htwo.2⟩
  · exact ⟨(hrepl _).1, (hrepl _).2.1, lt_length_of_isContinuation hthree.2.2⟩
  · exact ⟨(hrepl _).1, (hrepl _).2.1.trans (by decide : 3 ≤ 4), lt_length_of_isContinuation hfour.2.2.2⟩
  · exact ⟨List.forall_iff_forall_mem.mp (by decide), Nat.le_refl _, hpos⟩

/-! ### Writing -/

/-- Bytes that follow each other can be written one part after the other, the second one behind the
first. -/
theorem writeBytes_append (mem : List UInt8) (p : ℕ) (bs cs : List UInt8) :
    writeBytes mem p (bs ++ cs) = writeBytes (writeBytes mem p bs) (p + bs.length) cs := by
  induction bs generalizing mem p with
  | nil => rfl
  | cons b bs ih =>
    rw [List.cons_append, writeBytes, ih, writeBytes, List.length_cons, Nat.add_right_comm]
    rfl

/-- Writing bytes leaves everything behind the place where they end: the text that was not read yet
is not touched. -/
theorem drop_writeBytes {mem bs : List UInt8} {p n : ℕ} (h : p + bs.length ≤ n) :
    (writeBytes mem p bs).drop n = mem.drop n := by
  induction bs generalizing mem p with
  | nil => rfl
  | cons b bs ih =>
    rw [List.length_cons] at h
    rw [writeBytes, ih (by omega), List.drop_set, if_pos (by omega)]

/-- Writing bytes leaves everything in front of the place where they begin: what was written before
stays. -/
theorem take_writeBytes {mem bs : List UInt8} {p n : ℕ} (h : n ≤ p) :
    (writeBytes mem p bs).take n = mem.take n := by
  induction bs generalizing mem p with
  | nil => rfl
  | cons b bs ih =>
    rw [writeBytes, ih (by omega), List.take_set, List.set_eq_of_length_le]
    exact (List.length_take_le _ _).trans h

/-- What is written inside the memory stands there, with what was in front of it and behind it left
as it was. -/
theorem writeBytes_eq {mem bs : List UInt8} {p : ℕ} (h : p + bs.length ≤ mem.length) :
    writeBytes mem p bs = mem.take p ++ (bs ++ mem.drop (p + bs.length)) := by
  induction bs generalizing mem p with
  | nil => exact (List.take_append_drop p mem).symm
  | cons b bs ih =>
    rw [List.length_cons] at h
    have hset : (mem.set p b).take (p + 1) = mem.take p ++ [b] := by
      rw [List.take_add_one, List.take_set, List.set_eq_of_length_le (List.length_take_le _ _),
        List.getElem?_set_self (by omega)]
      rfl
    rw [writeBytes, ih (by rw [List.length_set]; omega), hset, List.drop_set, if_pos (by omega),
      List.length_cons, List.append_assoc, Nat.add_right_comm, Nat.add_assoc]
    rfl

/-! ### The loop -/

/-- What the loop writes for a text: the pieces, cut off where the output is full. -/
def asciiText (outSize : ℕ) (s : List UInt8) (used : ℕ) : List UInt8 :=
  if _h : s ≠ [] ∧ used + 1 < outSize then
    let repl := (asciiPiece s).2.take (outSize - 1 - used)
    repl ++ asciiText outSize (s.drop (asciiPiece s).1) (used + repl.length)
  else []
  termination_by s.length
  decreasing_by
    have hpos := asciiPiece_pos s
    have hs := List.length_pos_of_ne_nil _h.1
    rw [List.length_drop]
    omega

/-- A text that stands in front of a NUL is what is read up to the first NUL, as it has none of its
own. -/
theorem takeWhile_of_isPrefix {s t : List UInt8} (hs : 0 ∉ s) (h : s ++ [0] <+: t) :
    t.takeWhile (· ≠ 0) = s := by
  obtain ⟨after, rfl⟩ := h
  rw [List.append_assoc, List.takeWhile_append_of_pos, List.singleton_append,
    List.takeWhile_cons_of_neg (by decide), List.append_nil]
  intro b hb
  exact decide_eq_true fun h => hs (h ▸ hb)

/-- Behind some bytes of the string comes the rest of it with its NUL, as long as no more are taken
than it has. -/
theorem isPrefix_drop {mem s : List UInt8} {p consumed : ℕ} (h : s ++ [0] <+: mem.drop p)
    (hle : consumed ≤ s.length) : s.drop consumed ++ [0] <+: mem.drop (p + consumed) := by
  obtain ⟨after, hafter⟩ := h
  refine ⟨after, ?_⟩
  rw [← List.drop_drop, ← hafter, List.append_assoc, List.append_assoc,
    List.drop_append_of_le_length hle]

/-- A text that stands in front of what is written stays, its NUL included, so the loop may go on
reading it. -/
theorem isPrefix_writeBytes {mem s bs : List UInt8} {p q : ℕ} (h : s ++ [0] <+: mem.drop p)
    (hlt : p + s.length < q) : s ++ [0] <+: (writeBytes mem q bs).drop p := by
  rw [List.prefix_iff_eq_take] at h ⊢
  have hlen : p + (s ++ [0]).length ≤ q := by
    rw [List.length_append, List.length_singleton]
    omega
  rw [List.take_drop, take_writeBytes hlen, ← List.take_drop]
  exact h

/-- The loop is at the text `s`, and the next byte that it writes is one that it has read, or
stands behind the text. -/
structure AsciiAhead (out : ℕ) (mem : List UInt8) (p used : ℕ) (s : List UInt8) : Prop where
  noNul : 0 ∉ s
  text : s ++ [0] <+: mem.drop p
  place : out + used ≤ p ∨ p + s.length < out + used

/-- **A turn of the loop reads every byte before it is written over.** -/
theorem AsciiAhead.step {out p used : ℕ} {mem s : List UInt8} (h : AsciiAhead out mem p used s)
    (hne : s ≠ []) {repl : List UInt8} (hrepl : repl.length ≤ (asciiPiece s).2.length) :
    AsciiAhead out (writeBytes mem (out + used) repl) (p + (asciiPiece s).1) (used + repl.length)
      (s.drop (asciiPiece s).1) := by
  obtain ⟨-, hlen, hthere⟩ := asciiPiece_spec hne h.noNul
  have hplace := h.place
  refine ⟨fun hnul => h.noNul (List.mem_of_mem_drop hnul), ?_, by rw [List.length_drop]; omega⟩
  rcases hplace with hbefore | hbehind
  · rw [drop_writeBytes (by omega)]
    exact isPrefix_drop h.text hthere
  · exact isPrefix_drop (isPrefix_writeBytes h.text hbehind) hthere

/-- Each turn consumes one byte of the input at least, so the loop ends at the NUL. -/
theorem length_drop_asciiPiece {s : List UInt8} (hne : s ≠ []) :
    (s.drop (asciiPiece s).1).length < s.length := by
  have hpos := asciiPiece_pos s
  have hs := List.length_pos_of_ne_nil hne
  rw [List.length_drop]
  omega

/-- The loop writes the text of its pieces and a NUL, if what is still to be read lies ahead of what
is written. The induction is on the text that is left. -/
theorem asciiSafeLoop_eq {out outSize p used : ℕ} {mem s : List UInt8}
    (h : AsciiAhead out mem p used s) :
    asciiSafeLoop out outSize mem p used =
      writeBytes mem (out + used) (asciiText outSize s used ++ [0]) := by
  induction hn : s.length using Nat.strong_induction_on generalizing s mem p used with
  | _ n ih =>
    subst hn
    rw [asciiSafeLoop, takeWhile_of_isPrefix h.noNul h.text, asciiText]
    split
    · rename_i hgo
      have hnext := h.step hgo.1 (List.length_take_le' (outSize - 1 - used) _)
      dsimp only
      rw [ih _ (length_drop_asciiPiece hgo.1) hnext rfl, List.append_assoc, ← Nat.add_assoc]
      exact (writeBytes_append _ _ _ _).symm
    · rfl

/-! ### The text that is written -/

/-- What is written is ASCII, leaves room for the NUL in the buffer and is no longer than the input,
from any turn on: by induction on the input that is left, with `used` bytes in the buffer. -/
theorem asciiText_spec {outSize used : ℕ} {s : List UInt8} (hs : 0 ∉ s) (hused : used < outSize) :
    IsAscii (asciiText outSize s used) ∧ used + (asciiText outSize s used).length < outSize ∧
      (asciiText outSize s used).length ≤ s.length := by
  induction hn : s.length using Nat.strong_induction_on generalizing s used with
  | _ n ih =>
    subst hn
    rw [asciiText]
    split
    · rename_i hgo
      obtain ⟨hascii, hlen, hthere⟩ := asciiPiece_spec hgo.1 hs
      have hpos := asciiPiece_pos s
      have htake := List.length_take_le (outSize - 1 - used) (asciiPiece s).2
      have htake' := List.length_take_le' (outSize - 1 - used) (asciiPiece s).2
      have hrepl : IsAscii ((asciiPiece s).2.take (outSize - 1 - used)) := fun b hb =>
        hascii b (List.mem_of_mem_take hb)
      dsimp only
      generalize (asciiPiece s).2.take (outSize - 1 - used) = repl at *
      generalize (asciiPiece s).1 = consumed at *
      obtain ⟨hrest, hfits, hshort⟩ := ih (s.drop consumed).length
        (by rw [List.length_drop]; omega) (fun h => hs (List.mem_of_mem_drop h))
        (by omega : used + repl.length < outSize) rfl
      rw [List.length_drop] at hshort
      rw [List.length_append]
      exact ⟨List.forall_mem_append.mpr ⟨hrepl, hrest⟩, by omega, by omega⟩
    · exact ⟨(fun b hb => by cases hb), hused, Nat.zero_le _⟩

/-- ASCII text that fits into what is left of the buffer is converted to itself, byte by byte. With
this a second call changes nothing. -/
theorem asciiText_of_isAscii {outSize used : ℕ} {s : List UInt8} (hs : IsAscii s)
    (hfits : used + s.length < outSize) : asciiText outSize s used = s := by
  induction s generalizing used with
  | nil =>
    rw [asciiText, dif_neg]
    exact fun h => h.1 rfl
  | cons c s ih =>
    rw [IsAscii, List.forall_mem_cons] at hs
    rw [List.length_cons] at hfits
    have hpiece : asciiPiece (c :: s) = (1, [c]) := if_pos hs.1.1
    have htake : [c].take (outSize - 1 - used) = [c] := List.take_of_length_le (by
      rw [List.length_singleton]
      omega)
    rw [asciiText, dif_pos ⟨List.cons_ne_nil _ _, by omega⟩, hpiece]
    dsimp only
    rw [htake, List.drop_succ_cons, List.drop_zero, List.length_singleton, ih hs.2 (by omega)]
    rfl

/-- What a call leaves in a memory that has room for it. -/
theorem rrcConAsciiSafe_eq {mem s : List UInt8} {text out outSize : ℕ} (hsize : 0 < outSize)
    (hs : 0 ∉ s) (hmem : s ++ [0] <+: mem.drop text) (hplace : out ≤ text ∨ text + s.length < out)
    (hroom : out + (asciiText outSize s 0).length < mem.length) :
    rrcConAsciiSafe mem text out outSize =
      mem.take out ++ (asciiText outSize s 0 ++ 0 ::
        mem.drop (out + (asciiText outSize s 0).length + 1)) := by
  rw [rrcConAsciiSafe, if_neg (Nat.pos_iff_ne_zero.mp hsize), asciiSafeLoop_eq ⟨hs, hmem, hplace⟩,
    Nat.add_zero, writeBytes_eq]
  · rw [List.length_append, List.length_singleton, List.append_assoc, Nat.add_assoc]
    rfl
  · rw [List.length_append, List.length_singleton]
    omega

/-- The string in the buffer is what the loop writes from its first turn on; it has no NUL in it, so
it ends at the one behind it. -/
theorem asciiSafeInPlace_bytes {s : List UInt8} {outSize : ℕ} (hs : 0 ∉ s) (hsize : 0 < outSize) :
    (asciiSafeInPlace s outSize).bytes = asciiText outSize s 0 := by
  obtain ⟨hascii, -, hshort⟩ := asciiText_spec hs hsize
  have hnul : 0 ∉ asciiText outSize s 0 := fun h => (hascii 0 h).2 rfl
  rw [asciiSafeInPlace, rrcConAsciiSafe_eq hsize hs (List.prefix_refl _) (Or.inl (Nat.le_refl 0))
    (by rw [List.length_append, List.length_singleton]; omega)]
  exact takeWhile_of_isPrefix hnul (List.prefix_append_right_inj _ |>.mpr
    (List.cons_prefix_cons.mpr ⟨rfl, List.nil_prefix⟩))

/-! ### What is read -/

/-- `p[i]`, `p[i + 1]` and so on: the next one is read only behind a continuation byte. -/
def continuationReads (p : List UInt8) (i : ℕ) : ℕ → List ℕ
  | 0 => []
  | count + 1 => i :: if isContinuation p i then continuationReads p (i + 1) count else []

/-- What a turn of the loop reads of the bytes at `p`. -/
def pieceReads (p : List UInt8) : List ℕ :=
  let c0 := p.headD 0
  0 :: if c0 < 0x80 then []
    -- a lead byte has one of the patterns only, so no branch reads where another one failed
    else if c0 &&& 0xE0 = 0xC0 then continuationReads p 1 1
    else if c0 &&& 0xF0 = 0xE0 then continuationReads p 1 2
    else if c0 &&& 0xF8 = 0xF0 then continuationReads p 1 3
    else []

/-- What a call read, and the memory it left. -/
structure AsciiSafeRun where
  reads : List ℕ
  mem : List UInt8

/-- The loop of `rrc_con_ascii_safe` once more, on the bytes as they are in memory. -/
def asciiSafeRun (out outSize : ℕ) (mem : List UInt8) (p used : ℕ) : AsciiSafeRun :=
  if _h : mem.getD p 0 ≠ 0 ∧ used + 1 < outSize then
    let piece := asciiPiece (mem.drop p)
    let repl := piece.2.take (outSize - 1 - used)
    let run := asciiSafeRun out outSize (writeBytes mem (out + used) repl) (p + piece.1)
      (used + repl.length)
    ⟨p :: ((pieceReads (mem.drop p)).map (p + ·) ++ run.reads), run.mem⟩
  else ⟨[p], mem.set (out + used) 0⟩
  termination_by mem.length - p
  decreasing_by
    have hpos := asciiPiece_pos (mem.drop p)
    have hp : p < mem.length := by
      by_contra hp
      rw [List.getD_eq_getElem?_getD, List.getElem?_eq_none (Nat.le_of_not_lt hp)] at _h
      exact _h.1 rfl
    rw [length_writeBytes]
    exact Nat.sub_lt_sub_left hp (Nat.lt_add_of_pos_right hpos)

/-- `rrc_con_ascii_safe(text, out, out_size)`, with what it reads. -/
def rrcConAsciiSafeRun (mem : List UInt8) (text out outSize : ℕ) : AsciiSafeRun :=
  if outSize = 0 then ⟨[], mem⟩ else asciiSafeRun out outSize mem text 0

/-- A piece is not decoded differently for what stands behind the NUL. -/
theorem asciiPiece_append {s : List UInt8} (hs : s ≠ []) (after : List UInt8) :
    asciiPiece (s ++ 0 :: after) = asciiPiece s := by
  rcases s with _ | ⟨c₀, _ | ⟨c₁, _ | ⟨c₂, _ | ⟨c₃, s⟩⟩⟩⟩
  · exact absurd rfl hs
  all_goals simp [asciiPiece, isContinuation]

/-- The byte behind the string is its NUL, which is what the loop stops at. -/
theorem getD_of_isPrefix {s t : List UInt8} (h : s ++ [0] <+: t) {i : ℕ} (hi : i = s.length) :
    t.getD i 0 = 0 := by
  obtain ⟨after, rfl⟩ := h
  rw [hi, List.append_assoc, List.getD_eq_getElem?_getD, List.getElem?_append_right (Nat.le_refl _),
    Nat.sub_self]
  rfl

/-- A NUL is no continuation byte, so no read goes on behind it. -/
theorem continuationReads_le {s t : List UInt8} (h : s ++ [0] <+: t) (count : ℕ) {i : ℕ}
    (hi : i ≤ s.length) : ∀ j ∈ continuationReads t i count, j ≤ s.length := by
  induction count generalizing i with
  | zero => exact fun j hj => by cases hj
  | succ count ih =>
    rw [continuationReads, List.forall_mem_cons]
    refine ⟨hi, ?_⟩
    split
    · rename_i hcont
      refine ih (Nat.lt_of_le_of_ne hi fun heq => ?_)
      rw [isContinuation, getD_of_isPrefix h heq] at hcont
      exact absurd hcont (by decide)
    · exact fun j hj => by cases hj

/-- One turn reads the bytes of a piece and the one that shows it is cut short, which is the NUL at
the latest: behind a lead byte the test of each byte comes before the next is read. -/
theorem pieceReads_le {s t : List UInt8} (hs : s ≠ []) (h : s ++ [0] <+: t) :
    ∀ j ∈ pieceReads t, j ≤ s.length := by
  have hpos : 1 ≤ s.length := List.length_pos_of_ne_nil hs
  unfold pieceReads
  dsimp only
  rw [List.forall_mem_cons]
  refine ⟨Nat.zero_le _, ?_⟩
  split_ifs
  · exact fun j hj => by cases hj
  · exact continuationReads_le h _ hpos
  · exact continuationReads_le h _ hpos
  · exact continuationReads_le h _ hpos
  · exact fun j hj => by cases hj

/-- **Nothing behind the NUL of the text is read**, and what is read does not change the call. -/
theorem asciiSafeRun_spec {out outSize p used : ℕ} {mem s : List UInt8}
    (h : AsciiAhead out mem p used s) :
    (asciiSafeRun out outSize mem p used).mem = asciiSafeLoop out outSize mem p used ∧
      ∀ i ∈ (asciiSafeRun out outSize mem p used).reads, p ≤ i ∧ i ≤ p + s.length := by
  induction hn : s.length using Nat.strong_induction_on generalizing s mem p used with
  | _ n ih =>
    subst hn
    obtain ⟨after, hafter⟩ := h.text
    have hgo : mem.getD p 0 ≠ 0 ↔ s ≠ [] := by
      rw [List.getD_eq_getElem?_getD, ← Nat.add_zero p, ← List.getElem?_drop, ← hafter]
      cases s with
      | nil => simp
      | cons c s => simpa using fun hc : c = 0 => h.noNul (hc ▸ List.mem_cons_self)
    rw [asciiSafeRun, asciiSafeLoop, takeWhile_of_isPrefix h.noNul h.text]
    by_cases hturn : s ≠ [] ∧ used + 1 < outSize
    · have hpiece : asciiPiece (mem.drop p) = asciiPiece s := by
        rw [← hafter, List.append_assoc]
        exact asciiPiece_append hturn.1 after
      have hnext := h.step hturn.1 (List.length_take_le' (outSize - 1 - used) _)
      obtain ⟨hmem, hreads⟩ := ih _ (length_drop_asciiPiece hturn.1) hnext rfl
      have hthere := (asciiPiece_spec hturn.1 h.noNul).2.2
      rw [dif_pos ⟨hgo.mpr hturn.1, hturn.2⟩, dif_pos hturn]
      dsimp only
      rw [hpiece]
      refine ⟨hmem, List.forall_mem_cons.mpr ⟨⟨Nat.le_refl _, Nat.le_add_right _ _⟩,
        List.forall_mem_append.mpr ⟨fun i hi => ?_, fun i hi => ?_⟩⟩⟩
      · obtain ⟨j, hj, rfl⟩ := List.mem_map.mp hi
        exact ⟨Nat.le_add_right _ _, Nat.add_le_add_left (pieceReads_le hturn.1 h.text j hj) p⟩
      · have := hreads i hi
        rw [List.length_drop] at this
        omega
    · rw [dif_neg (fun hrun => hturn ⟨hgo.mp hrun.1, hrun.2⟩), dif_neg hturn]
      exact ⟨rfl, List.forall_mem_singleton.mpr ⟨Nat.le_refl _, Nat.le_add_right _ _⟩⟩

/-- The run that also notes what it reads writes what the function writes, and reads nothing outside
of the input string.  This needs that what is written stays behind what is still to be read, as it
does in place, or lies behind the input. -/
theorem rrcConAsciiSafeRun_spec {mem s : List UInt8} {text out : ℕ} (outSize : ℕ) (hs : 0 ∉ s)
    (hmem : s ++ [0] <+: mem.drop text) (hplace : out ≤ text ∨ text + s.length < out) :
    (rrcConAsciiSafeRun mem text out outSize).mem = rrcConAsciiSafe mem text out outSize ∧
      ∀ i ∈ (rrcConAsciiSafeRun mem text out outSize).reads, text ≤ i ∧ i ≤ text + s.length := by
  rw [rrcConAsciiSafeRun, rrcConAsciiSafe]
  split
  · exact ⟨rfl, fun i hi => by cases hi⟩
  · exact asciiSafeRun_spec ⟨hs, hmem, hplace⟩

/-- What a call with a text and an output buffer that are apart, or are the same, leaves. -/
theorem asciiSafe_result (text : CStr) {mem : List UInt8} {p out outSize : ℕ} (hsize : 0 < outSize)
    (hmem : text.bytes ++ [0] <+: mem.drop p) (hplace : out ≤ p ∨ p + text.len < out)
    (hroom : out + (asciiSafeInPlace text.bytes outSize).len < mem.length) :
    (rrcConAsciiSafeRun mem p out outSize).mem =
        mem.take out ++ ((asciiSafeInPlace text.bytes outSize).bytes ++ 0 ::
          mem.drop (out + (asciiSafeInPlace text.bytes outSize).len + 1)) ∧
      ∀ i ∈ (rrcConAsciiSafeRun mem p out outSize).reads, p ≤ i ∧ i ≤ p + text.len := by
  obtain ⟨hrun, hreads⟩ := rrcConAsciiSafeRun_spec outSize text.noNul hmem hplace
  have hbytes := asciiSafeInPlace_bytes text.noNul hsize
  rw [CStr.len, hbytes] at hroom ⊢
  rw [hrun]
  exact ⟨rrcConAsciiSafe_eq hsize text.noNul hmem hplace hroom, hreads⟩

/-- **The call in place**, where the text and the result share one buffer: the result and its NUL
stand at the place of the text, every other byte is as it was, and what is read lies in the text or
is its NUL. -/
theorem asciiSafe_inPlace (text : CStr) {outSize : ℕ} (hsize : 0 < outSize)
    (before after : List UInt8) :
    let result := asciiSafeInPlace text.bytes outSize
    let run := rrcConAsciiSafeRun (before ++ (text.bytes ++ 0 :: after)) before.length before.length
      outSize
    run.mem = before ++ (result.bytes ++ 0 :: (text.bytes ++ 0 :: after).drop (result.len + 1)) ∧
      ∀ i ∈ run.reads, before.length ≤ i ∧ i ≤ before.length + text.len := by
  have hshort := (asciiText_spec text.noNul hsize).2.2
  rw [← asciiSafeInPlace_bytes text.noNul hsize] at hshort
  have hmem : text.bytes ++ [0] <+: (before ++ (text.bytes ++ 0 :: after)).drop before.length := by
    rw [List.drop_left]
    exact (List.prefix_append_right_inj _).mpr (List.cons_prefix_cons.mpr ⟨rfl, List.nil_prefix⟩)
  have hroom : before.length + (asciiSafeInPlace text.bytes outSize).len <
      (before ++ (text.bytes ++ 0 :: after)).length := by
    simp only [CStr.len, List.length_append, List.length_cons]
    omega
  have hresult := asciiSafe_result text hsize hmem (Or.inl (Nat.le_refl _)) hroom
  rw [List.take_left, Nat.add_assoc, List.drop_append, List.drop_of_length_le (Nat.le_add_right _ _),
    Nat.add_sub_cancel_left, List.nil_append] at hresult
  exact hresult

/-- **The conversion in place is safe.**  For every text it leaves what a call with another buffer
leaves there: ASCII with a NUL inside `out_size`, no matter what stands around.  A second call
changes nothing, ASCII text that is short enough stays as it is, and nothing behind the NUL of the
text is read. -/
theorem ascii_safe_in_place (text : CStr) {outSize : ℕ} (hsize : 0 < outSize) :
    let result := asciiSafeInPlace text.bytes outSize
    IsAscii result.bytes ∧ result.len < outSize ∧
      (∀ before after : List UInt8,
        let mem := before ++ (text.bytes ++ 0 :: after)
        let run := rrcConAsciiSafeRun mem before.length before.length outSize
        run.mem = before ++ (result.bytes ++ 0 ::
            (text.bytes ++ 0 :: after).drop (result.len + 1)) ∧
          ∀ i ∈ run.reads, before.length ≤ i ∧ i ≤ before.length + text.len) ∧
      (∀ (mem : List UInt8) (p out : ℕ), text.bytes ++ [0] <+: mem.drop p →
        out + outSize ≤ p ∨ p + text.len < out → out + outSize ≤ mem.length →
          let run := rrcConAsciiSafeRun mem p out outSize
          run.mem = mem.take out ++ (result.bytes ++ 0 :: mem.drop (out + result.len + 1)) ∧
            ∀ i ∈ run.reads, p ≤ i ∧ i ≤ p + text.len) ∧
      (∀ before after : List UInt8,
        let mem := before ++ (result.bytes ++ 0 :: after)
        (rrcConAsciiSafeRun mem before.length before.length outSize).mem = mem) ∧
      ((∀ b ∈ text.bytes, b < 0x80) → text.len < outSize → result = text) := by
  have hsame : ∀ s : CStr, IsAscii s.bytes → s.len < outSize →
      asciiSafeInPlace s.bytes outSize = s := by
    intro s hs hlen
    ext1
    rw [asciiSafeInPlace_bytes s.noNul hsize]
    exact asciiText_of_isAscii hs (by rw [Nat.zero_add]; exact hlen)
  obtain ⟨hascii, hfits, -⟩ := asciiText_spec text.noNul hsize
  rw [← asciiSafeInPlace_bytes text.noNul hsize] at hascii hfits
  rw [Nat.zero_add] at hfits
  refine ⟨hascii, hfits, fun before after => asciiSafe_inPlace text hsize before after,
    fun mem p out hmem hplace hroom => ?_, fun before after => ?_, fun htext hlen => ?_⟩
  · refine asciiSafe_result text hsize hmem (by omega) ?_
    exact Nat.lt_of_lt_of_le (Nat.add_lt_add_left hfits out) hroom
  · have hagain := (asciiSafe_inPlace (asciiSafeInPlace text.bytes outSize) hsize before after).1
    rw [hsame _ hascii hfits] at hagain
    rw [CStr.len, ← List.drop_drop, List.drop_left] at hagain
    exact hagain
  · exact hsame text (fun b hb => ⟨htext b hb, fun hzero => text.noNul (hzero ▸ hb)⟩) hlen

/-- The text `"…!"` in place, between two other bytes: the ellipsis, three bytes of UTF-8, becomes
three dots, and the bytes on both sides stay. -/
theorem ascii_safe_in_place_dots :
    (rrcConAsciiSafeRun ([7] ++ ([0xE2, 0x80, 0xA6, 0x21] ++ 0 :: [9])) 1 1 16).mem =
      [7, 46, 46, 46, 33, 0, 9] := by
  have hresult : asciiSafeInPlace [0xE2, 0x80, 0xA6, 0x21] 16 = CStr.lit "...!" := by decide +kernel
  have hrun := ((ascii_safe_in_place (CStr.ofBuffer [0xE2, 0x80, 0xA6, 0x21])
    (by decide : 0 < 16)).2.2.1 [7] [9]).1
  have hbytes : (CStr.ofBuffer [0xE2, 0x80, 0xA6, 0x21]).bytes = [0xE2, 0x80, 0xA6, 0x21] := rfl
  rw [hbytes, hresult] at hrun
  exact hrun

end RrLauncher
