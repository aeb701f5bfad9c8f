/-
# Wrapped text

`rrc_con_print_wrapped` of `console.c`: a text is printed in lines of at most `width`
characters, each cut at its last blank if there is one.

Nothing but blanks and line breaks is lost (`print_wrapped_keeps`).  A line break behind a cut
ends the line that was cut, but where only blanks are left in front of it, it is taken for an
empty line of its own (`blank_lines_kept_iff`).
-/

import RrLauncher.Lib.CStr
import Mathlib.Data.List.Basic
import Mathlib.Data.List.Infix
import Mathlib.Data.List.TakeWhile

namespace RrLauncher

/-- A blank, as the source tests it in each of its loops: `' '` or `'\t'`. -/
def isBlank (c : UInt8) : Bool := c = 32 || c = 9

/-- A line break, as the source tests it: `'\n'` or `'\r'`. -/
def isBreak (c : UInt8) : Bool := c = 10 || c = 13

/-- What a word is made of. -/
def isSolid (c : UInt8) : Bool := !isBlank c && !isBreak c

/-- A call of `printf`: with `"\n"`, or with `"%.*s\n"` for a pointer and a length. -/
inductive PrintedLine
  | newline
  | line (start : List UInt8) (len : ℕ)
  deriving DecidableEq

/-- The line that is printed. -/
def PrintedLine.text : PrintedLine → List UInt8
  | newline => []
  | line start len => start.take len

/-- What the inner loop leaves: `len`, `last_space` as a distance from `line_start`, and `p`. -/
structure LineScan where
  len : ℕ
  lastSpace : Option ℕ
  rest : List UInt8

/-- The inner loop, from `p` on. -/
def scanLine (width : ℕ) : List UInt8 → ℕ → Option ℕ → LineScan
  | [], len, lastSpace => ⟨len, lastSpace, []⟩
  | c :: p, len, lastSpace =>
    if isBreak c then ⟨len, lastSpace, c :: p⟩
    else
      let lastSpace := if isBlank c then some len else lastSpace
      if width ≤ len then ⟨len, lastSpace, c :: p⟩ else scanLine width p (len + 1) lastSpace

/-- `if (*p == '\r') p++; if (*p == '\n') p++;`. -/
def skipBreak (p : List UInt8) : List UInt8 :=
  let p := if p.head? = some 13 then p.tail else p
  if p.head? = some 10 then p.tail else p

/-- Going over a line break leaves an end of the text: one character of it, two for CRLF, or none
where no line break stands. -/
theorem skipBreak_suffix (p : List UInt8) : skipBreak p <:+ p := by
  unfold skipBreak
  dsimp only
  split_ifs
  · exact (List.tail_suffix _).trans (List.tail_suffix _)
  · exact List.tail_suffix _
  · exact List.tail_suffix _
  · exact List.suffix_refl _

/-- A scan from a character on gets ahead in the text, so the loop around it ends. -/
theorem length_scanLine (width : ℕ) (p : List UInt8) (len : ℕ) (lastSpace : Option ℕ) :
    (scanLine width p len lastSpace).rest.length ≤ p.length := by
  induction p generalizing len lastSpace with
  | nil => exact Nat.le_refl _
  | cons c p ih =>
    rw [scanLine]
    split
    · exact Nat.le_refl _
    · dsimp only
      generalize (if isBlank c = true then some len else lastSpace) = lastSpace'
      split
      · exact Nat.le_refl _
      · exact (ih _ _).trans (Nat.le_succ _)

/-- A scan that starts with a character of a line goes over this one at least, since the width has
room for it; so the outer loop gets to the end of the text. -/
theorem length_scanLine_lt {width : ℕ} (hwidth : 0 < width) {c : UInt8} (hc : isBreak c = false)
    (p : List UInt8) : (scanLine width (c :: p) 0 none).rest.length < (c :: p).length := by
  have hgoes : ¬ width ≤ 0 := by omega
  rw [scanLine, if_neg (by rw [hc]; exact Bool.false_ne_true)]
  dsimp only
  rw [if_neg hgoes]
  exact Nat.lt_succ_of_le (length_scanLine _ _ _ _)

/-- The outer loop, from `p` on. -/
def wrapLoop (width : ℕ) (hwidth : 0 < width) (p : List UInt8) : List PrintedLine :=
  match _hp : p.dropWhile isBlank with
  | [] => []
  | c :: rest =>
    if c = 13 ∧ rest.head? = some 10 then .newline :: wrapLoop width hwidth rest.tail
    else if _hc : isBreak c then .newline :: wrapLoop width hwidth rest
    else
      let scan := scanLine width (c :: rest) 0 none
      let goesOn := scan.rest.head?.any fun d => !isBreak d
      match if goesOn ∧ width ≤ scan.len then scan.lastSpace else none with
      | some lineLen =>
        .line (c :: rest) lineLen :: wrapLoop width hwidth ((c :: rest).drop (lineLen + 1))
      | none => .line (c :: rest) scan.len :: wrapLoop width hwidth (skipBreak scan.rest)
termination_by p.length
decreasing_by
  all_goals have hle : (c :: rest).length ≤ p.length := _hp ▸ (List.dropWhile_suffix _).length_le
  all_goals rw [List.length_cons] at hle
  · rw [List.length_tail]
    omega
  · omega
  · rw [List.length_drop, List.length_cons]
    omega
  · have hscan := length_scanLine_lt hwidth (Bool.not_eq_true _ ▸ _hc) rest
    have hbreak := (skipBreak_suffix (scanLine width (c :: rest) 0 none).rest).length_le
    rw [List.length_cons] at hscan
    exact Nat.lt_of_le_of_lt hbreak (Nat.lt_of_lt_of_le hscan hle)

/-- `rrc_con_print_wrapped`; a null pointer is `none`. -/
def rrcConPrintWrapped (text : Option CStr) (width : ℤ) : List PrintedLine :=
  match text with
  | none => []
  | some text => wrapLoop (max 1 width).toNat (by omega) text.bytes

/-! ### One line of the text -/

/-- Where the last blank is. -/
def lastBlank : List UInt8 → Option ℕ
  | [] => none
  | c :: s => ((lastBlank s).map (· + 1)).or (if isBlank c then some 0 else none)

/-- The last blank is one, and none comes behind it. -/
theorem lastBlank_some {s : List UInt8} {k : ℕ} (h : lastBlank s = some k) :
    k < s.length ∧ ∃ b, isBlank b = true ∧ s = s.take k ++ b :: s.drop (k + 1) := by
  induction s generalizing k with
  | nil => cases h
  | cons c s ih =>
    rw [lastBlank] at h
    cases hs : lastBlank s with
    | some j =>
      rw [hs, Option.map_some, Option.some_or] at h
      obtain rfl := Option.some.inj h
      obtain ⟨hj, b, hb, hsplit⟩ := ih hs
      refine ⟨Nat.succ_lt_succ hj, b, hb, ?_⟩
      rw [List.take_succ_cons, List.drop_succ_cons, List.cons_append, ← hsplit]
    | none =>
      rw [hs, Option.map_none, Option.none_or] at h
      split at h
      · rename_i hc
        obtain rfl := Option.some.inj h
        exact ⟨Nat.succ_pos _, c, hc, rfl⟩
      · cases h

/-- A turn of the inner loop: a blank is the last one until there is another one. -/
theorem lastBlank_turn (c : UInt8) (s : List UInt8) (len : ℕ) (lastSpace : Option ℕ) :
    ((lastBlank s).map (· + (len + 1))).or (if isBlank c then some len else lastSpace) =
      ((lastBlank (c :: s)).map (· + len)).or lastSpace := by
  rw [lastBlank]
  cases lastBlank s with
  | some k =>
    simp only [Option.map_some, Option.some_or, Option.some.injEq]
    omega
  | none =>
    simp only [Option.map_none, Option.none_or]
    split_ifs
    · rw [Option.map_some, Option.some_or, Nat.zero_add]
    · rfl

/-- **The inner loop** stops at the end of the line, or where the width is full; there it looks
at one character more. -/
theorem scanLine_eq {width : ℕ} {line tail : List UInt8} (hline : ∀ c ∈ line, isBreak c = false)
    (htail : ∀ c ∈ tail.head?, isBreak c = true) {len : ℕ} (hlen : len ≤ width)
    (lastSpace : Option ℕ) :
    scanLine width (line ++ tail) len lastSpace =
      if len + line.length ≤ width then
        ⟨len + line.length, ((lastBlank line).map (· + len)).or lastSpace, tail⟩
      else
        ⟨width, ((lastBlank (line.take (width - len + 1))).map (· + len)).or lastSpace,
          line.drop (width - len) ++ tail⟩ := by
  induction line generalizing len lastSpace with
  | nil =>
    rw [List.nil_append, if_pos (by simpa using hlen)]
    cases tail with
    | nil => rfl
    | cons c tail =>
      rw [scanLine, if_pos (htail c rfl)]
      rfl
  | cons c line ih =>
    rw [List.forall_mem_cons] at hline
    have hspace := fun s => lastBlank_turn c s len lastSpace
    rw [List.cons_append, scanLine, if_neg (by rw [hline.1]; exact Bool.false_ne_true)]
    dsimp only
    by_cases hfull : width ≤ len
    · obtain rfl : len = width := Nat.le_antisymm hlen hfull
      have hlong : ¬ len + (c :: line).length ≤ len := by
        rw [List.length_cons]
        omega
      rw [if_pos (Nat.le_refl _), if_neg hlong, Nat.sub_self, List.take_succ_cons, List.take_zero,
        List.drop_zero, List.cons_append, ← hspace []]
      rfl
    · rw [if_neg hfull, ih hline.2 (by omega), List.length_cons]
      have hsub : width - len = width - (len + 1) + 1 := by omega
      by_cases hfits : len + (line.length + 1) ≤ width
      · rw [if_pos (by omega), if_pos hfits, hspace]
        congr 1
        omega
      · rw [if_neg (by omega), if_neg hfits, hspace, hsub, List.drop_succ_cons, List.take_succ_cons]

/-- The line breaks are LF and CR, by their numbers. -/
theorem isBreak_iff {c : UInt8} : isBreak c = true ↔ c = 10 ∨ c = 13 := by
  simp [isBreak]

/-- A line break is no blank: the loop that skips blanks stops in front of it. -/
theorem isBlank_of_isBreak {c : UInt8} (h : isBreak c = true) : isBlank c = false := by
  rcases isBreak_iff.mp h with rfl | rfl <;> rfl

/-- Where the text does not start with a line break, none is gone over. -/
theorem skipBreak_of_not_isBreak {p : List UInt8} (h : ∀ c ∈ p.head?, isBreak c = false) :
    skipBreak p = p := by
  have hne : ∀ c : UInt8, isBreak c = true → p.head? ≠ some c := fun c hc hhead => by
    rw [h c hhead] at hc
    cases hc
  unfold skipBreak
  rw [if_neg (hne 13 rfl)]
  exact if_neg (hne 10 rfl)

/-- Where a line that is too long is cut, and where it goes on. -/
def cutAt (width : ℕ) (line : List UInt8) : ℕ × ℕ :=
  match lastBlank (line.take (width + 1)) with
  | some k => (k, k + 1)
  | none => (width, width)

section Loop

variable {width : ℕ} (hwidth : 0 < width)

/-- A turn that finds nothing but blanks ends the loop without a line. -/
theorem wrapLoop_end {p : List UInt8} (h : p.dropWhile isBlank = []) :
    wrapLoop width hwidth p = [] := by
  rw [wrapLoop]
  split
  · rfl
  · rename_i hp
    rw [h] at hp
    cases hp

/-- A turn that finds a line break behind the blanks prints an empty line, and goes on behind the
line break, which is two characters for CRLF. -/
theorem wrapLoop_break {p rest : List UInt8} {c : UInt8} (h : p.dropWhile isBlank = c :: rest)
    (hc : isBreak c = true) :
    wrapLoop width hwidth p = .newline :: wrapLoop width hwidth (skipBreak (c :: rest)) := by
  rw [wrapLoop]
  split
  · rename_i hp
    rw [h] at hp
    cases hp
  · rename_i hp
    rw [h] at hp
    cases hp
    rcases isBreak_iff.mp hc with rfl | rfl
    · rw [if_neg (fun h => absurd h.1 (by decide)), dif_pos hc]
      rfl
    · by_cases hcrlf : rest.head? = some 10
      · rw [if_pos ⟨rfl, hcrlf⟩, skipBreak]
        simp only [List.head?_cons, if_true, List.tail_cons, if_pos hcrlf]
      · rw [if_neg (fun h => hcrlf h.2), dif_pos hc, skipBreak]
        simp only [List.head?_cons, if_true, List.tail_cons, if_neg hcrlf]

/-- A turn that finds a character of a line scans from it.  If the scan stops in the middle of a
line with its width full, the line is cut at the last blank, if there is one; otherwise it is
printed as far as the scan went, and one line break behind it is gone over. -/
theorem wrapLoop_text {p rest : List UInt8} {c : UInt8} (h : p.dropWhile isBlank = c :: rest)
    (hc : isBreak c = false) {scan : LineScan} (hscan : scanLine width (c :: rest) 0 none = scan) :
    wrapLoop width hwidth p =
      match if (scan.rest.head?.any fun d => !isBreak d) ∧ width ≤ scan.len then scan.lastSpace
        else none with
      | some lineLen =>
        .line (c :: rest) lineLen :: wrapLoop width hwidth ((c :: rest).drop (lineLen + 1))
      | none => .line (c :: rest) scan.len :: wrapLoop width hwidth (skipBreak scan.rest) := by
  subst hscan
  rw [wrapLoop]
  split
  · rename_i hp
    rw [h] at hp
    cases hp
  · rename_i hp
    rw [h] at hp
    cases hp
    have hcr : ¬ (c = 13 ∧ rest.head? = some 10) := by
      rintro ⟨rfl, -⟩
      cases hc
    rw [if_neg hcr, dif_neg (by rw [hc]; exact Bool.false_ne_true)]

variable {line tail : List UInt8} (hline : ∀ c ∈ line, isBreak c = false)
  (htail : ∀ c ∈ tail.head?, isBreak c = true)

include htail in
/-- Blanks in front of a line with a character in it are skipped in the line alone, whatever stands
behind it. -/
theorem dropBlanks_append : (line ++ tail).dropWhile isBlank = line.dropWhile isBlank ++ tail := by
  rw [List.dropWhile_append]
  split
  · rename_i hempty
    rw [List.isEmpty_iff.mp hempty, List.nil_append]
    cases tail with
    | nil => rfl
    | cons c tail =>
      rw [List.dropWhile_cons_of_neg]
      rw [isBlank_of_isBreak (htail c rfl)]
      exact Bool.false_ne_true
  · rfl

include htail in
/-- A rest of a line that has only blanks prints nothing of its own: at the end of the text the loop
stops, and in front of a line break an empty line is printed. -/
theorem wrapLoop_blank (hblank : line.dropWhile isBlank = []) :
    wrapLoop width hwidth (line ++ tail) =
      if tail = [] then [] else .newline :: wrapLoop width hwidth (skipBreak tail) := by
  have hdrop : (line ++ tail).dropWhile isBlank = line.dropWhile isBlank ++ tail :=
    dropBlanks_append htail
  rw [hblank, List.nil_append] at hdrop
  cases tail with
  | nil => exact wrapLoop_end hwidth hdrop
  | cons c tail =>
    rw [if_neg (List.cons_ne_nil _ _)]
    exact wrapLoop_break hwidth hdrop (htail c rfl)

include hline htail in
/-- A rest of a line that fits is printed whole, without the blanks in front of it, and the loop
goes on behind the line break. -/
theorem wrapLoop_short (hne : line.dropWhile isBlank ≠ [])
    (hfits : (line.dropWhile isBlank).length ≤ width) :
    wrapLoop width hwidth (line ++ tail) =
      .line (line.dropWhile isBlank ++ tail) (line.dropWhile isBlank).length ::
        wrapLoop width hwidth (skipBreak tail) := by
  have hdrop : (line ++ tail).dropWhile isBlank = line.dropWhile isBlank ++ tail :=
    dropBlanks_append htail
  have hbody : ∀ c ∈ line.dropWhile isBlank, isBreak c = false := fun c hc =>
    hline c ((List.dropWhile_suffix _).mem hc)
  generalize line.dropWhile isBlank = body at *
  obtain ⟨c, body, rfl⟩ := List.exists_cons_of_ne_nil hne
  have hscan := scanLine_eq hbody htail (Nat.zero_le width) none
  rw [if_pos (by omega)] at hscan
  have hends : ¬ (tail.head?.any (fun d => !isBreak d) = true ∧ width ≤ 0 + (c :: body).length) := by
    rintro ⟨hany, -⟩
    obtain ⟨d, hd, hbreak⟩ := (Option.any_eq_true _ _).mp hany
    rw [htail d hd] at hbreak
    cases hbreak
  rw [wrapLoop_text hwidth hdrop (hbody c List.mem_cons_self) hscan, if_neg hends, Nat.zero_add]
  rfl

include hline htail in
/-- A line that is too long is cut, and the loop goes on in it. -/
theorem wrapLoop_long (hlong : width < (line.dropWhile isBlank).length) :
    wrapLoop width hwidth (line ++ tail) =
      .line (line.dropWhile isBlank ++ tail) (cutAt width (line.dropWhile isBlank)).1 ::
        wrapLoop width hwidth
          ((line.dropWhile isBlank).drop (cutAt width (line.dropWhile isBlank)).2 ++ tail) := by
  have hdrop : (line ++ tail).dropWhile isBlank = line.dropWhile isBlank ++ tail :=
    dropBlanks_append htail
  have hbody : ∀ c ∈ line.dropWhile isBlank, isBreak c = false := fun c hc =>
    hline c ((List.dropWhile_suffix _).mem hc)
  generalize line.dropWhile isBlank = body at *
  obtain ⟨c, body, rfl⟩ := List.exists_cons_of_length_pos (Nat.zero_lt_of_lt hlong)
  have hscan := scanLine_eq hbody htail (Nat.zero_le width) none
  rw [if_neg (by omega), Nat.sub_zero] at hscan
  obtain ⟨d, rest, hrest⟩ := List.exists_cons_of_length_pos
    (l := (c :: body).drop width) (by rw [List.length_drop]; omega)
  have hd : isBreak d = false :=
    hbody d (List.mem_of_mem_drop (hrest ▸ List.mem_cons_self))
  rw [wrapLoop_text hwidth hdrop (hbody c List.mem_cons_self) hscan, hrest]
  have hgoes : ((d :: rest ++ tail).head?.any (fun d => !isBreak d) = true ∧ width ≤ width) :=
    ⟨by rw [List.cons_append, List.head?_cons, Option.any_some, hd]; rfl, Nat.le_refl _⟩
  rw [if_pos hgoes, Option.or_none, cutAt]
  cases hblank : lastBlank ((c :: body).take (width + 1)) with
  | some k =>
    have hk : k + 1 ≤ (c :: body).length := by
      have := (lastBlank_some hblank).1
      rw [List.length_take] at this
      omega
    show _ :: wrapLoop width hwidth ((c :: body ++ tail).drop (k + 1)) = _
    rw [List.drop_append_of_le_length hk]
    rfl
  | none =>
    show _ :: wrapLoop width hwidth (skipBreak (d :: rest ++ tail)) = _
    rw [skipBreak_of_not_isBreak (fun c hc => by cases hc; exact hd), ← hrest]
    rfl

/-- Where the text starts with a line break, going over it gets ahead. -/
theorem length_skipBreak_lt {p : List UInt8} (h : ∀ c ∈ p.head?, isBreak c = true) (hne : p ≠ []) :
    (skipBreak p).length < p.length := by
  obtain ⟨c, p, rfl⟩ := List.exists_cons_of_ne_nil hne
  rcases isBreak_iff.mp (h c rfl) with rfl | rfl
  · exact Nat.lt_succ_self _
  · have : skipBreak (13 :: p) = if p.head? = some 10 then p.tail else p := rfl
    rw [this, List.length_cons]
    split
    · rw [List.length_tail]
      omega
    · omega

/-- Each cut takes a character at least, so the loop gets on and comes to an end. -/
theorem cutAt_pos (hwidth : 0 < width) (line : List UInt8) : 0 < (cutAt width line).2 := by
  rw [cutAt]
  cases lastBlank (line.take (width + 1)) with
  | some k => exact Nat.succ_pos k
  | none => exact hwidth

/-- A text begins with a line, which may be empty: what stands in front of the first line break, or
all of it. -/
theorem exists_line (p : List UInt8) : ∃ line tail, (∀ c ∈ line, isBreak c = false) ∧
    (∀ c ∈ tail.head?, isBreak c = true) ∧ p = line ++ tail := by
  refine ⟨p.takeWhile (!isBreak ·), p.dropWhile (!isBreak ·), fun c hc => ?_, fun c hc => ?_,
    (List.takeWhile_append_dropWhile).symm⟩
  · simpa using List.mem_takeWhile_imp hc
  · have := List.head?_dropWhile_not (!isBreak ·) p
    rw [Option.mem_def.mp hc] at this
    simpa using this

/-- **One line of the text at a time**: a blank one, one that fits, or one that is cut. -/
theorem wrapLoop_induct {P : List UInt8 → List PrintedLine → Prop}
    (finish : ∀ line, line.dropWhile isBlank = [] → P line [])
    (blank : ∀ line tail out, line.dropWhile isBlank = [] → tail ≠ [] →
      (∀ c ∈ tail.head?, isBreak c = true) → P (skipBreak tail) out →
        P (line ++ tail) (.newline :: out))
    (short : ∀ line tail out body, line.dropWhile isBlank = body → body ≠ [] →
      (∀ c ∈ line, isBreak c = false) → (∀ c ∈ tail.head?, isBreak c = true) →
        body.length ≤ width → P (skipBreak tail) out →
          P (line ++ tail) (.line (body ++ tail) body.length :: out))
    (long : ∀ line tail out body, line.dropWhile isBlank = body →
      (∀ c ∈ line, isBreak c = false) → (∀ c ∈ tail.head?, isBreak c = true) →
        width < body.length → P (body.drop (cutAt width body).2 ++ tail) out →
          P (line ++ tail) (.line (body ++ tail) (cutAt width body).1 :: out)) (p : List UInt8) :
    P p (wrapLoop width hwidth p) := by
  induction hn : p.length using Nat.strong_induction_on generalizing p with
  | _ n ih =>
    subst hn
    obtain ⟨line, tail, hline, htail, rfl⟩ := exists_line p
    have hskip : P (skipBreak tail) (wrapLoop width hwidth (skipBreak tail)) := by
      by_cases hne : line ++ tail = []
      · obtain ⟨rfl, rfl⟩ := List.append_eq_nil_iff.mp hne
        show P [] (wrapLoop width hwidth [])
        rw [wrapLoop_end hwidth rfl]
        exact finish [] rfl
      · refine ih _ ?_ _ rfl
        rw [List.length_append]
        by_cases htl : tail = []
        · subst htl
          rw [List.append_nil] at hne
          exact Nat.add_pos_left (List.length_pos_of_ne_nil hne) _
        · have := length_skipBreak_lt htail htl
          omega
    by_cases hblank : line.dropWhile isBlank = []
    · rw [wrapLoop_blank hwidth htail hblank]
      split
      · rename_i htl
        subst htl
        rw [List.append_nil]
        exact finish line hblank
      · rename_i htl
        exact blank line tail _ hblank htl htail hskip
    · by_cases hlong : width < (line.dropWhile isBlank).length
      · rw [wrapLoop_long hwidth hline htail hlong]
        refine long line tail _ _ rfl hline htail hlong (ih _ ?_ _ rfl)
        have hle := (List.dropWhile_suffix isBlank (l := line)).length_le
        have hcut := cutAt_pos hwidth (line.dropWhile isBlank)
        rw [List.length_append, List.length_append, List.length_drop]
        omega
      · rw [wrapLoop_short hwidth hline htail hblank (Nat.le_of_not_lt hlong)]
        exact short line tail _ _ rfl hblank hline htail (Nat.le_of_not_lt hlong) hskip

end Loop

/-! ### Words -/

/-- A line break is part of no word, so passing over it loses no character that counts. -/
theorem isSolid_of_isBreak {c : UInt8} (h : isBreak c = true) : isSolid c = false := by
  rw [isSolid, h, Bool.not_true, Bool.and_false]

/-- A blank is part of no word, so dropping blanks at a cut loses no character that counts. -/
theorem isSolid_of_isBlank {c : UInt8} (h : isBlank c = true) : isSolid c = false := by
  rw [isSolid, h, Bool.not_true, Bool.false_and]

/-- Leading blanks are no part of a word: dropping them keeps all characters that are. -/
theorem filter_dropBlanks (line : List UInt8) :
    (line.dropWhile isBlank).filter isSolid = line.filter isSolid := by
  induction line with
  | nil => rfl
  | cons c line ih =>
    cases hc : isBlank c with
    | false => rw [List.dropWhile_cons_of_neg (by rw [hc]; exact Bool.false_ne_true)]
    | true =>
      rw [List.dropWhile_cons_of_pos hc, ih, List.filter_cons_of_neg]
      rw [isSolid_of_isBlank hc]
      exact Bool.false_ne_true

/-- A line break is no part of a word, whether it is one byte or two: passing over it keeps all
characters that are. -/
theorem filter_skipBreak {tail : List UInt8} (h : ∀ c ∈ tail.head?, isBreak c = true) :
    (skipBreak tail).filter isSolid = tail.filter isSolid := by
  have hten : ∀ p : List UInt8, p.head? = some 10 → p.tail.filter isSolid = p.filter isSolid := by
    intro p hp
    obtain ⟨q, rfl⟩ := List.head?_eq_some_iff.mp hp
    rfl
  cases tail with
  | nil => rfl
  | cons c tail =>
    rcases isBreak_iff.mp (h c rfl) with rfl | rfl
    · rfl
    · have hskip : skipBreak (13 :: tail) = if tail.head? = some 10 then tail.tail else tail := rfl
      have hcr : (13 :: tail).filter isSolid = tail.filter isSolid := rfl
      rw [hskip, hcr]
      split
      · rename_i hlf
        exact hten tail hlf
      · rfl

section Cut

variable {width : ℕ} {body : List UInt8} (hlong : width < body.length)

include hlong in
/-- What is left out at a cut is a blank, and it stands in front of the width's end. -/
theorem cutAt_cases :
    (∃ k b, k ≤ width ∧ isBlank b = true ∧ body = body.take k ++ b :: body.drop (k + 1) ∧
      cutAt width body = (k, k + 1)) ∨ cutAt width body = (width, width) := by
  cases hblank : lastBlank (body.take (width + 1)) with
  | none => exact Or.inr (by rw [cutAt, hblank])
  | some k =>
    obtain ⟨hk, b, hb, hsplit⟩ := lastBlank_some hblank
    rw [List.length_take] at hk
    refine Or.inl ⟨k, b, by omega, hb, ?_, by rw [cutAt, hblank]⟩
    have hget : body[k]? = some b := by
      have := congrArg (·[k]?) hsplit
      rw [List.take_take, Nat.min_eq_left (by omega)] at this
      simpa [List.getElem?_take, List.getElem?_append, (by omega : k < width + 1),
        Nat.min_eq_left (by omega : k ≤ body.length)] using this
    obtain ⟨hlt, rfl⟩ := List.getElem?_eq_some_iff.mp hget
    rw [← List.drop_eq_getElem_cons hlt, List.take_append_drop]

include hlong in
/-- A line is cut within its width, at a blank or behind as many characters as fit. -/
theorem cutAt_le : (cutAt width body).1 ≤ width := by
  rcases cutAt_cases hlong with ⟨k, -, hk, -, -, hcut⟩ | hcut <;> rw [hcut]
  exact hk

include hlong in
/-- A cut leaves no word out: the characters that are no blanks are those in front of it and those
behind it, in their order. -/
theorem cutAt_solid :
    (body.take (cutAt width body).1).filter isSolid ++
      (body.drop (cutAt width body).2).filter isSolid = body.filter isSolid := by
  rcases cutAt_cases hlong with ⟨k, b, -, hb, hsplit, hcut⟩ | hcut
  · have hfilter := congrArg (List.filter isSolid) hsplit
    rw [List.filter_append, List.filter_cons_of_neg
      (by rw [isSolid_of_isBlank hb]; exact Bool.false_ne_true)] at hfilter
    rw [hcut, hfilter]
  · rw [hcut, ← List.filter_append, List.take_append_drop]

include hlong in
/-- A word that starts the rest of a line and fits into the width is not cut: the cut is made behind
it. -/
theorem cutAt_word {tail : List UInt8}
    (hword : ((body ++ tail).takeWhile isSolid).length ≤ width) :
    ((body ++ tail).takeWhile isSolid).length ≤ (cutAt width body).1 := by
  rcases cutAt_cases hlong with ⟨k, b, -, hb, hsplit, hcut⟩ | hcut
  · have hstop : ((body.take k ++ b :: (body.drop (k + 1) ++ tail)).takeWhile isSolid).length ≤
        (body.take k).length := by
      rw [List.takeWhile_append]
      split
      · rw [List.takeWhile_cons_of_neg (by rw [isSolid_of_isBlank hb]; exact Bool.false_ne_true),
          List.append_nil]
      · exact (List.takeWhile_prefix _).length_le
    rw [hcut]
    rw [← List.cons_append, ← List.append_assoc, ← hsplit] at hstop
    exact hstop.trans (List.length_take_le _ _)
  · rw [hcut]
    exact hword

end Cut

section Words

variable {width : ℕ} (hwidth : 0 < width)

/-- By induction on the text, one line of it at a time: a line that fits is no longer than the
width, and one that is cut ends where it is cut. -/
theorem wrapLoop_fits (p : List UInt8) : ∀ line ∈ wrapLoop width hwidth p, line.text.length ≤ width := by
  refine wrapLoop_induct hwidth (P := fun _ out => ∀ line ∈ out, line.text.length ≤ width)
    ?_ ?_ ?_ ?_ p
  · exact fun _ _ line hline => by cases hline
  · exact fun _ _ _ _ _ _ ih => List.forall_mem_cons.mpr ⟨Nat.zero_le _, ih⟩
  · exact fun _ _ _ _ _ _ _ _ hfits ih =>
      List.forall_mem_cons.mpr ⟨(List.length_take_le _ _).trans hfits, ih⟩
  · exact fun _ _ _ _ _ _ _ hlong ih =>
      List.forall_mem_cons.mpr ⟨(List.length_take_le _ _).trans (cutAt_le hlong), ih⟩

/-- By the same induction: what is left out between two lines is a blank or a line break, so the
characters of the words are printed in order, each once. -/
theorem wrapLoop_solid (p : List UInt8) :
    ((wrapLoop width hwidth p).flatMap PrintedLine.text).filter isSolid = p.filter isSolid := by
  refine wrapLoop_induct hwidth
    (P := fun p out => (out.flatMap PrintedLine.text).filter isSolid = p.filter isSolid) ?_ ?_ ?_ ?_ p
  · intro line hblank
    rw [← filter_dropBlanks line, hblank]
    rfl
  · intro line tail out hblank _ htail ih
    rw [List.filter_append, ← filter_dropBlanks line, hblank, ← filter_skipBreak htail, ← ih]
    rfl
  · intro line tail out body hbody _ _ htail _ ih
    rw [List.filter_append, ← filter_dropBlanks line, hbody, ← filter_skipBreak htail, ← ih,
      List.flatMap_cons, List.filter_append, PrintedLine.text, List.take_left]
  · intro line tail out body hbody _ _ hlong ih
    have hle : (cutAt width body).1 ≤ body.length := (cutAt_le hlong).trans (Nat.le_of_lt hlong)
    rw [List.filter_append] at ih
    rw [List.filter_append, ← filter_dropBlanks line, hbody, ← cutAt_solid hlong, List.append_assoc,
      ← ih, List.flatMap_cons, List.filter_append, PrintedLine.text, List.take_append_of_le_length hle]

/-- What a line is printed of is the end of the text. -/
theorem body_suffix {line body : List UInt8} (hbody : line.dropWhile isBlank = body)
    (tail : List UInt8) : body ++ tail <:+ line ++ tail := by
  obtain ⟨pre, hpre⟩ := List.dropWhile_suffix isBlank (l := line)
  exact ⟨pre, by rw [← List.append_assoc, ← hbody, hpre]⟩

/-- A word ends at a line break at the latest. -/
theorem takeWhile_solid_le {tail : List UInt8} (htail : ∀ c ∈ tail.head?, isBreak c = true)
    (body : List UInt8) : ((body ++ tail).takeWhile isSolid).length ≤ body.length := by
  rw [List.takeWhile_append]
  split
  · cases tail with
    | nil => simp
    | cons c tail =>
      rw [List.takeWhile_cons_of_neg
        (by rw [isSolid_of_isBreak (htail c rfl)]; exact Bool.false_ne_true), List.append_nil]
  · exact (List.takeWhile_prefix _).length_le

/-- What is printed begins in the text, and with a word that is whole if it fits. -/
theorem wrapLoop_words (p : List UInt8) {start : List UInt8} {len : ℕ}
    (hline : PrintedLine.line start len ∈ wrapLoop width hwidth p) :
    start <:+ p ∧ ((start.takeWhile isSolid).length ≤ width →
      (start.takeWhile isSolid).length ≤ len) := by
  refine wrapLoop_induct hwidth (P := fun p out => PrintedLine.line start len ∈ out →
    start <:+ p ∧ ((start.takeWhile isSolid).length ≤ width →
      (start.takeWhile isSolid).length ≤ len)) ?_ ?_ ?_ ?_ p hline
  · exact fun _ _ hnil => by cases hnil
  · intro line tail out _ _ _ ih hmem
    rcases List.mem_cons.mp hmem with heq | hmem
    · cases heq
    · obtain ⟨hsuffix, hword⟩ := ih hmem
      exact ⟨hsuffix.trans ((skipBreak_suffix _).trans (List.suffix_append _ _)), hword⟩
  · intro line tail out body hbody _ _ htail _ ih hmem
    rcases List.mem_cons.mp hmem with heq | hmem
    · obtain ⟨rfl, rfl⟩ := PrintedLine.line.inj heq
      exact ⟨body_suffix hbody tail, fun _ => takeWhile_solid_le htail body⟩
    · obtain ⟨hsuffix, hword⟩ := ih hmem
      exact ⟨hsuffix.trans ((skipBreak_suffix _).trans (List.suffix_append _ _)), hword⟩
  · intro line tail out body hbody _ _ hlong ih hmem
    have hsuffix := body_suffix hbody tail
    rcases List.mem_cons.mp hmem with heq | hmem
    · obtain ⟨rfl, rfl⟩ := PrintedLine.line.inj heq
      exact ⟨hsuffix, cutAt_word hlong⟩
    · obtain ⟨hrest, hword⟩ := ih hmem
      have hdrop : body.drop (cutAt width body).2 ++ tail <:+ body ++ tail :=
        ⟨body.take (cutAt width body).2, by rw [← List.append_assoc, List.take_append_drop]⟩
      exact ⟨hrest.trans (hdrop.trans hsuffix), hword⟩

end Words

/-- **Nothing but blanks and line breaks is lost.**  Every line that is printed has at most
`width` characters and points into the text, a word that starts it and is no longer than `width`
is printed whole, and the other characters are those of the text, in their order. -/
theorem print_wrapped_keeps (text : CStr) (width : ℤ) :
    let out := rrcConPrintWrapped (some text) width
    (∀ line ∈ out, (line.text.length : ℤ) ≤ max 1 width) ∧
      (out.flatMap PrintedLine.text).filter isSolid = text.bytes.filter isSolid ∧
        ∀ start len, PrintedLine.line start len ∈ out →
          start <:+ text.bytes ∧
            ((((start.takeWhile isSolid).length : ℤ) ≤ max 1 width) →
              (start.takeWhile isSolid).length ≤ len) := by
  have hwidth : ((max 1 width).toNat : ℤ) = max 1 width := Int.toNat_of_nonneg (by omega)
  refine ⟨fun line hline => ?_, wrapLoop_solid _ text.bytes, fun start len hline => ?_⟩
  · rw [← hwidth]
    exact Int.ofNat_le.mpr (wrapLoop_fits _ text.bytes line hline)
  · obtain ⟨hsuffix, hword⟩ := wrapLoop_words _ text.bytes hline
    refine ⟨hsuffix, fun hle => hword ?_⟩
    rw [← hwidth] at hle
    exact Int.ofNat_le.mp hle

/-! ### Blank lines -/

/-- The lines of a text that end in LF, CR or CRLF, and what stands behind the last of them. -/
def textLines : List UInt8 → List (List UInt8) × List UInt8
  | [] => ([], [])
  | 13 :: 10 :: p => ([] :: (textLines p).1, (textLines p).2)
  | c :: p =>
    if isBreak c then ([] :: (textLines p).1, (textLines p).2)
    else
      match (textLines p).1 with
      | [] => ([], c :: (textLines p).2)
      | line :: lines => ((c :: line) :: lines, (textLines p).2)

/-- A line is taken from the front of a text up to its first line break; the rest is split behind
it. -/
theorem textLines_append {line tail : List UInt8} (hline : ∀ c ∈ line, isBreak c = false)
    (htail : ∀ c ∈ tail.head?, isBreak c = true) :
    textLines (line ++ tail) =
      if tail = [] then ([], line)
      else (line :: (textLines (skipBreak tail)).1, (textLines (skipBreak tail)).2) := by
  induction line with
  | nil =>
    rw [List.nil_append]
    cases tail with
    | nil => rfl
    | cons c tail =>
      rw [if_neg (List.cons_ne_nil _ _)]
      rcases isBreak_iff.mp (htail c rfl) with rfl | rfl
      · rfl
      · cases tail with
        | nil => rfl
        | cons d tail =>
          by_cases hd : d = 10
          · subst hd
            rfl
          · have hskip : skipBreak (13 :: d :: tail) = d :: tail := by
              have hd' : (d :: tail).head? ≠ some 10 := fun h => hd (Option.some.inj h)
              show (if (d :: tail).head? = some 10 then tail else d :: tail) = _
              rw [if_neg hd']
            rw [hskip, textLines, if_pos (isBreak_iff.mpr (Or.inr rfl))]
            rintro p - h
            exact hd (List.cons.inj h).1
  | cons c line ih =>
    rw [List.forall_mem_cons] at hline
    rw [List.cons_append, textLines, if_neg (by rw [hline.1]; exact Bool.false_ne_true),
      ih hline.2]
    · split_ifs <;> rfl
    · rintro p rfl
      cases hline.1

/-- A line with nothing but blanks. -/
def BlankLine (line : List UInt8) : Prop := ∀ c ∈ line, isBlank c = true

/-- A line is blank exactly if skipping its blanks leaves nothing. -/
theorem blankLine_iff {line : List UInt8} : BlankLine line ↔ line.dropWhile isBlank = [] :=
  List.dropWhile_eq_nil_iff.symm

instance (line : List UInt8) : Decidable (BlankLine line) :=
  inferInstanceAs (Decidable (∀ c ∈ line, isBlank c = true))

/-- Only blanks are left of a line, maybe behind cuts: each at the last blank of `width + 1`
characters or, if they hold none, behind `width` characters. -/
inductive EndsBlank (width : ℕ) : List UInt8 → Prop
  | blank {line : List UInt8} (h : BlankLine line) : EndsBlank width line
  | cut {line body : List UInt8} (hbody : line.dropWhile isBlank = body)
      (hlong : width < body.length) (hrest : EndsBlank width (body.drop (cutAt width body).2)) :
      EndsBlank width line

/-- What is printed of a line: an empty line for a blank one, and for another one lines with its
words, none of them empty. -/
def KeepsLine (printed : List PrintedLine) (line : List UInt8) : Prop :=
  if BlankLine line then printed.map PrintedLine.text = [[]]
  else printed ≠ [] ∧ (∀ o ∈ printed, o.text ≠ []) ∧
    (printed.flatMap PrintedLine.text).filter isSolid = line.filter isSolid

/-- The empty lines of `out` are the blank lines of the text. -/
def BlankLinesKept (p : List UInt8) (out : List PrintedLine) : Prop :=
  ∃ (groups : List (List PrintedLine)) (last : List PrintedLine), out = groups.flatten ++ last ∧
    List.Forall₂ KeepsLine groups (textLines p).1 ∧ ∀ o ∈ last, o.text ≠ []

/-- What the loop prints of a line: lines that are not empty, and one that is, where only blanks
are left. -/
def WrapsLine (width : ℕ) (printed : List PrintedLine) (line : List UInt8) : Prop :=
  ∃ pieces : List PrintedLine, (∀ o ∈ pieces, o.text ≠ []) ∧ (pieces = [] ↔ BlankLine line) ∧
    (pieces.flatMap PrintedLine.text).filter isSolid = line.filter isSolid ∧
      (EndsBlank width line ∧ printed = pieces ++ [.newline] ∨
        ¬ EndsBlank width line ∧ printed = pieces)

section BlankLines

variable {width : ℕ} (hwidth : 0 < width)

/-- A line that fits without its leading blanks is not cut, so no blank rest of it is left. -/
theorem not_endsBlank_of_short {line : List UInt8} (hne : line.dropWhile isBlank ≠ [])
    (hfits : (line.dropWhile isBlank).length ≤ width) : ¬ EndsBlank width line := by
  intro h
  cases h with
  | blank h => exact hne (blankLine_iff.mp h)
  | cut hbody hlong _ =>
    subst hbody
    omega

/-- For a line that is cut, only blanks are left of it exactly if only blanks are left of the part
behind the first cut. -/
theorem endsBlank_long_iff {line : List UInt8} (hlong : width < (line.dropWhile isBlank).length) :
    EndsBlank width line ↔
      EndsBlank width ((line.dropWhile isBlank).drop (cutAt width (line.dropWhile isBlank)).2) := by
  refine ⟨fun h => ?_, EndsBlank.cut rfl hlong⟩
  cases h with
  | blank h =>
    rw [blankLine_iff.mp h] at hlong
    cases hlong
  | cut hbody _ hrest =>
    subst hbody
    exact hrest

include hwidth in
/-- A line that is cut is not empty, as it does not begin with a blank to cut at. -/
theorem take_cutAt_ne_nil {line body tail : List UInt8} (hbody : line.dropWhile isBlank = body)
    (hlong : width < body.length) : (body ++ tail).take (cutAt width body).1 ≠ [] := by
  obtain ⟨c, rest, rfl⟩ := List.exists_cons_of_length_pos (Nat.zero_lt_of_lt hlong)
  have hc : isBlank c = false := by
    have hhead := List.head?_dropWhile_not isBlank line
    rw [hbody] at hhead
    exact hhead
  have hpos : 0 < (cutAt width (c :: rest)).1 := by
    rcases cutAt_cases hlong with ⟨k, b, -, hb, hsplit, hcut⟩ | hcut
    · rw [hcut]
      refine Nat.pos_of_ne_zero fun hk => ?_
      subst hk
      have := (List.cons.inj hsplit).1
      rw [this, hb] at hc
      cases hc
    · rw [hcut]
      exact hwidth
  obtain ⟨k, hk⟩ := Nat.exists_eq_succ_of_ne_zero (Nat.pos_iff_ne_zero.mp hpos)
  rw [hk]
  exact List.cons_ne_nil _ _

/-- There is no line break in a blank line, since a line break is no blank. -/
theorem not_isBreak_of_blank {line : List UInt8} (hblank : line.dropWhile isBlank = []) :
    ∀ c ∈ line, isBreak c = false := by
  intro c hc
  rw [← Bool.not_eq_true]
  intro hbreak
  have := List.dropWhile_eq_nil_iff.mp hblank c hc
  rw [isBlank_of_isBreak hbreak] at this
  cases this

include hwidth in
/-- A cut line is printed with a line of its own in front of what its rest is printed with. -/
theorem WrapsLine.cut {line body tail : List UInt8} {printed : List PrintedLine}
    (hbody : line.dropWhile isBlank = body) (hlong : width < body.length)
    (h : WrapsLine width printed (body.drop (cutAt width body).2)) :
    WrapsLine width (.line (body ++ tail) (cutAt width body).1 :: printed) line := by
  obtain ⟨pieces, hne, -, hwords, hends⟩ := h
  have hle : (cutAt width body).1 ≤ body.length := (cutAt_le hlong).trans (Nat.le_of_lt hlong)
  have hblank : ¬ BlankLine line := fun hblank => by
    rw [← hbody, blankLine_iff.mp hblank] at hlong
    cases hlong
  refine ⟨.line (body ++ tail) (cutAt width body).1 :: pieces,
    List.forall_mem_cons.mpr ⟨take_cutAt_ne_nil hwidth hbody hlong, hne⟩,
    iff_of_false (List.cons_ne_nil _ _) hblank, ?_, ?_⟩
  · rw [← filter_dropBlanks line, hbody, ← cutAt_solid hlong, ← hwords, List.flatMap_cons,
      List.filter_append, PrintedLine.text, List.take_append_of_le_length hle]
  · subst hbody
    rw [endsBlank_long_iff hlong]
    rcases hends with ⟨hend, rfl⟩ | ⟨hend, rfl⟩
    · exact Or.inl ⟨hend, rfl⟩
    · exact Or.inr ⟨hend, rfl⟩

/-- A blank line of the text is printed as one empty line, whatever blanks it has. -/
theorem wrapsLine_blank {line : List UInt8} (hblank : line.dropWhile isBlank = []) :
    WrapsLine width [.newline] line := by
  have hline : BlankLine line := blankLine_iff.mpr hblank
  refine ⟨[], (fun o ho => by cases ho), iff_of_true rfl hline, ?_, Or.inl ⟨.blank hline, rfl⟩⟩
  rw [← filter_dropBlanks line, hblank]
  rfl

/-- A line that fits is printed as it is, in one piece, without the blanks in front of it. -/
theorem wrapsLine_short {line body : List UInt8} (hbody : line.dropWhile isBlank = body)
    (hne : body ≠ []) (hfits : body.length ≤ width) (tail : List UInt8) :
    WrapsLine width [.line (body ++ tail) body.length] line := by
  have htext : (PrintedLine.line (body ++ tail) body.length).text = body := List.take_left
  refine ⟨[.line (body ++ tail) body.length], ?_, ?_, ?_, Or.inr ⟨?_, rfl⟩⟩
  · exact List.forall_mem_cons.mpr ⟨by rw [htext]; exact hne, fun o ho => by cases ho⟩
  · rw [blankLine_iff, hbody]
    exact iff_of_false (List.cons_ne_nil _ _) hne
  · rw [List.flatMap_cons, htext, ← filter_dropBlanks line, hbody, List.flatMap_nil,
      List.append_nil]
  · subst hbody
    exact not_endsBlank_of_short hne hfits

/-- **The loop prints line by line**: what it prints falls into groups, one for each line of the
text that ends with a break, and what is printed for the last line. -/
theorem wrapLoop_lines (p : List UInt8) :
    ∃ (groups : List (List PrintedLine)) (last : List PrintedLine),
      wrapLoop width hwidth p = groups.flatten ++ last ∧
        List.Forall₂ (WrapsLine width) groups (textLines p).1 ∧ ∀ o ∈ last, o.text ≠ [] := by
  refine wrapLoop_induct hwidth (P := fun p out => ∃ (groups : List (List PrintedLine))
    (last : List PrintedLine), out = groups.flatten ++ last ∧
      List.Forall₂ (WrapsLine width) groups (textLines p).1 ∧ ∀ o ∈ last, o.text ≠ [])
    ?_ ?_ ?_ ?_ p
  · intro line hblank
    have htext : textLines (line ++ []) = if [] = [] then ([], line) else _ :=
      textLines_append (not_isBreak_of_blank hblank) (fun c hc => by cases hc)
    rw [if_pos rfl, List.append_nil] at htext
    rw [htext]
    exact ⟨[], [], rfl, List.Forall₂.nil, fun o ho => by cases ho⟩
  · rintro line tail _ hblank hne htail ⟨groups, last, rfl, hgroups, hlast⟩
    rw [textLines_append (not_isBreak_of_blank hblank) htail, if_neg hne]
    exact ⟨[.newline] :: groups, last, rfl, List.Forall₂.cons (wrapsLine_blank hblank) hgroups, hlast⟩
  · rintro line tail _ body hbody hne hline htail hfits ⟨groups, last, rfl, hgroups, hlast⟩
    rw [textLines_append hline htail]
    split
    · rename_i htl
      subst htl
      cases hgroups
      have htext : (PrintedLine.line (body ++ []) body.length).text = body := List.take_left
      exact ⟨[], .line (body ++ []) body.length :: last, rfl, List.Forall₂.nil,
        List.forall_mem_cons.mpr ⟨by rw [htext]; exact hne, hlast⟩⟩
    · exact ⟨[.line (body ++ tail) body.length] :: groups, last, rfl,
        List.Forall₂.cons (wrapsLine_short hbody hne hfits tail) hgroups, hlast⟩
  · rintro line tail _ body hbody hline htail hlong ⟨groups, last, rfl, hgroups, hlast⟩
    have hrest : ∀ c ∈ body.drop (cutAt width body).2, isBreak c = false := fun c hc =>
      hline c ((List.dropWhile_suffix isBlank).mem (hbody ▸ List.mem_of_mem_drop hc))
    rw [textLines_append hrest htail] at hgroups
    rw [textLines_append hline htail]
    split
    · rename_i htl
      subst htl
      cases hgroups
      exact ⟨[], .line (body ++ []) (cutAt width body).1 :: last, rfl, List.Forall₂.nil,
        List.forall_mem_cons.mpr ⟨take_cutAt_ne_nil hwidth hbody hlong, hlast⟩⟩
    · rename_i htl
      rw [if_neg htl] at hgroups
      cases hgroups with
      | cons hgroup hgroups =>
        exact ⟨_ :: _, last, rfl, List.Forall₂.cons (hgroup.cut hwidth hbody hlong) hgroups, hlast⟩

/-- How many empty lines there are. -/
def emptyCount (out : List PrintedLine) : ℕ := out.countP fun o => o.text.isEmpty

/-- The empty lines of two outputs, one after the other, are those of both. -/
theorem emptyCount_append (out out' : List PrintedLine) :
    emptyCount (out ++ out') = emptyCount out + emptyCount out' := List.countP_append

/-- An output without an empty line has none to count. -/
theorem emptyCount_of_ne_nil {out : List PrintedLine} (h : ∀ o ∈ out, o.text ≠ []) :
    emptyCount out = 0 :=
  List.countP_eq_zero.mpr fun o ho hempty => h o ho (List.isEmpty_iff.mp hempty)

/-- Where every line of the text is kept, there are as many empty lines as blank lines.  The
induction is on the lines and what each is printed of. -/
theorem emptyCount_keepsLine {groups : List (List PrintedLine)} {lines : List (List UInt8)}
    (h : List.Forall₂ KeepsLine groups lines) :
    emptyCount groups.flatten = lines.countP fun line => decide (BlankLine line) := by
  induction h with
  | nil => rfl
  | @cons group line groups lines hgroup _ ih =>
    rw [List.flatten_cons, emptyCount_append, ih, List.countP_cons, Nat.add_comm]
    congr 1
    rw [KeepsLine] at hgroup
    split at hgroup
    · rename_i hblank
      rw [if_pos (decide_eq_true hblank), emptyCount]
      have hcount := List.countP_map (p := List.isEmpty) (f := PrintedLine.text) (l := group)
      rw [hgroup] at hcount
      exact hcount.symm
    · rename_i hblank
      rw [if_neg (by rw [decide_eq_true_iff]; exact hblank)]
      exact emptyCount_of_ne_nil hgroup.2.1

/-- Each blank line has its empty line, and one too many comes from a line that is not blank. -/
theorem emptyCount_wrapsLine {groups : List (List PrintedLine)} {lines : List (List UInt8)}
    (h : List.Forall₂ (WrapsLine width) groups lines) :
    lines.countP (fun line => decide (BlankLine line)) ≤ emptyCount groups.flatten ∧
      (emptyCount groups.flatten ≤ lines.countP (fun line => decide (BlankLine line)) →
        ∀ line ∈ lines, EndsBlank width line → BlankLine line) := by
  induction h with
  | nil => exact ⟨Nat.le_refl _, fun _ line hline => by cases hline⟩
  | @cons group line groups lines hgroup _ ih =>
    obtain ⟨pieces, hne, hnil, -, hends⟩ := hgroup
    rw [List.flatten_cons, emptyCount_append, List.countP_cons, List.forall_mem_cons]
    by_cases hblank : BlankLine line
    · rw [if_pos (decide_eq_true hblank)]
      rcases hends with ⟨-, rfl⟩ | ⟨hend, -⟩
      · obtain rfl := hnil.mpr hblank
        have hone : emptyCount ([] ++ [.newline]) = 1 := rfl
        rw [hone]
        exact ⟨by omega, fun hle => ⟨fun _ => hblank, ih.2 (by omega)⟩⟩
      · exact absurd (EndsBlank.blank hblank) hend
    · rw [if_neg (by rw [decide_eq_true_iff]; exact hblank), Nat.add_zero]
      rcases hends with ⟨-, rfl⟩ | ⟨hend, rfl⟩
      · have hone : emptyCount (pieces ++ [.newline]) = 1 := by
          rw [emptyCount_append, emptyCount_of_ne_nil hne]
          rfl
        rw [hone]
        exact ⟨by omega, fun hle => by omega⟩
      · rw [emptyCount_of_ne_nil hne, Nat.zero_add]
        exact ⟨ih.1, fun hle => ⟨fun h => absurd h hend, ih.2 hle⟩⟩

/-- A line that does not end blank by a cut is kept. -/
theorem keepsLine_of_wrapsLine {groups : List (List PrintedLine)} {lines : List (List UInt8)}
    (h : List.Forall₂ (WrapsLine width) groups lines)
    (hends : ∀ line ∈ lines, EndsBlank width line → BlankLine line) :
    List.Forall₂ KeepsLine groups lines := by
  induction h with
  | nil => exact List.Forall₂.nil
  | @cons group line groups lines hgroup _ ih =>
    rw [List.forall_mem_cons] at hends
    refine List.Forall₂.cons ?_ (ih hends.2)
    obtain ⟨pieces, hne, hnil, hwords, hend⟩ := hgroup
    rw [KeepsLine]
    split
    · rename_i hblank
      rcases hend with ⟨-, rfl⟩ | ⟨hend, -⟩
      · rw [hnil.mpr hblank]
        rfl
      · exact absurd (EndsBlank.blank hblank) hend
    · rename_i hblank
      rcases hend with ⟨hend, -⟩ | ⟨-, rfl⟩
      · exact absurd (hends.1 hend) hblank
      · exact ⟨fun hpieces => hblank (hnil.mp hpieces), hne, hwords⟩

end BlankLines

/-- **Empty lines are the blank lines of the text exactly when** no line that ends with a line
break is cut such that only blanks are left of it. -/
theorem blank_lines_kept_iff (text : CStr) (width : ℤ) :
    BlankLinesKept text.bytes (rrcConPrintWrapped (some text) width) ↔
      ∀ line ∈ (textLines text.bytes).1,
        EndsBlank (max 1 width).toNat line → BlankLine line := by
  obtain ⟨groups, last, hout, hgroups, hlast⟩ :=
    wrapLoop_lines (show 0 < (max 1 width).toNat by omega) text.bytes
  rw [rrcConPrintWrapped]
  constructor
  · rintro ⟨kept, rest, hkept, hlines, hrest⟩
    refine (emptyCount_wrapsLine hgroups).2 (Nat.le_of_eq ?_)
    have hcount := congrArg emptyCount (hout.symm.trans hkept)
    rw [emptyCount_append, emptyCount_append, emptyCount_of_ne_nil hlast,
      emptyCount_of_ne_nil hrest, emptyCount_keepsLine hlines] at hcount
    exact hcount
  · intro hends
    exact ⟨groups, last, hout, keepsLine_of_wrapsLine hgroups hends, hlast⟩

/-- `"abc \ndef"`. -/
def blankAtCut : CStr := CStr.ofBuffer [97, 98, 99, 32, 10, 100, 101, 102]

/-- At a width of three, its line break is printed as an empty line. -/
theorem blank_line_invented :
    (rrcConPrintWrapped (some blankAtCut) 3).map PrintedLine.text =
        [[97, 98, 99], [], [100, 101, 102]] ∧
      ¬ BlankLinesKept blankAtCut.bytes (rrcConPrintWrapped (some blankAtCut) 3) := by
  have hwidth : 0 < 3 := by decide
  have hbreak : ∀ c ∈ ([10, 100, 101, 102] : List UInt8).head?, isBreak c = true := by
    intro c hc
    cases hc
    rfl
  have hline : ∀ c ∈ ([97, 98, 99, 32] : List UInt8), isBreak c = false :=
    List.forall_iff_forall_mem.mp (by decide)
  have hcut := wrapLoop_long hwidth hline hbreak (by decide)
  have hblank : wrapLoop 3 hwidth ([] ++ _) = _ := wrapLoop_blank hwidth hbreak rfl
  have hline' : ∀ c ∈ ([100, 101, 102] : List UInt8), isBreak c = false :=
    List.forall_iff_forall_mem.mp (by decide)
  have hrest : wrapLoop 3 hwidth ([100, 101, 102] ++ []) = _ :=
    wrapLoop_short hwidth hline' (fun c hc => by cases hc) (by decide) (by decide)
  have hend : wrapLoop 3 hwidth (skipBreak []) = [] := wrapLoop_end hwidth rfl
  have hskip : skipBreak [10, 100, 101, 102] = [100, 101, 102] ++ [] := rfl
  rw [hend] at hrest
  rw [if_neg (List.cons_ne_nil _ _), hskip, hrest] at hblank
  have hout : rrcConPrintWrapped (some blankAtCut) 3 = _ := hcut.trans (congrArg _ hblank)
  rw [hout]
  refine ⟨rfl, ?_⟩
  rintro ⟨groups, last, hkept, hlines, hlast⟩
  have hcount := congrArg emptyCount hkept
  rw [emptyCount_append, emptyCount_of_ne_nil hlast, emptyCount_keepsLine hlines] at hcount
  cases hcount

end RrLauncher
