/-
# The headers of an SSDP reply

`rr_extract_header` looks for the end of a line with `strstr` for CRLF, and for a bare LF only
where no CRLF follows anywhere.  So lines that end with a bare LF are read as one with what
follows up to the next CRLF: a header behind such a line is not seen, and the value of a
header on such a line goes on behind it.  The header is extracted exactly if neither shows
(`extract_header_iff`).
-/

import RrLauncher.Net.Upnp

namespace RrLauncher

open CStr (lit)

/-! ### Lines -/

/-- What a line ends with. -/
inductive LineEnding
  | crlf
  | lf
  deriving DecidableEq

/-- The bytes of a line ending. -/
def LineEnding.text : LineEnding → CStr
  | crlf => lit "\r\n"
  | lf => lit "\n"

/-- A line: a text without LF and its ending, which is CRLF where the text would end with CR. -/
structure ReplyLine where
  content : CStr
  ending : LineEnding
  noLf : 10 ∉ content.bytes
  noCr : ending = .lf → content.bytes.getLast? ≠ some 13

/-- Lines, one after the other. -/
def renderLines : List ReplyLine → CStr
  | [] => lit ""
  | line :: lines => line.content ++ (line.ending.text ++ renderLines lines)

/-- A text begins with the name of a header, in upper or lower case, and a colon. -/
def HasHeader (name text : CStr) : Prop :=
  name.len < text.len ∧ (text.take name.len).lower = name.lower ∧ (text.drop name.len).first = 58

instance (name text : CStr) : Decidable (HasHeader name text) :=
  inferInstanceAs (Decidable (_ ∧ _ ∧ _))

/-- What stands behind the colon, without leading blanks. -/
def headerText (name text : CStr) : CStr :=
  (text.drop (name.len + 1)).skipWhile fun c => c = 32 ∨ c = 9

/-- The first line with the header. -/
def headerLine (lines : List ReplyLine) (name : CStr) : Option ReplyLine :=
  lines.find? fun line => HasHeader name line.content

/-! ### What is read as a line -/

/-- What is read as one line: a line, and more of them behind its LF. -/
structure Stretch where
  first : ReplyLine
  more : List ReplyLine

/-- The lines behind the first one of a stretch, each behind an LF. -/
def moreText : List ReplyLine → CStr
  | [] => lit ""
  | line :: lines => lit "\n" ++ (line.content ++ moreText lines)

/-- The text of a stretch, without its ending. -/
def Stretch.text (stretch : Stretch) : CStr := stretch.first.content ++ moreText stretch.more

/-- What is read as a line: a line that ends with LF is taken together with what follows, as long
as a CRLF does. -/
def stretches : List ReplyLine → List Stretch
  | [] => []
  | line :: lines =>
    if line.ending = .lf ∧ ∃ later ∈ lines, later.ending = .crlf then
      match stretches lines with
      | [] => [⟨line, []⟩]
      | next :: rest => ⟨line, next.first :: next.more⟩ :: rest
    else ⟨line, []⟩ :: stretches lines

/-! ### One line -/

/-- A line ending behind a text. -/
def IsLineEnd (lineEnd next : CStr) : Prop :=
  lineEnd = lit "\r\n" ++ next ∨ lineEnd = lit "\n" ++ next

section Step

variable {name text lineEnd next : CStr}

/-- The tests on the name see the text in front of the line ending. -/
theorem hasHeader_append (name text lineEnd : CStr) :
    (name.len < text.len ∧ ((text ++ lineEnd).take name.len).lower = name.lower ∧
      ((text ++ lineEnd).drop name.len).first = 58) ↔ HasHeader name text := by
  refine and_congr_right fun h => ?_
  have hle : name.len ≤ text.bytes.length := Nat.le_of_lt h
  have htake : (text ++ lineEnd).take name.len = text.take name.len :=
    CStr.ext (List.take_append_of_le_length hle)
  have hdrop : ((text ++ lineEnd).drop name.len).bytes =
      text.bytes.drop name.len ++ lineEnd.bytes :=
    List.drop_append_of_le_length hle
  obtain ⟨c, behind, hc⟩ : ∃ c behind, text.bytes.drop name.len = c :: behind := by
    refine List.exists_cons_of_length_pos ?_
    rw [List.length_drop]
    exact Nat.sub_pos_of_lt h
  rw [htake, CStr.first, CStr.first, hdrop, CStr.drop_bytes, hc]
  rfl

/-- The text behind the name of a header goes on with the line ending, in front of which its value
ends. -/
theorem headerText_append (h : HasHeader name text) (hend : IsLineEnd lineEnd next) :
    headerText name (text ++ lineEnd) = headerText name text ++ lineEnd := by
  have hle : name.len + 1 ≤ text.bytes.length := h.1
  have hblank : lineEnd.bytes.dropWhile (fun c => c = 32 ∨ c = 9) = lineEnd.bytes := by
    rcases hend with rfl | rfl <;> rfl
  refine CStr.ext ?_
  show ((text.bytes ++ lineEnd.bytes).drop (name.len + 1)).dropWhile _ =
    (text.bytes.drop (name.len + 1)).dropWhile _ ++ lineEnd.bytes
  rw [List.drop_append_of_le_length hle, List.dropWhile_append, hblank]
  split
  · rename_i hempty
    rw [List.isEmpty_iff.mp hempty]
    rfl
  · rfl

/-- What is written is cut off where the buffer ends. -/
theorem take_line (value lineEnd : CStr) (outSz : ℕ) :
    (value ++ lineEnd).take (if outSz ≤ (value ++ lineEnd).len - lineEnd.len then outSz - 1
      else (value ++ lineEnd).len - lineEnd.len) = value.take (outSz - 1) := by
  rw [CStr.append_len, Nat.add_sub_cancel]
  refine CStr.ext ?_
  rw [CStr.take_bytes, CStr.append_bytes, CStr.take_bytes]
  split_ifs with hcut
  · have hle : outSz - 1 ≤ value.bytes.length := Nat.le_trans (Nat.sub_le _ _) hcut
    exact List.take_append_of_le_length hle
  · have hle : value.bytes.length ≤ outSz - 1 := by
      rw [CStr.len] at hcut
      omega
    exact (List.take_left' rfl).trans (List.take_of_length_le hle).symm

/-- **One turn of the loop**: a text up to the line ending that is found. -/
theorem rrExtractHeader_line
    (hfound : ((text ++ lineEnd).strstr (lit "\r\n")).or ((text ++ lineEnd).strchr 10) =
      some lineEnd)
    (hend : IsLineEnd lineEnd next) (outSz : ℕ) :
    rrExtractHeader (text ++ lineEnd) name outSz =
      if HasHeader name text then some ((headerText name text).take (outSz - 1))
      else rrExtractHeader next name outSz := by
  have hne : (text ++ lineEnd).bytes ≠ [] := by
    intro h
    rw [CStr.append_bytes, List.append_eq_nil_iff] at h
    rcases hend with rfl | rfl <;> exact List.cons_ne_nil _ _ h.2
  have hlen : (text ++ lineEnd).len - lineEnd.len = text.len := by
    rw [CStr.append_len, Nat.add_sub_cancel]
  rw [rrExtractHeader, if_neg hne]
  split
  · rename_i hnone
    rw [hfound] at hnone
    cases hnone
  · rename_i lineEnd' hsome
    rw [hfound] at hsome
    cases hsome
    dsimp only
    rw [hlen]
    simp only [hasHeader_append]
    split
    · rename_i hheader
      have hvalue := headerText_append hheader hend
      rw [headerText] at hvalue
      rw [hvalue, take_line]
    · rcases hend with rfl | rfl
      · rw [if_pos ⟨rfl, rfl⟩]
        rfl
      · rw [if_neg fun h => absurd (show (10 : UInt8) = 13 from h.1) (by decide)]
        rfl

end Step

/-! ### All lines -/

/-- No CRLF begins in a line that ends with LF. -/
theorem clear_lfLine {line : ReplyLine} (h : line.ending = .lf) (rest : List UInt8) :
    Search.Clear (lit "\r\n").bytes (line.content.bytes ++ (lit "\n").bytes) rest := by
  have hnoLf := line.noLf
  have hnoCr := line.noCr h
  rw [show (lit "\r\n").bytes = [13, 10] by decide, show (lit "\n").bytes = [10] by decide]
  generalize line.content.bytes = content at hnoLf hnoCr
  induction content with
  | nil => exact Search.clear_of_head (by decide) rest
  | cons c content ih =>
    rw [List.mem_cons, not_or] at hnoLf
    refine ⟨fun hstarts => ?_, ih hnoLf.2 fun hlast => hnoCr ?_⟩
    · obtain ⟨rfl, htail⟩ := List.cons_prefix_cons.mp hstarts
      -- the LF would be the one that ends the line, behind a CR
      cases content with
      | nil => exact hnoCr rfl
      | cons d content =>
        exact hnoLf.2 (List.mem_cons.mpr (Or.inl (List.cons_prefix_cons.mp htail).1))
    · rw [List.getLast?_cons, hlast]
      rfl

/-- No CRLF begins in the text of a line that ends with it. -/
theorem clear_crlfLine (line : ReplyLine) (rest : CStr) :
    Search.Clear (lit "\r\n").bytes line.content.bytes (lit "\r\n" ++ rest).bytes := by
  show Search.Clear (13 :: [10]) _ _
  refine Search.clear_of_not_infix (by decide) (fun c hc => ?_) ?_
  · exact (Option.some.inj hc).symm
  · intro hinside
    exact line.noLf (hinside.subset (by simp))

/-- A stretch of one line has the content of that line as its text. -/
theorem Stretch.text_single (line : ReplyLine) : (Stretch.mk line []).text = line.content :=
  CStr.ext (List.append_nil _)

/-- A stretch of several lines has a line feed between the content of the first one and the text of
the rest. -/
theorem Stretch.text_cons (line : ReplyLine) (next : Stretch) :
    (Stretch.mk line (next.first :: next.more)).text =
      line.content ++ (lit "\n" ++ next.text) := rfl

/-- **A stretch up to CRLF**, if there is one: the induction is on the lines. -/
theorem stretches_crlf {lines : List ReplyLine} (h : ∃ line ∈ lines, line.ending = .crlf) :
    ∃ stretch after, stretches lines = stretch :: stretches after ∧ after.length < lines.length ∧
      renderLines lines = stretch.text ++ (lit "\r\n" ++ renderLines after) ∧
      Search.Clear (lit "\r\n").bytes stretch.text.bytes
        (lit "\r\n" ++ renderLines after).bytes := by
  induction lines with
  | nil =>
    obtain ⟨line, hmem, -⟩ := h
    cases hmem
  | cons line lines ih =>
    rw [stretches]
    cases hending : line.ending with
    | crlf =>
      rw [if_neg (fun h => by cases h.1)]
      refine ⟨⟨line, []⟩, lines, rfl, Nat.lt_succ_self _, ?_, ?_⟩
      · rw [renderLines, hending, Stretch.text_single]
        rfl
      · rw [Stretch.text_single]
        exact clear_crlfLine line (renderLines lines)
    | lf =>
      have hlater : ∃ later ∈ lines, later.ending = .crlf := by
        obtain ⟨later, hmem, hcrlf⟩ := h
        rcases List.mem_cons.mp hmem with rfl | hmem
        · rw [hending] at hcrlf
          cases hcrlf
        · exact ⟨later, hmem, hcrlf⟩
      obtain ⟨next, after, hnext, hlength, hrender, hclear⟩ := ih hlater
      rw [if_pos ⟨rfl, hlater⟩, hnext]
      refine ⟨⟨line, next.first :: next.more⟩, after, rfl, Nat.lt_succ_of_lt hlength, ?_, ?_⟩
      · rw [renderLines, hending, hrender, Stretch.text_cons]
        exact CStr.ext (by simp only [LineEnding.text, CStr.append_bytes, List.append_assoc])
      · rw [Stretch.text_cons, CStr.append_bytes, CStr.append_bytes, ← List.append_assoc,
          Search.clear_append]
        exact ⟨clear_lfLine hending _, hclear⟩

/-- Where only line feeds end the lines, each line is a stretch of its own. -/
theorem stretches_lf {line : ReplyLine} {lines : List ReplyLine}
    (h : ∀ later ∈ line :: lines, later.ending = .lf) :
    stretches (line :: lines) = ⟨line, []⟩ :: stretches lines := by
  rw [stretches, if_neg]
  rintro ⟨-, later, hmem, hcrlf⟩
  rw [h later (List.mem_cons_of_mem _ hmem)] at hcrlf
  cases hcrlf

/-- There is no CRLF in lines that end with LF. -/
theorem strstr_crlf_lf {lines : List ReplyLine} (h : ∀ line ∈ lines, line.ending = .lf) :
    (renderLines lines).strstr (lit "\r\n") = none := by
  induction lines with
  | nil => decide
  | cons line lines ih =>
    rw [List.forall_mem_cons] at h
    rw [← ih h.2]
    refine CStr.strstr_skip ?_ (clear_lfLine h.1 _)
    rw [renderLines, h.1]
    simp only [LineEnding.text, CStr.append_bytes, List.append_assoc]

/-- **The loop goes from stretch to stretch**, by induction on how many lines are left. -/
theorem rrExtractHeader_stretches (lines : List ReplyLine) (name : CStr) (outSz : ℕ) :
    rrExtractHeader (renderLines lines) name outSz =
      ((stretches lines).find? fun stretch => HasHeader name stretch.text).map
        fun stretch => (headerText name stretch.text).take (outSz - 1) := by
  induction hn : lines.length using Nat.strong_induction_on generalizing lines with
  | _ n ih =>
    subst hn
    by_cases hcrlf : ∃ line ∈ lines, line.ending = .crlf
    · obtain ⟨stretch, after, hstretches, hlength, hrender, hclear⟩ := stretches_crlf hcrlf
      have hfound : (stretch.text ++ (lit "\r\n" ++ renderLines after)).strstr (lit "\r\n") =
          some (lit "\r\n" ++ renderLines after) :=
        CStr.strstr_eq_some_iff.mpr ⟨_, rfl, hclear, List.prefix_append _ _⟩
      rw [hstretches, hrender, rrExtractHeader_line (by rw [hfound]; rfl) (Or.inl rfl),
        ih _ hlength after rfl, List.find?_cons]
      split <;> rename_i hheader <;> simp [hheader]
    · have hlf : ∀ line ∈ lines, line.ending = .lf := by
        intro line hmem
        cases hending : line.ending with
        | lf => rfl
        | crlf => exact absurd ⟨line, hmem, hending⟩ hcrlf
      cases lines with
      | nil =>
        rw [renderLines, rrExtractHeader, if_pos (by decide)]
        rfl
      | cons line lines =>
        have hnone := strstr_crlf_lf hlf
        have hrender : renderLines (line :: lines) =
            line.content ++ (lit "\n" ++ renderLines lines) := by
          rw [renderLines, hlf line List.mem_cons_self]
          rfl
        have hcut : (renderLines (line :: lines)).bytes =
            line.content.bytes ++ 10 :: (renderLines lines).bytes := by
          rw [hrender]
          rfl
        obtain ⟨t, ht, hbytes⟩ := CStr.strchr_append line.noLf hcut
        have htend : t = lit "\n" ++ renderLines lines := CStr.ext hbytes
        rw [hrender] at hnone ht ⊢
        rw [stretches_lf hlf, rrExtractHeader_line (by rw [hnone, ht, htend]; rfl) (Or.inr rfl),
          ih _ (Nat.lt_succ_self _) lines rfl, List.find?_cons, Stretch.text_single]
        split <;> rename_i hheader <;> simp [hheader, Stretch.text_single]

/-! ### Where the header is extracted -/

/-- The first stretch that begins with the header. -/
def headerStretch (lines : List ReplyLine) (name : CStr) : Option Stretch :=
  (stretches lines).find? fun stretch => HasHeader name stretch.first.content

/-- The lines let the header show: if one has it, then a stretch begins with it, and of the first
of them the text behind the colon, further lines included, is the same up to the size of the
buffer.  And no stretch begins with a name that has a line break in it. -/
structure HeaderShows (lines : List ReplyLine) (name : CStr) (size : ℕ) : Prop where
  same : ∀ line ∈ headerLine lines name, ∃ stretch ∈ headerStretch lines name,
    (headerText name stretch.first.content ++ moreText stretch.more).take size =
      (headerText name line.content).take size
  lineBreak : 10 ∈ name.bytes → ∀ stretch ∈ stretches lines, ¬ HasHeader name stretch.text

/-- No other byte becomes a line feed when it is lowered, and a line feed stays one. -/
theorem tolower_lf {c : UInt8} : CStr.tolower c = 10 ↔ c = 10 :=
  CStr.tolower_eq_iff (Or.inl (by decide))

/-- A text has a line feed if and only if it does in lower case. So a header that is searched in
lower case ends where it does in the reply itself. -/
theorem mem_lower_lf {s : CStr} : 10 ∈ s.lower.bytes ↔ 10 ∈ s.bytes := by
  rw [CStr.lower_bytes, List.mem_map]
  constructor
  · rintro ⟨c, hc, hlf⟩
    exact tolower_lf.mp hlf ▸ hc
  · intro h
    exact ⟨10, h, by decide⟩

/-- A name with a line break is not in a line. -/
theorem not_hasHeader_of_lf {name text : CStr} (hname : 10 ∈ name.bytes) (htext : 10 ∉ text.bytes) :
    ¬ HasHeader name text := by
  rintro ⟨-, hlower, -⟩
  rw [← mem_lower_lf, ← hlower, mem_lower_lf] at hname
  exact htext (List.mem_of_mem_take hname)

/-- **A stretch has a header** if its first line does, for a name without a line break. -/
theorem hasHeader_text_iff {name : CStr} (hname : 10 ∉ name.bytes) (stretch : Stretch) :
    HasHeader name stretch.text ↔ HasHeader name stretch.first.content := by
  obtain ⟨line, more⟩ := stretch
  cases more with
  | nil => rw [Stretch.text_single]
  | cons next more =>
    show HasHeader name (line.content ++ moreText (next :: more)) ↔ HasHeader name line.content
    obtain ⟨rest, hrest⟩ : ∃ rest, (moreText (next :: more)).bytes = 10 :: rest := ⟨_, rfl⟩
    rw [← hasHeader_append name line.content (moreText (next :: more))]
    refine and_congr_left fun h => ⟨fun hlong => ?_, fun hlong => ?_⟩
    · -- otherwise the name or the colon would be over the LF
      rw [CStr.append_len] at hlong
      by_contra hshort
      obtain ⟨hlower, hcolon⟩ := h
      have hbytes : (line.content ++ moreText (next :: more)).bytes =
          line.content.bytes ++ 10 :: rest := by
        rw [CStr.append_bytes, hrest]
      rcases Nat.lt_or_ge line.content.len name.len with hover | hequal
      · refine hname ?_
        rw [← mem_lower_lf, ← hlower, mem_lower_lf, CStr.take_bytes, hbytes, List.take_append]
        refine List.mem_append_right _ ?_
        obtain ⟨k, hk⟩ := Nat.exists_eq_add_of_lt hover
        have hleft : name.len - line.content.bytes.length = k + 1 := by
          rw [← CStr.len]
          omega
        rw [hleft]
        exact List.mem_cons_self
      · have hlen : name.len = line.content.len := by omega
        rw [hlen, CStr.drop_append, CStr.first, hrest] at hcolon
        exact absurd (show (10 : UInt8) = 58 from hcolon) (by decide)
    · rw [CStr.append_len]
      omega

/-- Behind the name of a header stands the rest of its line, and then the further lines of the
stretch, if it has any. -/
theorem headerText_text {name : CStr} {stretch : Stretch}
    (h : HasHeader name stretch.first.content) :
    headerText name stretch.text =
      headerText name stretch.first.content ++ moreText stretch.more := by
  obtain ⟨line, more⟩ := stretch
  cases more with
  | nil =>
    rw [Stretch.text_single]
    exact CStr.ext (List.append_nil _).symm
  | cons next more => exact headerText_append h (Or.inr rfl)

/-- A stretch of a reply begins with one of the lines of that reply. -/
theorem first_mem {lines : List ReplyLine} {stretch : Stretch} (h : stretch ∈ stretches lines) :
    stretch.first ∈ lines := by
  induction lines generalizing stretch with
  | nil => cases h
  | cons line lines ih =>
    rw [stretches] at h
    split at h
    · split at h
      · rw [List.mem_singleton.mp h]
        exact List.mem_cons_self
      · rename_i next rest hnext
        rw [hnext] at ih
        rcases List.mem_cons.mp h with rfl | h
        · exact List.mem_cons_self
        · exact List.mem_cons_of_mem _ (ih (List.mem_cons_of_mem _ h))
    · rcases List.mem_cons.mp h with rfl | h
      · exact List.mem_cons_self
      · exact List.mem_cons_of_mem _ (ih h)

/-- What is written fits into the buffer with its NUL, whatever was received. -/
theorem rrExtractHeader_len (p name : CStr) (size : ℕ) :
    ∀ out ∈ rrExtractHeader p name (size + 1), out.len ≤ size := by
  induction hn : p.len using Nat.strong_induction_on generalizing p with
  | _ n ih =>
    subst hn
    intro out hout
    rw [rrExtractHeader] at hout
    split at hout
    · cases hout
    split at hout
    · cases hout
    · rename_i lineEnd hfound
      have hlen : 0 < lineEnd.len ∧ lineEnd.len ≤ p.len := by
        rcases Option.or_eq_some_iff.mp hfound with h | ⟨-, h⟩
        · have := CStr.strstr_len h
          have : (lit "\r\n").len = 2 := by decide
          omega
        · exact CStr.strchr_len h
      dsimp only at hout
      split at hout
      · rw [Option.mem_some] at hout
        subst hout
        rw [CStr.len, CStr.take_bytes, List.length_take]
        split_ifs <;> omega
      split at hout
      · exact ih _ (by rw [CStr.drop_len]; omega) _ rfl out hout
      · exact ih _ (by rw [CStr.drop_len]; omega) _ rfl out hout

/-- No line has a header with a line break in its name. -/
theorem headerLine_of_lf {name : CStr} (hname : 10 ∈ name.bytes) (lines : List ReplyLine) :
    headerLine lines name = none := by
  rw [headerLine, List.find?_eq_none]
  intro line _
  exact mt of_decide_eq_true (not_hasHeader_of_lf hname line.noLf)

/-- Where no line has the header, no stretch begins with it. -/
theorem headerStretch_eq_none {lines : List ReplyLine} {name : CStr}
    (h : headerLine lines name = none) : headerStretch lines name = none := by
  rw [headerLine, List.find?_eq_none] at h
  rw [headerStretch, List.find?_eq_none]
  exact fun stretch hmem => h stretch.first (first_mem hmem)

/-- The stretch in which a header is found begins with a line that has the name of this header in
front. -/
theorem hasHeader_of_headerStretch {lines : List ReplyLine} {name : CStr} {stretch : Stretch}
    (h : headerStretch lines name = some stretch) : HasHeader name stretch.first.content := by
  rw [headerStretch] at h
  have hdecide := List.find?_some h
  exact of_decide_eq_true hdecide

/-- **A name without a line break**: what the first stretch with the header gives is what the
first line with it has. -/
theorem headerStretch_shows_iff {name : CStr} (hname : 10 ∉ name.bytes) (lines : List ReplyLine)
    (size : ℕ) :
    (headerStretch lines name).map (fun stretch => (headerText name stretch.text).take size) =
        (headerLine lines name).map (fun line => (headerText name line.content).take size) ↔
      HeaderShows lines name size := by
  cases hline : headerLine lines name with
  | none =>
    rw [headerStretch_eq_none hline]
    refine iff_of_true rfl ⟨fun line h => ?_, fun h => absurd h hname⟩
    rw [hline] at h
    cases h
  | some line =>
    cases hstretch : headerStretch lines name with
    | none =>
      refine iff_of_false (fun h => by cases h) fun h => ?_
      obtain ⟨stretch, hmem, -⟩ := h.same line hline
      rw [hstretch] at hmem
      cases hmem
    | some stretch =>
      rw [Option.map_some, Option.map_some, headerText_text (hasHeader_of_headerStretch hstretch),
        Option.some.injEq]
      constructor
      · intro h
        refine ⟨fun line' hline' => ⟨stretch, hstretch, ?_⟩, fun h => absurd h hname⟩
        rw [hline] at hline'
        cases hline'
        exact h
      · intro h
        obtain ⟨stretch', hstretch', hsame⟩ := h.same line hline
        rw [hstretch] at hstretch'
        cases hstretch'
        exact hsame

/-- **The header of the first line that has it** is extracted exactly if the lines let it show.
What is written fits, whatever was received. -/
theorem extract_header_iff (lines : List ReplyLine) (name : CStr) (size : ℕ) :
    (∀ p : CStr, ∀ out ∈ rrExtractHeader p name (size + 1), out.len ≤ size) ∧
      (rrExtractHeader (renderLines lines) name (size + 1) =
          (headerLine lines name).map (fun line => (headerText name line.content).take size) ↔
        HeaderShows lines name size) := by
  refine ⟨fun p => rrExtractHeader_len p name size, ?_⟩
  rw [rrExtractHeader_stretches, Nat.add_sub_cancel]
  by_cases hname : 10 ∈ name.bytes
  · have hnone := headerLine_of_lf hname lines
    rw [hnone, Option.map_none, Option.map_eq_none_iff, List.find?_eq_none]
    simp only [decide_eq_true_eq]
    constructor
    · intro h
      refine ⟨fun line hline => ?_, fun _ => h⟩
      rw [hnone] at hline
      cases hline
    · intro h
      exact h.lineBreak hname
  · have hfind : (stretches lines).find? (fun stretch => HasHeader name stretch.text) =
        headerStretch lines name := by
      simp only [headerStretch, hasHeader_text_iff hname]
    rw [hfind]
    exact headerStretch_shows_iff hname lines size

/-- **Lines whose endings do not change back** let every header show: no line that ends with LF
is in front of one that ends with CRLF. -/
theorem HeaderShows.of_pairwise {lines : List ReplyLine} {name : CStr}
    (h : lines.Pairwise fun line later => line.ending = .lf → later.ending = .lf) (size : ℕ) :
    HeaderShows lines name size := by
  have hstretches : stretches lines = lines.map fun line => ⟨line, []⟩ := by
    induction lines with
    | nil => rfl
    | cons line lines ih =>
      rw [List.pairwise_cons] at h
      rw [stretches, if_neg, ih h.2, List.map_cons]
      rintro ⟨hlf, later, hmem, hcrlf⟩
      rw [h.1 later hmem hlf] at hcrlf
      cases hcrlf
  refine ⟨fun line hline => ⟨⟨line, []⟩, ?_, ?_⟩, fun hname stretch hmem => ?_⟩
  · rw [headerStretch, hstretches, List.find?_map]
    exact Option.mem_map_of_mem _ hline
  · rw [show headerText name line.content ++ moreText [] = headerText name line.content from
      CStr.ext (List.append_nil _)]
  · rw [hstretches, List.mem_map] at hmem
    obtain ⟨line, -, rfl⟩ := hmem
    rw [Stretch.text_single]
    exact not_hasHeader_of_lf hname line.noLf

/-- A status line that ends with LF, and a header that ends with CRLF. -/
def mixedReply : List ReplyLine :=
  [⟨lit "HTTP/1.1 200 OK", .lf, by decide, by decide⟩,
    ⟨lit "LOCATION: http://192.168.1.1/d.xml", .crlf, by decide, by decide⟩]

/-- **A header behind a line with LF is not seen.** -/
theorem extract_header_missed :
    ¬ ∀ (lines : List ReplyLine) (name : CStr) (size : ℕ),
      rrExtractHeader (renderLines lines) name (size + 1) =
        (headerLine lines name).map fun line => (headerText name line.content).take size := by
  intro h
  have hmissed := h mixedReply (lit "LOCATION") 255
  revert hmissed
  decide +kernel

end RrLauncher
