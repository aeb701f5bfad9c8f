/-
# Where an object of a JSON text ends

`rr_json_find_object_end` of `upnp_error_codes.c`, with every position that it reads.  It counts
braces and passes over strings, and stays in step with the grammar: of every object, however deep
it is nested and whatever its strings hold, it finds the closing brace, and of no strict prefix of
one it finds any (`find_object_end_matches`).
-/

import RrLauncher.Lib.Json.Grammar
import RrLauncher.Net.UpnpRegistry

namespace RrLauncher

open Json (StringChar Token Renders IsValue)

/-- What a search read, and what it returned. -/
structure ObjectEndRun where
  reads : List (List UInt8)
  result : Option (List UInt8)

/-- A run with one read more in front of it. -/
def ObjectEndRun.reading (p : List UInt8) (run : ObjectEndRun) : ObjectEndRun :=
  ⟨p :: run.reads, run.result⟩

/-- The loop of `rr_json_find_object_end`; in front of `*p` it has compared `p` with `end`, and
of `p + 1` it compares the address only. -/
def objectEndRun (stop : ℕ) : List UInt8 → ℤ → Bool → ObjectEndRun
  | [], _, _ => ⟨[], none⟩
  | c :: rest, depth, inString =>
    if (c :: rest).length ≤ stop then ⟨[], none⟩
    else
      ObjectEndRun.reading (c :: rest) <|
        if inString then
          if c = Json.backslash ∧ stop < rest.length then
            match rest with
            | [] => ⟨[], none⟩
            | _ :: rest => objectEndRun stop rest depth true
          else objectEndRun stop rest depth (c ≠ Json.quote)
        else if c = Json.quote then objectEndRun stop rest depth true
        else if c = leftBrace then objectEndRun stop rest (depth + 1) false
        else if c = rightBrace then
          if depth - 1 = 0 then ⟨[], some (c :: rest)⟩
          else objectEndRun stop rest (depth - 1) false
        else objectEndRun stop rest depth false

/-- `rr_json_find_object_end` on any bytes, with what it reads. -/
def rrJsonFindObjectEndRun (objectStart : List UInt8) (stop : ℕ) : ObjectEndRun :=
  objectEndRun stop objectStart 0 false

/-- One turn of the search with its reads: the byte is read in front of the end only, and where the
loop goes on depends on whether it is inside a string, and in a string on a backslash. -/
theorem objectEndRun_cons (stop : ℕ) (c : UInt8) (rest : List UInt8) (depth : ℤ)
    (inString : Bool) :
    objectEndRun stop (c :: rest) depth inString =
      if (c :: rest).length ≤ stop then ⟨[], none⟩
      else
        ObjectEndRun.reading (c :: rest) <|
          if inString then
            if c = Json.backslash ∧ stop < rest.length then
              match rest with
              | [] => ⟨[], none⟩
              | _ :: rest => objectEndRun stop rest depth true
            else objectEndRun stop rest depth (c ≠ Json.quote)
          else if c = Json.quote then objectEndRun stop rest depth true
          else if c = leftBrace then objectEndRun stop rest (depth + 1) false
          else if c = rightBrace then
            if depth - 1 = 0 then ⟨[], some (c :: rest)⟩
            else objectEndRun stop rest (depth - 1) false
          else objectEndRun stop rest depth false := by
  cases rest <;> rfl

/-- A run with a result that read in front of the end only. -/
def ObjectEndRun.Within (stop : ℕ) (run : ObjectEndRun) (result : Option (List UInt8)) : Prop :=
  run.result = result ∧ ∀ p ∈ run.reads, stop < p.length

/-- One more read in front of the end keeps a run within its bounds. -/
theorem ObjectEndRun.Within.reading {stop : ℕ} {run : ObjectEndRun} {result : Option (List UInt8)}
    {p : List UInt8} (h : run.Within stop result) (hp : stop < p.length) :
    (run.reading p).Within stop result :=
  ⟨h.1, List.forall_mem_cons.mpr ⟨hp, h.2⟩⟩

/-- A run that reads nothing is within any bounds. -/
theorem within_of_no_reads (stop : ℕ) (result : Option (List UInt8)) :
    (ObjectEndRun.mk [] result).Within stop result :=
  ⟨rfl, fun p hp => by cases hp⟩

/-- **The search reads nothing at its end or behind it**, and that the reads are written down
changes no result. -/
theorem objectEndRun_within (stop : ℕ) (s : List UInt8) (depth : ℤ) (inString : Bool) :
    (objectEndRun stop s depth inString).Within stop (objectEndLoop stop s depth inString) := by
  induction hn : s.length using Nat.strong_induction_on generalizing s depth inString with
  | _ n ih =>
    subst hn
    cases s with
    | nil => exact within_of_no_reads stop none
    | cons c rest =>
      have hrest := fun depth inString => ih rest.length (Nat.lt_succ_self _) rest depth inString rfl
      rw [objectEndRun_cons, objectEndLoop_cons]
      by_cases hend : (c :: rest).length ≤ stop
      · rw [if_pos hend, if_pos hend]
        exact within_of_no_reads stop none
      · rw [if_neg hend, if_neg hend]
        refine ObjectEndRun.Within.reading ?_ (Nat.lt_of_not_le hend)
        split_ifs
        · cases rest with
          | nil => exact within_of_no_reads stop none
          | cons d rest => exact ih rest.length (by simp only [List.length_cons]; omega) rest _ _ rfl
        · exact hrest _ _
        · exact hrest _ _
        · exact hrest _ _
        · exact within_of_no_reads stop _
        · exact hrest _ _
        · exact hrest _ _

/-- At the end of the text that is searched, or behind it, nothing is found. -/
theorem objectEndLoop_over {stop : ℕ} {s : List UInt8} (h : s.length ≤ stop) (depth : ℤ)
    (inString : Bool) : objectEndLoop stop s depth inString = none := by
  cases s with
  | nil => rfl
  | cons c s => rw [objectEndLoop_cons, if_pos h]

/-- What is found in front of the end is found with more text there, too. -/
theorem objectEndLoop_visible {behind shown q : List UInt8} {depth : ℤ} {inString : Bool}
    (h : objectEndLoop behind.length (shown ++ behind) depth inString = some q) :
    ∃ r, r ≠ [] ∧ q = r ++ behind ∧
      ∀ more, objectEndLoop 0 (shown ++ more) depth inString = some (r ++ more) := by
  induction hn : shown.length using Nat.strong_induction_on generalizing shown depth inString with
  | _ n ih =>
    subst hn
    cases shown with
    | nil =>
      rw [List.nil_append, objectEndLoop_over (Nat.le_refl _)] at h
      cases h
    | cons c rest =>
      have hlen : ¬ (c :: (rest ++ behind)).length ≤ behind.length := by
        simp only [List.length_cons, List.length_append]
        omega
      have hgo : ∀ more, ¬ (c :: (rest ++ more)).length ≤ 0 := fun more => by
        rw [List.length_cons]
        omega
      -- one byte is passed over, with more text as with what is there
      have hrest : ∀ {depth' inString'},
          objectEndLoop behind.length (rest ++ behind) depth' inString' = some q →
          (∀ more, objectEndLoop 0 (c :: (rest ++ more)) depth inString =
            objectEndLoop 0 (rest ++ more) depth' inString') →
          ∃ r, r ≠ [] ∧ q = r ++ behind ∧
            ∀ more, objectEndLoop 0 (c :: (rest ++ more)) depth inString = some (r ++ more) := by
        intro depth' inString' hfound hpass
        obtain ⟨r, hne, hq, hmore⟩ := ih rest.length (Nat.lt_succ_self _) hfound rfl
        exact ⟨r, hne, hq, fun more => (hpass more).trans (hmore more)⟩
      rw [List.cons_append, objectEndLoop_cons, if_neg hlen] at h
      split_ifs at h with hstring hescape hquote hleft hright hzero
      · cases rest with
        | nil => exact absurd hescape.2 (Nat.lt_irrefl _)
        | cons d rest =>
          obtain ⟨r, hne, rfl, hmore⟩ :=
            ih rest.length (by simp only [List.length_cons]; omega) h rfl
          refine ⟨r, hne, rfl, fun more => ?_⟩
          rw [List.cons_append, objectEndLoop_cons, if_neg (hgo more), if_pos hstring,
            if_pos ⟨hescape.1, Nat.succ_pos _⟩]
          exact hmore more
      · have hplain : ∀ more, ¬ (c = Json.backslash ∧ 0 < (rest ++ more).length) := by
          rintro more ⟨rfl, -⟩
          cases rest with
          | nil =>
            rw [List.nil_append, objectEndLoop_over (Nat.le_refl _)] at h
            cases h
          | cons d rest =>
            refine hescape ⟨rfl, ?_⟩
            simp only [List.length_append, List.length_cons]
            omega
        refine hrest h fun more => ?_
        rw [objectEndLoop_cons, if_neg (hgo more), if_pos hstring, if_neg (hplain more)]
      · refine hrest h fun more => ?_
        rw [objectEndLoop_cons, if_neg (hgo more), if_neg hstring, if_pos hquote]
      · refine hrest h fun more => ?_
        rw [objectEndLoop_cons, if_neg (hgo more), if_neg hstring, if_neg hquote, if_pos hleft]
      · refine ⟨c :: rest, List.cons_ne_nil _ _, (Option.some.inj h).symm, fun more => ?_⟩
        rw [List.cons_append, objectEndLoop_cons, if_neg (hgo more), if_neg hstring, if_neg hquote,
          if_neg hleft, if_pos hright, if_pos hzero]
      · refine hrest h fun more => ?_
        rw [objectEndLoop_cons, if_neg (hgo more), if_neg hstring, if_neg hquote, if_neg hleft,
          if_pos hright, if_neg hzero]
      · refine hrest h fun more => ?_
        rw [objectEndLoop_cons, if_neg (hgo more), if_neg hstring, if_neg hquote, if_neg hleft,
          if_neg hright]

/-! ### In step with the grammar -/

/-- Tokens that the search passes over inside an object. -/
def Passed (ts : List Token) : Prop :=
  ∀ s, Renders ts s → ∀ (stop : ℕ) (rest : List UInt8) (depth : ℤ), stop ≤ rest.length → 0 < depth →
    objectEndLoop stop (s ++ rest) depth false = objectEndLoop stop rest depth false

/-- Tokens that the search passes over may stand one after the other: it comes out behind them at
the depth at which it went in. -/
theorem passed_append (ts us : List Token) (hts : Passed ts) (hus : Passed us) :
    Passed (ts ++ us) := by
  intro s h stop rest depth hstop hdepth
  obtain ⟨s₁, s₂, rfl, h₁, h₂⟩ := h.of_append
  have hlen : stop ≤ (s₂ ++ rest).length := by
    rw [List.length_append]
    omega
  rw [List.append_assoc, hts s₁ h₁ stop _ depth hlen hdepth, hus s₂ h₂ stop rest depth hstop hdepth]

/-- Tokens without braces are passed over, strings included: a brace in a string does not count. -/
theorem passed_of_flat {ts : List Token} (hts : ∀ t ∈ ts, t.IsFlat) : Passed ts :=
  fun _ h _ _ depth hstop _ => objectEndLoop_flat hts h hstop depth

/-- A brace outside of strings is counted, and any other mark is passed over; the loop goes on with
the tokens behind it. -/
theorem objectEndLoop_mark {b : UInt8} {hb : b ≠ Json.quote ∧ Json.isSpace b = false}
    {ts : List Token} {s : List UInt8} (h : Renders (.mark b hb :: ts) s) {stop : ℕ}
    {rest : List UInt8} (hstop : stop ≤ rest.length) (depth : ℤ) :
    ∃ s', Renders ts s' ∧
      objectEndLoop stop (s ++ rest) depth false =
        objectEndLoop stop (b :: (s' ++ rest)) depth false := by
  cases h with
  | cons hws h =>
    rename_i ws s'
    refine ⟨s', h, ?_⟩
    rw [List.append_assoc, objectEndLoop_spaces hws]
    · rfl
    · simp only [List.length_append]
      omega

/-- A left brace outside of strings makes the search one level deeper. -/
theorem objectEndLoop_leftBrace {stop : ℕ} {s : List UInt8} (hstop : stop ≤ s.length) (depth : ℤ) :
    objectEndLoop stop (leftBrace :: s) depth false = objectEndLoop stop s (depth + 1) false := by
  rw [objectEndLoop_cons, if_neg (by rw [List.length_cons]; omega), if_neg (by decide),
    if_neg (by decide), if_pos rfl]

/-- A right brace outside of strings is the end where it closes the outermost object, and otherwise
the search goes on one level higher. -/
theorem objectEndLoop_rightBrace {stop : ℕ} {s : List UInt8} (hstop : stop ≤ s.length) (depth : ℤ) :
    objectEndLoop stop (rightBrace :: s) (depth + 1) false =
      if depth = 0 then some (rightBrace :: s) else objectEndLoop stop s depth false := by
  have hback : depth + 1 - 1 = depth := by omega
  rw [objectEndLoop_cons, if_neg (by rw [List.length_cons]; omega), if_neg (by decide),
    if_neg (by decide), if_neg (by decide), if_pos rfl, hback]

/-- **An object inside an object** is passed over: its braces are counted up and down again. -/
theorem passed_braces (ts : List Token) (hts : Passed ts) :
    Passed (Token.leftBrace :: (ts ++ [Token.rightBrace])) := by
  intro s h stop rest depth hstop hdepth
  obtain ⟨s', h', hleft⟩ := objectEndLoop_mark h hstop depth
  obtain ⟨s₁, s₂, rfl, h₁, h₂⟩ := h'.of_append
  obtain ⟨s₃, h₃, hright⟩ := objectEndLoop_mark h₂ hstop (depth + 1)
  have hlen₂ : stop ≤ (s₂ ++ rest).length := by
    rw [List.length_append]
    omega
  have hlen₁ : stop ≤ (s₁ ++ (s₂ ++ rest)).length := by
    rw [List.length_append]
    omega
  have hlen₃ : stop ≤ (s₃ ++ rest).length := by
    rw [List.length_append]
    omega
  have hspaces : objectEndLoop stop (s₃ ++ rest) depth false = objectEndLoop stop rest depth false := by
    cases h₃ with
    | nil hws => exact objectEndLoop_spaces hws hstop depth
  calc objectEndLoop stop (s ++ rest) depth false
      = objectEndLoop stop (leftBrace :: (s₁ ++ (s₂ ++ rest))) depth false := by
        rw [hleft, List.append_assoc]
        rfl
    _ = objectEndLoop stop (s₁ ++ (s₂ ++ rest)) (depth + 1) false :=
        objectEndLoop_leftBrace hlen₁ depth
    _ = objectEndLoop stop (s₂ ++ rest) (depth + 1) false :=
        hts s₁ h₁ stop _ (depth + 1) hlen₂ (by omega)
    _ = objectEndLoop stop (s₃ ++ rest) depth false := by
        rw [hright]
        exact (objectEndLoop_rightBrace hlen₃ depth).trans (if_neg (by omega))
    _ = objectEndLoop stop rest depth false := hspaces

/-- **Every value is passed over**, and so is what stands between the braces of an object. -/
theorem passed_objectBody {members : List (List StringChar × List Token)}
    (h : ∀ member ∈ members, IsValue member.2) : Passed (Json.objectBody members) := by
  have hnil : Passed [] := passed_of_flat fun t ht => by cases ht
  have hflat : ∀ t : Token, t.IsFlat → Passed [t] := fun t ht =>
    passed_of_flat (List.forall_mem_singleton.mpr ht)
  exact Json.closed_objectBody hnil passed_append hflat fun member hmember =>
    (h member hmember).closed hnil passed_append hflat passed_braces

/-- **The end of an object is found**: from its left brace the search goes over all members, however
deep they are nested, to the right brace that belongs to it. -/
theorem objectEnd_found {members : List (List StringChar × List Token)}
    (hmembers : ∀ member ∈ members, IsValue member.2) {body : List UInt8}
    (h : Renders (Json.objectBody members) body) {stop : ℕ} {rest : List UInt8}
    (hstop : stop ≤ rest.length) :
    objectEndLoop stop (leftBrace :: (body ++ rightBrace :: rest)) 0 false =
      some (rightBrace :: rest) := by
  have hlen : stop ≤ (rightBrace :: rest).length := hstop.trans (Nat.le_succ _)
  have hbody : stop ≤ (body ++ rightBrace :: rest).length := by
    rw [List.length_append]
    omega
  rw [objectEndLoop_leftBrace hbody, passed_objectBody hmembers body h stop _ (0 + 1) hlen (by decide),
    objectEndLoop_rightBrace hstop, if_pos rfl]

/-- **The search finds the closing brace of its own object**: whatever is nested in the object,
whatever its strings hold and whatever stands behind it.  Where the buffer ends in the object,
the search finds none, and it reads nothing at the end or behind it. -/
theorem find_object_end_matches {members : List (List StringChar × List Token)}
    (hmembers : ∀ member ∈ members, IsValue member.2) {body : List UInt8}
    (h : Renders (Json.objectBody members) body) :
    (∀ (rest : List UInt8) (stop : ℕ), stop ≤ rest.length →
      (rrJsonFindObjectEndRun (leftBrace :: (body ++ rightBrace :: rest)) stop).result =
        some (rightBrace :: rest)) ∧
    (∀ shown hidden behind : List UInt8, shown ++ hidden = leftBrace :: (body ++ [rightBrace]) →
      hidden ≠ [] → (rrJsonFindObjectEndRun (shown ++ behind) behind.length).result = none) ∧
    ∀ (buffer : List UInt8) (stop : ℕ),
      ∀ p ∈ (rrJsonFindObjectEndRun buffer stop).reads, stop < p.length := by
  refine ⟨fun rest stop hstop => ?_, fun shown hidden behind hsplit hhidden => ?_,
    fun buffer stop => (objectEndRun_within stop buffer 0 false).2⟩
  · exact (objectEndRun_within _ _ _ _).1.trans (objectEnd_found hmembers h hstop)
  · refine (objectEndRun_within _ _ _ _).1.trans (Option.eq_none_iff_forall_ne_some.mpr fun q hq => ?_)
    obtain ⟨r, hne, -, hmore⟩ := objectEndLoop_visible hq
    have hfound : objectEndLoop 0 (leftBrace :: (body ++ [rightBrace])) 0 false = some [rightBrace] :=
      objectEnd_found hmembers h (Nat.le_refl 0)
    rw [← hsplit, hmore hidden] at hfound
    have hlen := congrArg List.length (Option.some.inj hfound)
    rw [List.length_append, List.length_singleton] at hlen
    have hr := List.length_pos_of_ne_nil hne
    have hh := List.length_pos_of_ne_nil hhidden
    omega

/-- `{"a":[{"}":"\\\\"}],"b":true}`, where a string ends in a pair of backslashes. -/
theorem find_object_end_matches_nested :
    let inner : List (List StringChar × List Token) :=
      [([.plain 125 (by decide)], [.string [.escape 92]])]
    let members : List (List StringChar × List Token) :=
      [([.plain 97 (by decide)], .leftBracket :: (Json.commaSeparated
        [.leftBrace :: (Json.objectBody inner ++ [.rightBrace])] ++ [.rightBracket])),
        ([.plain 98 (by decide)], [.mark 116 (by decide), .mark 114 (by decide),
          .mark 117 (by decide), .mark 101 (by decide)])]
    let body := (Json.objectBody members).flatMap Token.bytes
    (rrJsonFindObjectEndRun (leftBrace :: (body ++ [rightBrace, 44])) 1).result =
      some [rightBrace, 44] := by
  intro inner members body
  have hinner : ∀ member ∈ inner, IsValue member.2 :=
    List.forall_mem_singleton.mpr (.string [.escape 92])
  have htrue : ∀ t ∈ ([.mark 116 (by decide), .mark 114 (by decide), .mark 117 (by decide),
      .mark 101 (by decide)] : List Token), t.IsScalar := by
    exact List.forall_iff_forall_mem.mp (by decide)
  have hmembers : ∀ member ∈ members, IsValue member.2 :=
    List.forall_mem_cons.mpr ⟨.array (List.forall_mem_singleton.mpr (.object hinner)),
      List.forall_mem_singleton.mpr (.scalar (List.cons_ne_nil _ _) htrue)⟩
  exact (find_object_end_matches hmembers (Renders.compact _)).1 [44] 1 (Nat.le_refl 1)

end RrLauncher
