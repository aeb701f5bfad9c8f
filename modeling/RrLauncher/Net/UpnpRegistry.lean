/-
# The texts of a registry of error codes

A registry is a JSON object whose keys are error codes and whose values are objects of
three strings.  The searches for a key, for a member and for the end of an object find
their way in every text of one: nothing inside a string is taken for what is searched.
-/

import RrLauncher.Lib.Json.Tokens
import RrLauncher.Net.UpnpErrorCodes

namespace RrLauncher

open CStr (lit)
open Json (StringChar Token Renders IsKey KeyFree)

/-- The members of an entry. -/
inductive MemberName
  | name
  | description
  | solution
  deriving DecidableEq

/-- The key of a member. -/
def MemberName.text : MemberName → CStr
  | .name => lit "name"
  | .description => lit "description"
  | .solution => lit "solution"

/-- The size of the buffer for a member. -/
def MemberName.size : MemberName → ℕ
  | .name => 64
  | .description => 256
  | .solution => 256

/-- The bytes behind a backslash in a registry: `"`, `\`, `/`, `n`, `r` and `t`. -/
def registryEscapes : List UInt8 := [34, 92, 47, 110, 114, 116]

/-- A string of the registry. -/
structure RegistryText where
  chars : List StringChar
  escapes : ∀ b, .escape b ∈ chars → b ∈ registryEscapes

/-- The byte that a character of a string stands for. -/
def decodeChar : StringChar → UInt8
  | .plain b _ => b
  | .escape b => decodeEscape b

/-- The text that a string stands for. -/
def RegistryText.decoded (text : RegistryText) : List UInt8 := text.chars.map decodeChar

/-- An entry: the code, the three strings, and the order in which they are written. -/
structure RegistryEntry where
  code : ℕ
  value : MemberName → RegistryText
  order : List MemberName
  perm : order.Perm [.name, .description, .solution]

/-- The token `{`, at which an object begins. -/
def leftBraceToken : Token := .mark leftBrace (by decide)

/-- The token `}`, at which an object ends. -/
def rightBraceToken : Token := .mark rightBrace (by decide)

/-- A member of an entry. -/
def RegistryEntry.memberTokens (entry : RegistryEntry) (m : MemberName) : List Token :=
  [.string (Json.ofBytes m.text.bytes), Token.colon, .string (entry.value m).chars]

/-- The members of an entry. -/
def RegistryEntry.membersTokens (entry : RegistryEntry) : List Token :=
  Json.commaSeparated (entry.order.map entry.memberTokens)

/-- An entry of the registry. -/
def RegistryEntry.tokens (entry : RegistryEntry) : List Token :=
  .string (Json.ofBytes (Decimal.digits entry.code)) :: Token.colon :: leftBraceToken ::
    (entry.membersTokens ++ [rightBraceToken])

/-- A registry: an object whose members are its entries. -/
def registryTokens (entries : List RegistryEntry) : List Token :=
  leftBraceToken :: (Json.commaSeparated (entries.map RegistryEntry.tokens) ++ [rightBraceToken])

/-- The three strings fit their buffers. -/
def RegistryEntry.Fits (entry : RegistryEntry) : Prop :=
  ∀ m, (entry.value m).decoded.length < m.size

/-- What a member becomes in the result. -/
def RegistryEntry.shown (entry : RegistryEntry) (m : MemberName) : CStr :=
  asciiSafeInPlace (entry.value m).decoded m.size

/-- The result for an entry. -/
def RegistryEntry.info (entry : RegistryEntry) (code : Decimal.CInt) : RrUpnpErrorInfo :=
  ⟨code, true, entry.shown .name, entry.shown .description, entry.shown .solution⟩

/-! ### The searches -/

/-- The search with its turns as the source has them, without the proof that it comes to an end. -/
theorem findKeyColon_unfold (pattern : CStr) (stop : ℕ) (p : CStr) :
    findKeyColon pattern stop p =
      if stop < p.len then
        match p.strstr pattern with
        | none => none
        | some key =>
          if key.len ≤ stop then none
          else
            let after := skipSpace stop (key.drop pattern.len)
            if stop < after.len ∧ after.first = Json.colon then some after
            else findKeyColon pattern stop (key.drop 1)
      else none := by
  rw [findKeyColon]
  split_ifs
  · split
    · rename_i h
      rw [h]
    · rename_i h
      rw [h]
  · rfl

/-- **The search with `strstr` is the one that tries every position.** -/
theorem findKeyColon_eq {key : List UInt8} {pattern : CStr}
    (hpattern : pattern.bytes = Json.quote :: (key ++ [Json.quote])) (stop : ℕ) (p : CStr) :
    (findKeyColon pattern stop p).map CStr.bytes = Json.findKey key stop p.bytes := by
  have hlen : pattern.len = key.length + 2 := by simp [CStr.len, hpattern]
  induction hs : p.bytes generalizing p with
  | nil =>
    rw [findKeyColon_unfold, if_neg (by simp [CStr.len, hs])]
    rfl
  | cons c s ih =>
    have hrest : (p.drop 1).bytes = s := by rw [CStr.drop_bytes, hs]; rfl
    have hplen : p.len = s.length + 1 := by rw [CStr.len, hs]; rfl
    have hrestlen : (p.drop 1).len = s.length := by rw [CStr.len, hrest]
    have ih := ih (p.drop 1) hrest
    have hunfold := findKeyColon_unfold pattern stop p
    rw [CStr.strstr_cons hs, hpattern] at hunfold
    rw [hunfold, Json.findKey, List.length_cons, ← hplen]
    by_cases hstop : stop < p.len
    · rw [if_pos hstop, if_pos hstop]
      unfold Json.keyAt
      by_cases hstarts : Json.quote :: (key ++ [Json.quote]) <+: c :: s
      · -- the pattern is here, so this is where `strstr` stops
        rw [if_pos hstarts, if_pos hstarts]
        dsimp only
        rw [if_neg (by omega), hlen]
        have hafter : (skipSpace stop (p.drop (key.length + 2))).bytes =
            Json.skipSpace stop ((c :: s).drop (key.length + 2)) := by
          rw [skipSpace_bytes, CStr.drop_bytes, hs]
        generalize skipSpace stop (p.drop (key.length + 2)) = after at hafter
        have hfirst := CStr.first_eq_iff (s := after) (c := Json.colon) (by decide)
        unfold Json.colonAfter
        rw [← hafter]
        by_cases hcolon : stop < after.len ∧ after.first = Json.colon
        · rw [if_pos hcolon, if_pos ⟨hcolon.1, hfirst.mp hcolon.2⟩]
          rfl
        · rw [if_neg hcolon, if_neg (fun h => hcolon ⟨h.1, hfirst.mpr h.2⟩), ih, Option.none_or]
      · rw [if_neg hstarts, if_neg hstarts, Option.none_or, ← ih, findKeyColon_unfold pattern stop]
        congr 1
        by_cases hrestop : stop < (p.drop 1).len
        · rw [if_pos hrestop]
        · rw [if_neg hrestop]
          cases hfound : (p.drop 1).strstr pattern with
          | none => rfl
          | some key =>
            have hkey := CStr.strstr_len hfound
            dsimp only
            rw [if_pos (by omega)]
    · rw [if_neg hstop, if_neg hstop]
      rfl

/-- **A string is decoded up to its end**, if it fits. -/
theorem readChars_rawBytes (cs : List StringChar) {stop outSize : ℕ} {rest : List UInt8}
    (hstop : stop ≤ rest.length) {out : List UInt8} (hout : out.length < outSize) :
    readChars stop outSize (Json.rawBytes cs ++ Json.quote :: rest) out =
      if out.length + cs.length < outSize then some (out ++ cs.map decodeChar) else none := by
  induction cs generalizing out with
  | nil =>
    rw [Json.rawBytes, List.flatMap_nil, List.nil_append, readChars_cons,
      if_neg (by rw [List.length_cons]; omega), if_pos rfl, if_pos (by simpa using hout)]
    simp
  | cons c cs ih =>
    have hlen : stop < (Json.rawBytes cs ++ Json.quote :: rest).length := by
      rw [List.length_append, List.length_cons]
      omega
    have hstep : ∀ b, (if outSize ≤ out.length + 1 then none
          else readChars stop outSize (Json.rawBytes cs ++ Json.quote :: rest) (out ++ [b])) =
        if out.length + (cs.length + 1) < outSize then some (out ++ b :: cs.map decodeChar)
        else none := by
      intro b
      by_cases hfull : outSize ≤ out.length + 1
      · rw [if_pos hfull, if_neg (by omega)]
      · rw [if_neg hfull, ih (by rw [List.length_append, List.length_singleton]; omega),
          List.append_assoc, List.length_append, List.length_singleton, Nat.add_assoc,
          Nat.add_comm 1]
        rfl
    rw [List.length_cons, List.map_cons]
    cases c with
    | plain b hb =>
      show readChars stop outSize (b :: (Json.rawBytes cs ++ Json.quote :: rest)) out = _
      rw [readChars_cons, if_neg (by rw [List.length_cons]; omega), if_neg hb.1,
        if_neg (fun h => hb.2 h.1)]
      exact hstep b
    | escape b =>
      show readChars stop outSize
        (Json.backslash :: b :: (Json.rawBytes cs ++ Json.quote :: rest)) out = _
      rw [readChars_cons, if_neg (by simp only [List.length_cons]; omega), if_neg (by decide),
        if_pos ⟨rfl, by rw [List.length_cons]; omega⟩]
      exact hstep (decodeEscape b)

/-! ### The end of an object -/

/-- Inside a string nothing is counted: the search leaves it at the closing quote, at the depth at
which it went in. -/
theorem objectEndLoop_rawBytes (cs : List StringChar) {stop : ℕ} {rest : List UInt8}
    (hstop : stop ≤ rest.length) (depth : ℤ) :
    objectEndLoop stop (Json.rawBytes cs ++ Json.quote :: rest) depth true =
      objectEndLoop stop rest depth false := by
  induction cs with
  | nil =>
    rw [Json.rawBytes, List.flatMap_nil, List.nil_append, objectEndLoop_cons,
      if_neg (by rw [List.length_cons]; omega), if_pos rfl,
      if_neg (fun h => absurd h.1 (by decide))]
    rfl
  | cons c cs ih =>
    have hlen : stop < (Json.rawBytes cs ++ Json.quote :: rest).length := by
      rw [List.length_append, List.length_cons]
      omega
    cases c with
    | plain b hb =>
      show objectEndLoop stop (b :: (Json.rawBytes cs ++ Json.quote :: rest)) depth true = _
      rw [objectEndLoop_cons, if_neg (by rw [List.length_cons]; omega), if_pos rfl,
        if_neg (fun h => hb.2 h.1), decide_eq_true hb.1, ih]
    | escape b =>
      show objectEndLoop stop
        (Json.backslash :: b :: (Json.rawBytes cs ++ Json.quote :: rest)) depth true = _
      rw [objectEndLoop_cons, if_neg (by simp only [List.length_cons]; omega), if_pos rfl,
        if_pos ⟨rfl, by rw [List.length_cons]; omega⟩]
      exact ih

/-- Whitespace is passed over and leaves the depth as it is. -/
theorem objectEndLoop_spaces {ws : List UInt8} (hws : ∀ b ∈ ws, Json.isSpace b = true) {stop : ℕ}
    {rest : List UInt8} (hstop : stop ≤ rest.length) (depth : ℤ) :
    objectEndLoop stop (ws ++ rest) depth false = objectEndLoop stop rest depth false := by
  induction ws with
  | nil => rfl
  | cons c ws ih =>
    rw [List.forall_mem_cons] at hws
    have hne : ∀ b, Json.isSpace b = false → c ≠ b := by
      rintro b hb rfl
      rw [hb] at hws
      exact absurd hws.1 (by decide)
    rw [List.cons_append, objectEndLoop_cons,
      if_neg (by simp only [List.length_cons, List.length_append]; omega), if_neg (by decide),
      if_neg (hne _ (by decide)), if_neg (hne _ (by decide)), if_neg (hne _ (by decide)), ih hws.2]

/-- **Tokens without braces are passed over**, in any rendering, and leave the depth as it is. It is
proved along the tokens. -/
theorem objectEndLoop_flat {ts : List Token}
    (hflat : ∀ t ∈ ts, t.first ≠ leftBrace ∧ t.first ≠ rightBrace) {s : List UInt8}
    (h : Renders ts s) {stop : ℕ} {rest : List UInt8} (hstop : stop ≤ rest.length) (depth : ℤ) :
    objectEndLoop stop (s ++ rest) depth false = objectEndLoop stop rest depth false := by
  induction h with
  | nil hws => exact objectEndLoop_spaces hws hstop depth
  | cons hws _ ih =>
    rename_i ws t ts s _
    rw [List.forall_mem_cons] at hflat
    have hrest := ih hflat.2
    have hlen : stop ≤ (s ++ rest).length := by
      rw [List.length_append]
      omega
    rw [List.append_assoc, List.append_assoc, objectEndLoop_spaces hws]
    · cases t with
      | string cs =>
        show objectEndLoop stop (Json.quote :: (Json.rawBytes cs ++ [Json.quote] ++ (s ++ rest))) _ _
          = _
        rw [objectEndLoop_cons, if_neg (by simp only [List.length_cons, List.length_append]; omega),
          if_neg (by decide), if_pos rfl, List.append_assoc, ← hrest]
        exact objectEndLoop_rawBytes cs hlen depth
      | mark b hb =>
        have hbrace : b ≠ leftBrace ∧ b ≠ rightBrace := hflat.1
        show objectEndLoop stop (b :: (s ++ rest)) _ _ = _
        rw [objectEndLoop_cons, if_neg (by rw [List.length_cons]; omega), if_neg (by decide),
          if_neg hb.1, if_neg hbrace.1, if_neg hbrace.2, hrest]
    · rw [List.length_append]
      omega

/-! ### The keys of a registry -/

/-- A key that is searched: no part of the registry but a string begins like it. -/
structure IsRegistryKey (key : List UInt8) : Prop extends IsKey key where
  not_mark : ∀ b ∈ [Json.colon, Token.comma.first, leftBrace, rightBrace], key.head? ≠ some b

/-- The digits of an error code make a key that no other part of the registry looks like. -/
theorem isRegistryKey_digits (n : ℕ) : IsRegistryKey (Decimal.digits n) := by
  have hmem : ∀ b ∈ Decimal.digits n, Decimal.isdigit b = true := fun b hb =>
    Decimal.isdigit_of_mem_digits hb
  refine ⟨⟨Decimal.digits_ne_nil n, fun h => absurd (hmem _ h) (by decide),
    fun h => absurd (hmem _ h) (by decide), fun b hb => ?_⟩, fun b hb hhead => ?_⟩
  · have hdigit := hmem b (List.mem_of_mem_head? hb)
    rw [← Bool.not_eq_true]
    intro hspace
    simp only [Json.isSpace, Bool.or_eq_true, decide_eq_true_eq] at hspace
    rcases hspace with ((rfl | rfl) | rfl) | rfl <;> exact absurd hdigit (by decide)
  · have hdigit := hmem b (List.mem_of_mem_head? hhead)
    simp only [List.mem_cons, List.not_mem_nil, or_false] at hb
    rcases hb with rfl | rfl | rfl | rfl <;> exact absurd hdigit (by decide)

/-- So do the names of the members of an entry. -/
theorem isRegistryKey_text (m : MemberName) : IsRegistryKey m.text.bytes := by
  cases m <;> exact ⟨⟨by decide +kernel, by decide +kernel, by decide +kernel, by decide +kernel⟩,
    by decide +kernel⟩

/-- The members have different keys, and none of them is a number. -/
theorem MemberName.text_injective {m n : MemberName} (h : m.text.bytes = n.text.bytes) : m = n := by
  revert h
  cases m <;> cases n <;> decide

/-- No member of an entry is named like an error code. -/
theorem text_ne_digits (m : MemberName) (n : ℕ) : m.text.bytes ≠ Decimal.digits n := by
  intro h
  obtain ⟨b, hb⟩ : ∃ b ∈ m.text.bytes, Decimal.isdigit b = false := by
    cases m <;> exact ⟨_, List.mem_cons_self, by decide⟩
  rw [h] at hb
  rw [Decimal.isdigit_of_mem_digits hb.1] at hb
  exact absurd hb.2 (by decide)

/-- Different numbers have different digits, so the keys of a registry with different codes differ.
-/
theorem digits_injective {m n : ℕ} (h : Decimal.digits m = Decimal.digits n) : m = n := by
  rw [← Decimal.value_digits m, h, Decimal.value_digits]

/-- A member with another key is passed over, whatever its text is. -/
theorem keyFree_memberTokens {key : List UInt8} (hkey : IsRegistryKey key) (entry : RegistryEntry)
    {m : MemberName} (hne : m.text.bytes ≠ key) : KeyFree key (entry.memberTokens m) :=
  Json.keyFree_member hne ⟨(isRegistryKey_text m).quote_notMem,
    (isRegistryKey_text m).backslash_notMem⟩ (hkey.not_mark _ (by simp)) ⟨.inl (by simp), trivial⟩

/-- So are members with other keys, and the commas between them. -/
theorem keyFree_members {key : List UInt8} (hkey : IsRegistryKey key) (entry : RegistryEntry)
    {ms : List MemberName} (hne : ∀ m ∈ ms, m.text.bytes ≠ key) :
    KeyFree key ((ms.map entry.memberTokens).flatMap (· ++ [Token.comma])) := by
  refine Json.keyFree_flatMap (fun part hpart => ?_) (hkey.not_mark _ (by simp))
  obtain ⟨m, hm, rfl⟩ := List.mem_map.mp hpart
  refine ⟨keyFree_memberTokens hkey entry (hne m hm), fun t ht => ?_⟩
  cases ht
  exact (by decide : Json.quote ≠ Json.colon)

/-- The search of the program for a key that comes next. -/
theorem findKeyColon_found {key : List UInt8} (hkey : IsRegistryKey key) {pattern : CStr}
    (hpattern : pattern.bytes = Json.quote :: (key ++ [Json.quote])) {before after : List Token}
    (hfree : KeyFree key before) {body : List UInt8}
    (h : Renders (before ++ .string (Json.ofBytes key) :: Token.colon :: after) body) {p : CStr}
    {tail : List UInt8} (hp : p.bytes = body ++ tail) :
    ∃ rest q, Renders after rest ∧ findKeyColon pattern tail.length p = some q ∧
      q.bytes = Json.colon :: (rest ++ tail) := by
  have hraw := (Json.ofBytes_plain ⟨hkey.quote_notMem, hkey.backslash_notMem⟩).2
  have hnext : ∀ t ∈ (Token.string (Json.ofBytes key) :: Token.colon :: after).head?,
      t.first ≠ Json.colon ∧ key.head? ≠ some t.first := by
    intro t ht
    cases ht
    exact ⟨(by decide : Json.quote ≠ Json.colon),
      fun h => hkey.quote_notMem (List.mem_of_mem_head? h)⟩
  obtain ⟨rest, hrest, hpass⟩ := Json.findKey_pass hkey.toIsKey hfree hnext h tail
  obtain ⟨rest', hrest', hfound⟩ := Json.findKey_found hkey.toIsKey hraw hrest tail
  have hfind := findKeyColon_eq hpattern tail.length p
  rw [hp, hpass, hfound, Option.map_eq_some_iff] at hfind
  obtain ⟨q, hq, hbytes⟩ := hfind
  exact ⟨rest', q, hrest', hq, hbytes⟩

/-- The tokens of the members, cut at one of them. -/
theorem membersTokens_split (entry : RegistryEntry) (m : MemberName) :
    ∃ before after, KeyFree m.text.bytes before ∧ entry.membersTokens =
      before ++ .string (Json.ofBytes m.text.bytes) :: Token.colon ::
        .string (entry.value m).chars :: after := by
  have hnodup : entry.order.Nodup := entry.perm.nodup_iff.mpr (by decide)
  have hmem : m ∈ entry.order := entry.perm.mem_iff.mpr (by cases m <;> decide)
  obtain ⟨pre, post, horder⟩ := List.append_of_mem hmem
  rw [horder] at hnodup
  have hpre : ∀ n ∈ pre, n.text.bytes ≠ m.text.bytes := by
    intro n hn heq
    obtain rfl := MemberName.text_injective heq
    exact (List.nodup_append.mp hnodup).2.2 n hn n List.mem_cons_self rfl
  refine ⟨_, (post.map entry.memberTokens).flatMap (Token.comma :: ·),
    keyFree_members (isRegistryKey_text m) entry hpre, ?_⟩
  rw [RegistryEntry.membersTokens, horder, List.map_append, List.map_cons,
    Json.commaSeparated_split]
  rfl

/-- **A member of the object is read**, if it fits its buffer. -/
theorem rrJsonReadString_member (entry : RegistryEntry) (m : MemberName) {body : List UInt8}
    (h : Renders (leftBraceToken :: entry.membersTokens) body) {start : CStr} {tail : List UInt8}
    (hstart : start.bytes = body ++ tail) :
    rrJsonReadString start tail.length m.text m.size =
      if (entry.value m).decoded.length < m.size then some (entry.shown m) else none := by
  have hkey := isRegistryKey_text m
  obtain ⟨before, after, hfree, hsplit⟩ := membersTokens_split entry m
  have hpattern : (lit "\"" ++ m.text ++ lit "\"").bytes =
      Json.quote :: (m.text.bytes ++ [Json.quote]) := by
    cases m <;> decide
  have hsize : ¬ (m.size = 0 ∨ 96 ≤ (lit "\"" ++ m.text ++ lit "\"").len) := by
    cases m <;> decide
  rw [hsplit] at h
  have hfree' : KeyFree m.text.bytes (leftBraceToken :: before) :=
    ⟨hkey.not_mark _ (by simp), hfree⟩
  obtain ⟨rest, q, hrest, hfind, hq⟩ := findKeyColon_found hkey hpattern hfree' h hstart
  obtain ⟨rest', -, hskip⟩ := hrest.skipSpace tail
  have hvalue : (skipSpace tail.length (q.drop 1)).bytes =
      Json.quote :: (Json.rawBytes (entry.value m).chars ++ Json.quote :: (rest' ++ tail)) := by
    rw [skipSpace_bytes, CStr.drop_bytes, hq]
    exact hskip.trans (by simp [Token.bytes])
  have hfirst := CStr.first_eq_iff (s := skipSpace tail.length (q.drop 1)) (c := Json.quote)
    (by decide)
  unfold rrJsonReadString
  rw [if_neg hsize, hfind]
  dsimp only
  rw [if_pos ⟨by
    rw [CStr.len, hvalue]
    simp only [List.length_cons, List.length_append]
    omega, hfirst.mpr (by rw [hvalue]; rfl)⟩, CStr.drop_bytes, hvalue, List.drop_one, List.tail_cons,
    readChars_rawBytes _ (by simp) (by cases m <;> decide)]
  simp only [List.length_nil, Nat.zero_add, List.nil_append, RegistryText.decoded,
    List.length_map]
  split_ifs <;> rfl

end RrLauncher
