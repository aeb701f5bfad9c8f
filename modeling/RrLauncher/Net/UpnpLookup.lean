/-
# Looking up an error code

However a registry is written, an error code is found exactly where it is a key
of the registry, and what is read are the three strings of its entry
(`upnp_lookup_registry`): no other entry and no other member is taken for what is
searched.
-/

import RrLauncher.Net.UpnpRegistry

namespace RrLauncher

open CStr (lit)
open Json (StringChar Token Renders IsKey KeyFree)

/-! ### One entry -/

/-- No member of an entry has a brace among its tokens, since the values are strings. -/
theorem membersTokens_flat (entry : RegistryEntry) :
    ∀ t ∈ entry.membersTokens, t.first ≠ leftBrace ∧ t.first ≠ rightBrace := by
  intro t ht
  rcases Json.mem_commaSeparated ht with rfl | ⟨part, hpart, ht⟩
  · decide
  · obtain ⟨m, -, rfl⟩ := List.mem_map.mp hpart
    simp only [RegistryEntry.memberTokens, List.mem_cons, List.not_mem_nil, or_false] at ht
    have hquote : Json.quote ≠ leftBrace ∧ Json.quote ≠ rightBrace := by decide
    rcases ht with rfl | rfl | rfl
    · exact hquote
    · decide
    · exact hquote

/-- An entry with another code is passed over, as none of its strings is the code with a colon
behind it. -/
theorem keyFree_tokens {n : ℕ} {entry : RegistryEntry} (hne : entry.code ≠ n) :
    KeyFree (Decimal.digits n) entry.tokens := by
  have hkey := isRegistryKey_digits n
  have hmembers : KeyFree (Decimal.digits n) entry.membersTokens := by
    refine Json.keyFree_commaSeparated (fun part hpart => ?_) (hkey.not_mark _ (by simp))
    obtain ⟨m, -, rfl⟩ := List.mem_map.mp hpart
    refine ⟨keyFree_memberTokens hkey entry (text_ne_digits m n), fun t ht => ?_⟩
    cases ht
    exact (by decide : Json.quote ≠ Json.colon)
  have hobject : KeyFree (Decimal.digits n)
      (leftBraceToken :: (entry.membersTokens ++ [rightBraceToken])) := by
    refine ⟨hkey.not_mark _ (by simp), hmembers.append ⟨hkey.not_mark _ (by simp), trivial⟩ ?_⟩
    intro t ht
    cases ht
    decide
  have hother := isRegistryKey_digits entry.code
  exact Json.keyFree_member (fun h => hne (digits_injective h))
    ⟨hother.quote_notMem, hother.backslash_notMem⟩ (hkey.not_mark _ (by simp)) hobject

/-- The tokens of an entry do not begin with a colon, so nothing in front of them becomes a key. -/
theorem tokens_head (entry : RegistryEntry) : ∀ t ∈ entry.tokens.head?, t.first ≠ Json.colon := by
  intro t ht
  cases ht
  exact (by decide : Json.quote ≠ Json.colon)

/-- A registry without the code is passed over as a whole, so nothing is found. -/
theorem keyFree_registry {n : ℕ} {entries : List RegistryEntry}
    (hne : ∀ entry ∈ entries, entry.code ≠ n) :
    KeyFree (Decimal.digits n) (registryTokens entries) := by
  have hkey := isRegistryKey_digits n
  have hentries : KeyFree (Decimal.digits n)
      (Json.commaSeparated (entries.map RegistryEntry.tokens)) := by
    refine Json.keyFree_commaSeparated (fun part hpart => ?_) (hkey.not_mark _ (by simp))
    obtain ⟨entry, hentry, rfl⟩ := List.mem_map.mp hpart
    exact ⟨keyFree_tokens (hne entry hentry), tokens_head entry⟩
  refine ⟨hkey.not_mark _ (by simp), hentries.append ⟨hkey.not_mark _ (by simp), trivial⟩ ?_⟩
  intro t ht
  cases ht
  decide

/-- The tokens of the registry, cut at an entry: in front of its code nothing is found that looks
like it. -/
theorem registryTokens_split {before after : List RegistryEntry} {entry : RegistryEntry}
    (hbefore : ∀ other ∈ before, other.code ≠ entry.code) :
    ∃ ts us, KeyFree (Decimal.digits entry.code) ts ∧
      registryTokens (before ++ entry :: after) =
        ts ++ .string (Json.ofBytes (Decimal.digits entry.code)) :: Token.colon ::
          leftBraceToken :: (entry.membersTokens ++ rightBraceToken :: us) := by
  have hkey := isRegistryKey_digits entry.code
  refine ⟨leftBraceToken :: (before.map RegistryEntry.tokens).flatMap (· ++ [Token.comma]),
    (after.map RegistryEntry.tokens).flatMap (Token.comma :: ·) ++ [rightBraceToken],
    ⟨hkey.not_mark _ (by simp), ?_⟩, ?_⟩
  · refine Json.keyFree_flatMap (fun part hpart => ?_) (hkey.not_mark _ (by simp))
    obtain ⟨other, hother, rfl⟩ := List.mem_map.mp hpart
    exact ⟨keyFree_tokens (hbefore other hother), tokens_head other⟩
  · rw [registryTokens, List.map_append, List.map_cons, Json.commaSeparated_split]
    simp only [RegistryEntry.tokens, List.append_assoc, List.cons_append, List.nil_append]

/-- **The texts of an object**, if they fit into their buffers, are those of the members of its
entry, in whatever order these are written. -/
theorem readErrorInfo_eq (entry : RegistryEntry) (code : Decimal.CInt) {body : List UInt8}
    (h : Renders (leftBraceToken :: entry.membersTokens) body) {start : CStr} {tail : List UInt8}
    (hstart : start.bytes = body ++ tail) :
    (entry.Fits → readErrorInfo code start tail.length = some (entry.info code)) ∧
      (¬ entry.Fits → readErrorInfo code start tail.length = none) := by
  have hname := rrJsonReadString_member entry .name h hstart
  have hdescription := rrJsonReadString_member entry .description h hstart
  have hsolution := rrJsonReadString_member entry .solution h hstart
  have hfits : entry.Fits ↔ (entry.value .name).decoded.length < 64 ∧
      (entry.value .description).decoded.length < 256 ∧
      (entry.value .solution).decoded.length < 256 := by
    refine ⟨fun h => ⟨h .name, h .description, h .solution⟩, fun h m => ?_⟩
    cases m with
    | name => exact h.1
    | description => exact h.2.1
    | solution => exact h.2.2
  simp only [MemberName.text, MemberName.size] at hname hdescription hsolution
  unfold readErrorInfo
  rw [hname, hdescription, hsolution, hfits]
  by_cases h₁ : (entry.value .name).decoded.length < 64
  · by_cases h₂ : (entry.value .description).decoded.length < 256
    · by_cases h₃ : (entry.value .solution).decoded.length < 256
      · simp [h₁, h₂, h₃, RegistryEntry.info]
      · simp [h₁, h₂, h₃]
    · simp [h₁, h₂]
  · simp [h₁]

/-- **The object of an entry ends where its own brace is.** -/
theorem objectEnd_members (entry : RegistryEntry) {s : List UInt8}
    (h : Renders entry.membersTokens s) (rest tail : List UInt8) {start : CStr}
    (hstart : start.bytes = leftBrace :: s ++ rightBrace :: (rest ++ tail)) :
    rrJsonFindObjectEnd start tail.length = some (rightBrace :: (rest ++ tail)) := by
  unfold rrJsonFindObjectEnd
  rw [hstart, List.cons_append, objectEndLoop_cons,
    if_neg (by simp only [List.length_cons, List.length_append]; omega), if_neg (by decide),
    if_neg (by decide), if_pos rfl, objectEndLoop_flat (membersTokens_flat entry) h
      (by simp only [List.length_cons, List.length_append]; omega),
    objectEndLoop_cons, if_neg (by simp only [List.length_cons, List.length_append]; omega),
    if_neg (by decide), if_neg (by decide), if_neg (by decide), if_pos rfl, if_pos (by decide)]

/-- What the lookup does once it has found the colon behind the code. -/
theorem lookup_object (entry : RegistryEntry) {us : List Token} {s : List UInt8}
    (h : Renders (leftBraceToken :: (entry.membersTokens ++ rightBraceToken :: us)) s)
    (tail : List UInt8) {after : CStr} (hafter : after.bytes = Json.colon :: (s ++ tail)) :
    ∃ (objectStart : CStr) (body rest : List UInt8),
      after.strchr leftBrace = some objectStart ∧
      Renders (leftBraceToken :: entry.membersTokens) body ∧
      objectStart.bytes = body ++ rightBrace :: (rest ++ tail) ∧
      rrJsonFindObjectEnd objectStart tail.length = some (rightBrace :: (rest ++ tail)) := by
  cases h with
  | cons hws h =>
    rename_i ws s
    obtain ⟨s₁, s₂, rfl, hmembers, hend⟩ := h.of_append
    cases hend with
    | cons hws' hend =>
      rename_i ws' rest
      have hbody : Renders entry.membersTokens (s₁ ++ ws') := by
        have happend := hmembers.append (.nil hws')
        rwa [List.append_nil] at happend
      have hbytes : after.bytes = (Json.colon :: ws) ++ leftBrace ::
          (s₁ ++ ws' ++ rightBrace :: (rest ++ tail)) := by
        rw [hafter]
        simp [leftBraceToken, rightBraceToken, Token.bytes]
      have hbrace : leftBrace ∉ Json.colon :: ws := by
        rw [List.mem_cons, not_or]
        exact ⟨by decide, fun hmem => absurd (hws _ hmem) (by decide)⟩
      obtain ⟨objectStart, hchr, hstart⟩ := CStr.strchr_append hbrace hbytes
      exact ⟨objectStart, leftBrace :: (s₁ ++ ws'), rest, hchr,
        @Renders.cons [] _ _ _ (by simp) hbody, hstart,
        objectEnd_members entry hbody rest tail hstart⟩

/-! ### The lookup -/

/-- The pattern for an error code, as it is printed: its decimal digits between two quotes. -/
theorem codeKey_bytes {code : Decimal.CInt} {n : ℕ} (hn : (n : ℤ) = code.val) :
    (lit "\"" ++ signedText code ++ lit "\"").bytes =
      Json.quote :: (Decimal.digits n ++ [Json.quote]) := by
  have hquote : (lit "\"").bytes = [Json.quote] := by decide
  show (lit "\"").bytes ++ Decimal.decimal code.val ++ (lit "\"").bytes = _
  rw [hquote, ← hn]
  rfl

/-- The code of an entry is looked up, with what the entry says of it, whatever stands behind the
registry in memory. -/
theorem lookup_entry {before after : List RegistryEntry} {entry : RegistryEntry}
    (hbefore : ∀ other ∈ before, other.code ≠ entry.code) {text : CStr}
    (htext : Renders (registryTokens (before ++ entry :: after)) text.bytes) (behind : CStr)
    {code : Decimal.CInt} (hcode : 0 < code.val) (hentry : (entry.code : ℤ) = code.val) :
    (entry.Fits → rrUpnpErrorLookup (text ++ behind) behind.len code = (true, entry.info code)) ∧
      (¬ entry.Fits →
        rrUpnpErrorLookup (text ++ behind) behind.len code = (false, unknownError code)) := by
  obtain ⟨ts, us, hfree, hsplit⟩ := @registryTokens_split before after entry hbefore
  rw [hsplit] at htext
  obtain ⟨s, colon, hs, hfind, hcolon⟩ := findKeyColon_found (isRegistryKey_digits entry.code)
    (codeKey_bytes hentry) hfree htext (p := text ++ behind) rfl
  obtain ⟨objectStart, body, rest, hchr, hbody, hstart, hend⟩ :=
    lookup_object entry hs behind.bytes hcolon
  obtain ⟨hfits, hnot⟩ := readErrorInfo_eq entry code hbody hstart
  have hinside : ¬ objectStart.len ≤ behind.bytes.length := by
    rw [CStr.len, hstart]
    simp only [List.length_append, List.length_cons]
    omega
  unfold rrUpnpErrorLookup
  rw [if_neg (by omega), CStr.len]
  dsimp only
  rw [hfind]
  dsimp only
  rw [hchr]
  dsimp only
  rw [if_neg hinside, hend]
  dsimp only
  refine ⟨fun h => ?_, fun h => ?_⟩
  · rw [hfits h]
  · rw [hnot h]

/-- A code that is no key of the registry is not found, even if it stands in one of the texts. -/
theorem lookup_missing {entries : List RegistryEntry} {text : CStr}
    (htext : Renders (registryTokens entries) text.bytes) (behind : CStr) {code : Decimal.CInt}
    (hcode : 0 < code.val) (hmissing : ∀ entry ∈ entries, (entry.code : ℤ) ≠ code.val) :
    rrUpnpErrorLookup (text ++ behind) behind.len code = (false, unknownError code) := by
  obtain ⟨n, hn⟩ : ∃ n : ℕ, (n : ℤ) = code.val := ⟨code.val.toNat, by omega⟩
  have hfree : KeyFree (Decimal.digits n) (registryTokens entries) :=
    keyFree_registry fun entry hentry h => hmissing entry hentry (by rw [h, hn])
  have hfind := findKeyColon_eq (codeKey_bytes hn) behind.len (text ++ behind)
  have hnone := Json.findKey_none (isRegistryKey_digits n).toIsKey hfree htext behind.bytes
  rw [show (text ++ behind).bytes = text.bytes ++ behind.bytes from rfl, CStr.len, hnone,
    Option.map_eq_none_iff] at hfind
  unfold rrUpnpErrorLookup
  rw [if_neg (by omega), CStr.len]
  dsimp only
  rw [hfind]

/-- **An error code is found exactly where it is a key of the registry**, and what is shown
are the strings of its entry, if they fit: in every way to write the registry, with anything
behind it in memory. -/
theorem upnp_lookup_registry {entries : List RegistryEntry}
    (hdistinct : (entries.map RegistryEntry.code).Nodup) {text : CStr}
    (htext : Renders (registryTokens entries) text.bytes) (behind : CStr) {code : Decimal.CInt}
    (hcode : 0 < code.val) :
    let lookup := rrUpnpErrorLookup (text ++ behind) behind.len code
    (lookup.1 = true ↔ ∃ entry ∈ entries, (entry.code : ℤ) = code.val ∧ entry.Fits) ∧
      (∀ entry ∈ entries, (entry.code : ℤ) = code.val → entry.Fits →
        lookup = (true, entry.info code)) ∧
      (lookup.1 = false → lookup = (false, unknownError code)) := by
  intro lookup
  have hentry : ∀ entry ∈ entries, (entry.code : ℤ) = code.val →
      (entry.Fits → lookup = (true, entry.info code)) ∧
        (¬ entry.Fits → lookup = (false, unknownError code)) := by
    intro entry hmem heq
    obtain ⟨before, after, rfl⟩ := List.append_of_mem hmem
    refine lookup_entry (fun other hother h => ?_) htext behind hcode heq
    rw [List.map_append, List.map_cons, List.nodup_append] at hdistinct
    exact hdistinct.2.2 _ (List.mem_map_of_mem hother) _ List.mem_cons_self h
  by_cases hex : ∃ entry ∈ entries, (entry.code : ℤ) = code.val
  · obtain ⟨entry, hmem, heq⟩ := hex
    obtain ⟨hfits, hnot⟩ := hentry entry hmem heq
    by_cases h : entry.Fits
    · have hlookup := hfits h
      refine ⟨⟨fun _ => ⟨entry, hmem, heq, h⟩, fun _ => by rw [hlookup]⟩,
        fun other hother hcode' hother' => (hentry other hother hcode').1 hother', fun hfalse => ?_⟩
      rw [hlookup] at hfalse
      cases hfalse
    · have hlookup := hnot h
      refine ⟨⟨fun htrue => ?_, ?_⟩,
        fun other hother hcode' hother' => (hentry other hother hcode').1 hother', fun _ => hlookup⟩
      · rw [hlookup] at htrue
        cases htrue
      · rintro ⟨other, hother, hcode', hother'⟩
        rw [(hentry other hother hcode').1 hother']
  · have hlookup : lookup = (false, unknownError code) :=
      lookup_missing htext behind hcode fun entry hmem h => hex ⟨entry, hmem, h⟩
    refine ⟨⟨fun htrue => ?_, ?_⟩, fun entry hmem heq => absurd ⟨entry, hmem, heq⟩ hex,
      fun _ => hlookup⟩
    · rw [hlookup] at htrue
      cases htrue
    · rintro ⟨entry, hmem, heq, -⟩
      exact absurd ⟨entry, hmem, heq⟩ hex

/-- A text of the registry in which only quotes and backslashes are escaped. -/
def escapedText (text : CStr) : RegistryText where
  chars := Json.ofBytes text.bytes
  escapes b hb := by
    rcases Json.escape_mem_ofBytes hb with rfl | rfl
    · decide
    · decide

/-- An entry whose strings are the keys of its members. -/
def conflictEntry : RegistryEntry where
  code := 718
  value m := escapedText m.text
  order := [.solution, .name, .description]
  perm := by decide

/-- An entry behind another code whose strings all have the code 718: as the whole string, with
escaped quotes and a colon behind it, and without quotes. -/
def neighbourEntry : RegistryEntry where
  code := 501
  value
    | .name => escapedText (lit "718")
    | .description => escapedText (lit "\"718\":\x7b")
    | .solution => escapedText (lit "see 718:")
  order := [.description, .name, .solution]
  perm := by decide

/-- The registry of both, with the neighbour first. -/
def conflictRegistry : CStr :=
  ⟨(registryTokens [neighbourEntry, conflictEntry]).flatMap Token.bytes, by decide⟩

/-- Neither the strings of the neighbour nor the `718` behind the registry are taken for the code. -/
theorem upnp_lookup_registry_conflict :
    rrUpnpErrorLookup (conflictRegistry ++ lit "718") 3 ⟨718, by decide⟩ =
      (true, conflictEntry.info ⟨718, by decide⟩) := by
  have hdistinct : ([neighbourEntry, conflictEntry].map RegistryEntry.code).Nodup := by decide
  have h := @upnp_lookup_registry _ hdistinct conflictRegistry (Renders.compact _) (lit "718")
    ⟨718, by decide⟩ (by decide)
  have hmem : conflictEntry ∈ [neighbourEntry, conflictEntry] := by simp
  exact h.2.1 conflictEntry hmem rfl fun m => by cases m <;> decide

end RrLauncher
