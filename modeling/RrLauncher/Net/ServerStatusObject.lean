/-
# The object of a server status

A key is looked up at its first place in quotes, whether that is in a name or in a value, and where
it is no name the lookup gives up.  So of a flat object the first string counts that looks like the
key (`statusString_object`), and a status is read if and only if for both keys this is a name with
the right value behind it (`status_object_read_iff`).
-/

import RrLauncher.Lib.Json.Quoted
import RrLauncher.Net.ServerStatusString

namespace RrLauncher

open CStr (lit)
open Json (StringChar Decodes Renders seenValue flatObject)

/-- The search for a string, on the bytes of the text. -/
theorem findString_eq (json : CStr) {key : CStr} (hkey : key.len + 2 < 64) :
    (rrServerStatusFindString json key).map CStr.bytes = Json.valueBehind key.bytes json.bytes := by
  have hpattern : (lit "\"" ++ key ++ lit "\"").fit 64 = lit "\"" ++ key ++ lit "\"" := by
    rw [CStr.fit_eq_iff (by decide), CStr.append_len, CStr.append_len]
    have hquote : (lit "\"").len = 1 := rfl
    omega
  have hbytes : (lit "\"" ++ key ++ lit "\"").bytes = Json.quoted key.bytes := rfl
  have hlen : (lit "\"" ++ key ++ lit "\"").len = (Json.quoted key.bytes).length :=
    congrArg List.length hbytes
  rw [rrServerStatusFindString, Json.valueBehind, Search.firstAt, ← hbytes, ← CStr.strstr_bytes,
    hpattern]
  cases json.strstr (lit "\"" ++ key ++ lit "\"") with
  | none => rfl
  | some p =>
    dsimp only
    rw [Option.map_some, Option.bind_some, Json.stringBehind, hlen]
    have hfirst : ∀ s : CStr, s.first = Json.colon ↔ s.bytes.head? = some Json.colon :=
      fun s => CStr.first_eq_iff (by decide)
    have hquote : ∀ s : CStr, s.first = Json.quote ↔ s.bytes.head? = some Json.quote :=
      fun s => CStr.first_eq_iff (by decide)
    simp only [ne_eq, hfirst, hquote, apply_ite (Option.map CStr.bytes), Option.map_none,
      Option.map_some, CStr.drop_bytes]
    rfl

/-- A key of a status. -/
structure IsStatusKey (key : CStr) : Prop where
  isKey : Json.IsKey key.bytes
  mark : ∀ t ∈ [Json.Token.colon, Json.Token.comma, .leftBrace, .rightBrace],
    key.bytes.head? ≠ some t.first
  short : key.len + 2 < 64

/-- The first name that the launcher looks up is a key that no other part of the object looks like.
-/
theorem isStatusKey_variant : IsStatusKey (lit "variant") :=
  ⟨⟨by decide +kernel, by decide +kernel, by decide +kernel, by decide +kernel⟩, by decide +kernel,
    by decide +kernel⟩

/-- The second name that the launcher looks up, `message`, is such a key as well. -/
theorem isStatusKey_message : IsStatusKey (lit "message") :=
  ⟨⟨by decide +kernel, by decide +kernel, by decide +kernel, by decide +kernel⟩, by decide +kernel,
    by decide +kernel⟩

/-- **What is found in an object**, whatever the whitespace in its text. -/
theorem statusString_object {json key : CStr} (hkey : IsStatusKey key)
    {members : List (List StringChar × List StringChar)}
    (hjson : Renders (flatObject members) json.bytes) :
    statusString json key = seenValue key.bytes members := by
  rw [← Json.valueBehind_object hkey.isKey hkey.mark hjson, ← findString_eq json hkey.short,
    Option.bind_map]
  rfl

/-- What a string is read as: a text in a buffer of some size, where nothing but escapes is left
out. -/
structure ReadAs (outSize : ℕ) (cs : List StringChar) (text : CStr) : Prop where
  escapes : AllEscapes (cs.drop (outSize - 1))
  shown : asciiSafeInPlace (statusBytes outSize cs) outSize = text

/-- **What is read for a key**: a text comes out of it exactly if there is a string for the key, it
is read to its end, and that text is what is read of it. -/
theorem readString_iff {json key : CStr} {out : List UInt8} {outSize : ℕ} (hsize : 0 < outSize)
    (hout : outSize ≤ out.length) (text : CStr) :
    (rrServerStatusReadString json key out outSize).2 = true ∧
        CStr.ofBuffer (rrServerStatusReadString json key out outSize).1 = text ↔
      ∃ cs, statusString json key = some cs ∧ ReadAs outSize cs text := by
  constructor
  · rintro ⟨htrue, htext⟩
    obtain ⟨cs, hcs⟩ := statusString_of_read htrue
    have hescapes : AllEscapes (cs.drop (outSize - 1)) := by
      by_contra hplain
      rw [readString_plain hsize hcs hplain] at htrue
      cases htrue
    refine ⟨cs, hcs, hescapes, ?_⟩
    rw [← (readString_escapes hsize hout hcs hescapes).2.1, htext]
  · rintro ⟨cs, hcs, hescapes, hshown⟩
    obtain ⟨htrue, hbuffer, -⟩ := readString_escapes hsize hout hcs hescapes
    exact ⟨htrue, hbuffer.trans hshown⟩

/-- A string that fits and whose escapes are understood is read as it is. -/
theorem readAs_understood {outSize : ℕ} {cs : List StringChar} {value : List UInt8}
    (hvalue : Decodes cs value) (hcs : Understood cs) (hlen : value.length < outSize) :
    ReadAs outSize cs (asciiSafeInPlace value outSize) := by
  have hbytes := decodes_understood hvalue hcs
  have hlength : value.length = cs.length := by rw [hbytes, List.length_map]
  refine ⟨fun c hc => ?_, ?_⟩
  · rw [List.drop_of_length_le (by omega)] at hc
    cases hc
  · rw [statusBytes, ← hbytes, List.take_of_length_le (by omega)]

/-! ### The status -/

/-- There is one member with a name, and it has this value. -/
def OnlyMember (name : CStr) (value : List StringChar)
    (members : List (List StringChar × List StringChar)) : Prop :=
  ∃ before written after, members = before ++ (written, value) :: after ∧
    Decodes written name.bytes ∧ ∀ other ∈ before ++ after, ¬ Decodes other.1 name.bytes

/-- The object of a status: what it says is in its members `variant` and `message`. -/
structure StatusObject (members : List (List StringChar × List StringChar))
    (variant : RrServerStatusVariant) (text : List UInt8) : Prop where
  variant : ∃ name value, (name, variant) ∈ knownVariants ∧
    OnlyMember (lit "variant") value members ∧ Decodes value name.bytes
  message : ∃ value, OnlyMember (lit "message") value members ∧ Understood value ∧
    Decodes value text
  short : text.length < 256

/-- The status is read as it is. -/
structure StatusRead (json : CStr) (stack : List UInt8) (variant : RrServerStatusVariant)
    (text : List UInt8) : Prop where
  returned : (rrServerStatusParse json stack).2 = true
  variant : (rrServerStatusParse json stack).1.variant = variant
  message : CStr.ofBuffer (rrServerStatusParse json stack).1.message = asciiSafeInPlace text 256

/-- The variants with a name are recognised by exactly that name. Everything else is the unknown
one. -/
theorem parseVariant_iff {name : CStr} {variant : RrServerStatusVariant}
    (hknown : variant ≠ .unknown) :
    rrServerStatusParseVariant name = variant ↔ (name, variant) ∈ knownVariants := by
  have hall : ∀ p ∈ knownVariants, rrServerStatusParseVariant p.1 = p.2 :=
    List.forall_iff_forall_mem.mp (by decide +kernel)
  refine ⟨fun h => ?_, fun h => hall _ h⟩
  rw [rrServerStatusParseVariant] at h
  cases hlookup : knownVariants.lookup name with
  | none =>
    rw [hlookup] at h
    exact absurd h.symm hknown
  | some variant' =>
    rw [hlookup] at h
    obtain rfl : variant' = variant := h
    obtain ⟨before, after, hsplit, -⟩ := List.lookup_eq_some_iff.mp hlookup
    rw [hsplit]
    exact List.mem_append_right _ List.mem_cons_self

/-- A status is read if both strings are, the variant as one that has a name. -/
theorem statusRead_iff {json : CStr} {stack : List UInt8} {variant : RrServerStatusVariant}
    (hknown : variant ≠ .unknown) (text : List UInt8) :
    StatusRead json stack variant text ↔
      ((rrServerStatusReadString json (lit "variant") stack 32).2 = true ∧
        (CStr.ofBuffer (rrServerStatusReadString json (lit "variant") stack 32).1, variant) ∈
          knownVariants) ∧
      (rrServerStatusReadString json (lit "message") (List.replicate 256 0) 256).2 = true ∧
        CStr.ofBuffer (rrServerStatusReadString json (lit "message") (List.replicate 256 0) 256).1 =
          asciiSafeInPlace text 256 := by
  rw [← parseVariant_iff hknown]
  constructor
  · rintro ⟨hreturned, hvariant, hmessage⟩
    unfold rrServerStatusParse at hreturned hvariant hmessage
    dsimp only at hreturned hvariant hmessage
    split_ifs at hreturned hvariant hmessage with hread₁ hread₂
    exact ⟨⟨Bool.not_eq_false _ ▸ hread₁, hvariant⟩, Bool.not_eq_false _ ▸ hread₂, hmessage⟩
  · rintro ⟨⟨hread₁, hvariant⟩, hread₂, hmessage⟩
    have hparse : rrServerStatusParse json stack =
        (⟨variant, (rrServerStatusReadString json (lit "message") (List.replicate 256 0) 256).1⟩,
          true) := by
      unfold rrServerStatusParse
      dsimp only
      rw [if_neg (by rw [hread₁]; decide), if_neg (by rw [hread₂]; decide), hvariant,
        decide_eq_true hknown]
    exact ⟨by rw [hparse], by rw [hparse], by rw [hparse, hmessage]⟩

/-- **An object is read exactly if** for `variant` and for `message` the first of its strings that
looks like the key is a name, and the value behind it is read as the variant and as the message. -/
theorem status_object_read_iff {members : List (List StringChar × List StringChar)}
    {variant : RrServerStatusVariant} {text : List UInt8}
    (hobject : StatusObject members variant text) {json : CStr}
    (hjson : Renders (flatObject members) json.bytes) {stack : List UInt8}
    (hstack : stack.length = 32) :
    StatusRead json stack variant text ↔
      (∃ value name, seenValue (lit "variant").bytes members = some value ∧
        (name, variant) ∈ knownVariants ∧ ReadAs 32 value name) ∧
      ∃ value, seenValue (lit "message").bytes members = some value ∧
        ReadAs 256 value (asciiSafeInPlace text 256) := by
  have hall : ∀ p ∈ knownVariants, p.2 ≠ .unknown := List.forall_iff_forall_mem.mp (by decide)
  obtain ⟨name, -, hname, -⟩ := hobject.variant
  rw [statusRead_iff (hall _ hname), readString_iff (by decide) (by rw [List.length_replicate]),
    statusString_object isStatusKey_message hjson]
  refine and_congr_left fun _ => ?_
  have hread : ∀ name, (rrServerStatusReadString json (lit "variant") stack 32).2 = true ∧
      CStr.ofBuffer (rrServerStatusReadString json (lit "variant") stack 32).1 = name ↔
        ∃ value, seenValue (lit "variant").bytes members = some value ∧ ReadAs 32 value name := by
    rw [← statusString_object isStatusKey_variant hjson]
    exact readString_iff (by decide) (Nat.le_of_eq hstack.symm)
  constructor
  · rintro ⟨htrue, hmem⟩
    obtain ⟨value, hvalue, hreadAs⟩ := (hread _).mp ⟨htrue, rfl⟩
    exact ⟨value, _, hvalue, hmem, hreadAs⟩
  · rintro ⟨value, name, hvalue, hmem, hreadAs⟩
    obtain ⟨htrue, rfl⟩ := (hread name).mpr ⟨value, hvalue, hreadAs⟩
    exact ⟨htrue, hmem⟩

/-- Names without escapes are the same only if they are written in the same way. -/
theorem onlyMember_ofBytes {name : CStr} (hname : Json.quote ∉ name.bytes ∧ Json.backslash ∉ name.bytes)
    (before after : List (List StringChar × List StringChar)) (value : List StringChar)
    (hother : ∀ other ∈ before ++ after, ∃ bytes, other.1 = Json.ofBytes bytes ∧
      (Json.quote ∉ bytes ∧ Json.backslash ∉ bytes) ∧ bytes ≠ name.bytes) :
    OnlyMember name value (before ++ (Json.ofBytes name.bytes, value) :: after) := by
  refine ⟨before, _, after, rfl, (Json.decodes_ofBytes_iff hname).mpr rfl, fun other hmem h => ?_⟩
  obtain ⟨bytes, hbytes, hplain, hne⟩ := hother other hmem
  rw [hbytes, Json.decodes_ofBytes_iff hplain] at h
  exact hne h.symm

/-- A string without escapes is understood, since only escapes can be read as something else than
they stand for. -/
theorem understood_ofBytes {bytes : List UInt8}
    (hbytes : Json.quote ∉ bytes ∧ Json.backslash ∉ bytes) : Understood (Json.ofBytes bytes) := by
  intro e he
  obtain ⟨b, hb, hc⟩ := (Json.ofBytes_plain hbytes).1 _ he
  cases hc

/-- The object `{"message":"\n","variant":"info"}`, with an escaped line break and the members in
another order: both are read. -/
theorem status_object_read_iff_newline :
    StatusRead (lit "\x7b\"message\":\"\\n\",\"variant\":\"info\"\x7d") (List.replicate 32 0)
      .info [10] := by
  let members : List (List StringChar × List StringChar) :=
    [(Json.ofBytes (lit "message").bytes, [.escape 110]),
      (Json.ofBytes (lit "variant").bytes, Json.ofBytes (lit "info").bytes)]
  have hplain : Json.quote ∉ (lit "info").bytes ∧ Json.backslash ∉ (lit "info").bytes := by
    decide +kernel
  have hinfo : Decodes (Json.ofBytes (lit "info").bytes) (lit "info").bytes :=
    (Json.decodes_ofBytes_iff hplain).mpr rfl
  have hnewline : Decodes [.escape 110] [10] := .cons (.simple (by decide)) .nil
  have hunderstood : Understood [.escape 110] := fun e he => by
    cases List.mem_singleton.mp he
    decide
  have hknown : (lit "info", RrServerStatusVariant.info) ∈ knownVariants := by decide +kernel
  have hobject : StatusObject members .info [10] := by
    refine ⟨⟨_, _, hknown, ?_, hinfo⟩, ⟨_, ?_, hunderstood, hnewline⟩, by decide⟩
    · exact onlyMember_ofBytes (by decide +kernel) [_] [] _
        (List.forall_mem_singleton.mpr ⟨_, rfl, by decide +kernel, by decide +kernel⟩)
    · exact onlyMember_ofBytes (by decide +kernel) [] [_] _
        (List.forall_mem_singleton.mpr ⟨_, rfl, by decide +kernel, by decide +kernel⟩)
  have hjson : Renders (flatObject members) ((flatObject members).flatMap Json.Token.bytes) :=
    Renders.compact _
  have hvariant : seenValue (lit "variant").bytes members =
      some (Json.ofBytes (lit "info").bytes) := by
    show seenValue _ [_, _] = _
    rw [seenValue, if_neg (by decide +kernel), if_neg (by decide +kernel), seenValue,
      if_pos (by decide +kernel)]
  have hmessage : seenValue (lit "message").bytes members = some [.escape 110] := by
    show seenValue _ [_, _] = _
    rw [seenValue, if_pos (by decide +kernel)]
  have hshown : asciiSafeInPlace (lit "info").bytes 32 = lit "info" := by decide +kernel
  have hread : ReadAs 32 (Json.ofBytes (lit "info").bytes)
      (asciiSafeInPlace (lit "info").bytes 32) :=
    readAs_understood hinfo (understood_ofBytes hplain) (by decide +kernel)
  rw [hshown] at hread
  exact (status_object_read_iff hobject hjson (List.length_replicate ..)).mpr
    ⟨⟨_, _, hvariant, hknown, hread⟩, _, hmessage,
      readAs_understood hnewline hunderstood (by decide)⟩

/-- **A value is taken for the key**: `{"a":"message","variant":"none","message":"x"}` is not
read. -/
theorem message_as_value :
    let members := [(Json.ofBytes (lit "a").bytes, Json.ofBytes (lit "message").bytes),
      (Json.ofBytes (lit "variant").bytes, Json.ofBytes (lit "none").bytes),
      (Json.ofBytes (lit "message").bytes, Json.ofBytes (lit "x").bytes)]
    let json := lit
      "\x7b\"a\":\"message\",\"variant\":\"none\",\"message\":\"x\"\x7d"
    StatusObject members .none (lit "x").bytes ∧ Renders (flatObject members) json.bytes ∧
      ¬ StatusRead json (List.replicate 32 0) .none (lit "x").bytes := by
  intro members json
  have hplain : Json.quote ∉ (lit "x").bytes ∧ Json.backslash ∉ (lit "x").bytes := by
    decide +kernel
  have hx : Decodes (Json.ofBytes (lit "x").bytes) (lit "x").bytes :=
    (Json.decodes_ofBytes_iff hplain).mpr rfl
  have hnone : Decodes (Json.ofBytes (lit "none").bytes) (lit "none").bytes :=
    (Json.decodes_ofBytes_iff (by decide +kernel)).mpr rfl
  have hknown : (lit "none", RrServerStatusVariant.none) ∈ knownVariants := by decide +kernel
  have hbytes : (flatObject members).flatMap Json.Token.bytes = json.bytes := by decide +kernel
  refine ⟨⟨⟨_, _, hknown, ?_, hnone⟩, ⟨_, ?_, understood_ofBytes hplain, hx⟩, by decide +kernel⟩,
    hbytes ▸ Renders.compact _, fun h => absurd h.returned (by decide +kernel)⟩
  · exact onlyMember_ofBytes (by decide +kernel) [_] [_] _ (List.forall_mem_cons.mpr
      ⟨⟨_, rfl, by decide +kernel, by decide +kernel⟩,
        List.forall_mem_singleton.mpr ⟨_, rfl, by decide +kernel, by decide +kernel⟩⟩)
  · exact onlyMember_ofBytes (by decide +kernel) [_, _] [] _ (List.forall_mem_cons.mpr
      ⟨⟨_, rfl, by decide +kernel, by decide +kernel⟩,
        List.forall_mem_singleton.mpr ⟨_, rfl, by decide +kernel, by decide +kernel⟩⟩)

end RrLauncher
