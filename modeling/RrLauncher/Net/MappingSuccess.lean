/-
# When a port mapping counts as done

The response to a request is taken for a success if one of two texts occurs in it, wherever
that is.  With the status 500 they can stand in a header or in the body, and with the status
200 they can be missing.  And an error code is read behind the first tag only.  So what is
reported is right exactly if the texts and the tag are where they are expected
(`port_mapping_reported_iff`).
-/

import RrLauncher.Net.PortMapping

namespace RrLauncher

open CStr (lit)

/-! ### Responses -/

/-- A response: a version and a status code on the first line, and anything behind them. -/
structure SoapResponse where
  version : CStr
  code : CStr
  behind : CStr
  versionChars : ∀ c ∈ version.bytes, c ≠ 32 ∧ c ≠ 13 ∧ c ≠ 10
  codeDigits : ∀ c ∈ code.bytes, Decimal.isdigit c = true
  codeLen : code.len = 3
  codeEnds : ∀ c ∈ behind.bytes.head?, c = 32 ∨ c = 13 ∨ c = 10

/-- The text of a response. -/
def SoapResponse.render (r : SoapResponse) : CStr :=
  r.version ++ (lit " " ++ (r.code ++ r.behind))

/-- The texts that are searched for occur in a text. -/
def Mentions200 (text : CStr) : Prop :=
  (lit " 200 ").bytes <:+: text.bytes ∨ (lit "HTTP/1.1 200").bytes <:+: text.bytes

/-- The status shows: with the status 200 one of the texts is found, on the first line or
elsewhere, and with another status they do not occur behind it. -/
def StatusShows (r : SoapResponse) : Prop :=
  if r.code = lit "200" then
    r.behind.first = 32 ∨ (lit "HTTP/1.1").bytes <:+ r.version.bytes ∨ Mentions200 r.behind
  else ¬ Mentions200 r.behind

/-- There is an element with an error code: a number with blanks around it. -/
structure IsErrorCode (text : List UInt8) (code : ℕ) : Prop where
  small : code ≤ 9999
  number : ∃ blanks digits blanks', text = blanks ++ (digits ++ blanks') ∧
    (∀ c ∈ blanks, Decimal.isspace c = true) ∧ (∀ c ∈ blanks', Decimal.isspace c = true) ∧
    digits ≠ [] ∧ (∀ c ∈ digits, Decimal.isdigit c = true) ∧ Decimal.value digits = code

/-- A response contains an element with an error code. -/
def HasErrorCode (response : CStr) (code : ℕ) : Prop :=
  ∃ before text after, IsErrorCode text code ∧
    response.bytes = before ++ ((lit "<errorCode>").bytes ++
      (text ++ ((lit "</errorCode>").bytes ++ after)))

/-- The number behind the first tag of an error code; zero where it is out of range. -/
def firstErrorNumber (response : CStr) : ℤ :=
  match response.strstr (lit "<errorCode>") with
  | none => 0
  | some tag =>
    let n := (Decimal.strtol (tag.drop (lit "<errorCode>").len).bytes).val
    if 0 ≤ n ∧ n ≤ 9999 then n else 0

/-- The error code shows: the number behind the first tag is that of each element. -/
def ErrorShows (r : SoapResponse) : Prop :=
  r.code = lit "500" → ∀ code, HasErrorCode r.render code → firstErrorNumber r.render = code

/-- What is reported of a response is right: success is the status 200, and the last error has
the code that is in a fault. -/
structure Reported (r : SoapResponse) (result : MappingResult) : Prop where
  success : result.returned = true ↔ r.code = lit "200"
  error : r.code = lit "500" → ∀ code, HasErrorCode r.render code →
    result.lastError.code.val = code

/-! ### The status -/

section Status

variable (r : SoapResponse)

/-- A text that does not start with a digit does not begin inside of the status code, which has
digits only. -/
theorem code_clear {c : UInt8} (hc : Decimal.isdigit c = false) (needle rest : List UInt8) :
    Search.Clear (c :: needle) r.code.bytes rest := by
  refine Search.clear_of_head (fun h => ?_) rest
  rw [r.codeDigits c h] at hc
  cases hc

/-- The version in front of the status code has no blank, so the first blank of the response ends
it. -/
theorem SoapResponse.version_noBlank : 32 ∉ r.version.bytes := fun h => (r.versionChars 32 h).1 rfl

/-- The code begins with `200` exactly if it is that. -/
theorem prefix_code_iff (rest : List UInt8) :
    (lit "200").bytes ++ rest <+: r.code.bytes ++ r.behind.bytes ↔
      r.code = lit "200" ∧ rest <+: r.behind.bytes := by
  have hlen : (lit "200").bytes.length = r.code.bytes.length := r.codeLen.symm
  constructor
  · rintro ⟨after, h⟩
    rw [List.append_assoc] at h
    obtain ⟨hcode, hrest⟩ := List.append_inj h hlen
    exact ⟨CStr.ext hcode.symm, ⟨after, hrest⟩⟩
  · rintro ⟨hcode, hrest⟩
    rw [hcode]
    exact (List.prefix_append_right_inj _).mpr hrest

/-- **The first text** stands around the code, or behind it. -/
theorem blank200_iff : (lit " 200 ").bytes <:+: r.render.bytes ↔
    (r.code = lit "200" ∧ r.behind.first = 32) ∨ (lit " 200 ").bytes <:+: r.behind.bytes := by
  have hneedle : (lit " 200 ").bytes = 32 :: ((lit "200").bytes ++ [32]) := by decide
  have hblank : (lit " ").bytes = [32] := by decide
  have hversion : Search.Clear (32 :: ((lit "200").bytes ++ [32])) r.version.bytes
      (32 :: (r.code.bytes ++ r.behind.bytes)) := Search.clear_of_head r.version_noBlank _
  have hcode := code_clear r (c := 32) (by decide) ((lit "200").bytes ++ [32]) r.behind.bytes
  have hhead : [32] <+: r.behind.bytes ↔ r.behind.bytes.head? = some 32 := by
    cases r.behind.bytes with
    | nil => simp
    | cons c rest => simp [eq_comm]
  rw [SoapResponse.render, CStr.append_bytes, CStr.append_bytes, CStr.append_bytes, hneedle, hblank,
    Search.infix_append_iff, List.singleton_append, List.infix_cons_iff, Search.infix_append_iff,
    List.cons_prefix_cons, prefix_code_iff, CStr.first_eq_iff (by decide), hhead]
  simp only [hversion, hcode, not_true_eq_false, false_or, true_and]

/-- **The second text** stands across the version and the code, or behind them. -/
theorem http200_iff : (lit "HTTP/1.1 200").bytes <:+: r.render.bytes ↔
    (r.code = lit "200" ∧ (lit "HTTP/1.1").bytes <:+ r.version.bytes) ∨
      (lit "HTTP/1.1 200").bytes <:+: r.behind.bytes := by
  have hneedle : (lit "HTTP/1.1 200").bytes =
      (lit "HTTP/1.1").bytes ++ 32 :: (lit "200").bytes := by decide
  have hrender : r.render.bytes = r.version.bytes ++ 32 :: (r.code.bytes ++ r.behind.bytes) := by
    rw [SoapResponse.render, CStr.append_bytes, CStr.append_bytes, CStr.append_bytes]
    rfl
  have hstart : ∃ rest, (lit "HTTP/1.1 200").bytes = 72 :: rest := ⟨_, rfl⟩
  -- the version has no blank, so the blanks are the same
  have hversion : ¬ Search.Clear (lit "HTTP/1.1 200").bytes r.version.bytes
      (32 :: (r.code.bytes ++ r.behind.bytes)) ↔
        r.code = lit "200" ∧ (lit "HTTP/1.1").bytes <:+ r.version.bytes := by
    rw [Search.clear_iff, hneedle]
    push Not
    constructor
    · rintro ⟨b, c, hsplit, -, hstarts⟩
      have hnoBlank : 32 ∉ c := fun h => r.version_noBlank (hsplit ▸ List.mem_append_right b h)
      obtain ⟨rfl, hcode⟩ := (Search.append_cons_prefix_iff (by decide) hnoBlank).mp hstarts
      rw [← List.append_nil (lit "200").bytes, prefix_code_iff] at hcode
      exact ⟨hcode.1, b, hsplit.symm⟩
    · rintro ⟨hcode, b, hsplit⟩
      refine ⟨b, _, hsplit.symm, by decide, ?_⟩
      rw [Search.append_cons_prefix_iff (by decide) (by decide), hcode]
      exact ⟨rfl, List.prefix_append _ _⟩
  obtain ⟨rest, hrest⟩ := hstart
  have hcode := code_clear r (c := 72) (by decide) rest r.behind.bytes
  rw [hrender, Search.infix_append_iff, hversion, List.infix_cons_iff, Search.infix_append_iff,
    hrest, List.cons_prefix_cons]
  simp [hcode]

/-- **The status 200** is told rightly by the texts that the code looks for exactly if it shows:
with it one of them is in the response, and with another status none is. -/
theorem mentions200_iff :
    (Mentions200 r.render ↔ r.code = lit "200") ↔ StatusShows r := by
  rw [Mentions200, blank200_iff, http200_iff, StatusShows, Mentions200]
  split
  · rename_i hcode
    simp only [hcode, true_and, iff_true]
    rw [or_or_or_comm, or_assoc]
  · rename_i hcode
    simp only [hcode, false_and, false_or, iff_false]

end Status

/-! ### The error code -/

/-- Where there is no digit at the front, the number that is read is zero. -/
theorem leadingValue_of_head {s : List UInt8} (h : s.head?.any Decimal.isdigit = false) :
    Decimal.leadingValue s = 0 := by
  cases s with
  | nil => rfl
  | cons c rest =>
    have hc : Decimal.isdigit c = false := h
    rw [Decimal.leadingValue, List.takeWhile_cons, hc]
    rfl

/-- Where nothing is converted the number is zero: behind the blanks and a sign, or where there is
no sign, the text does not start with a digit, and the value of no digits is zero. -/
theorem strtol_of_not_converts {s : List UInt8} (h : converts s = false) :
    (Decimal.strtol s).val = 0 := by
  fun_cases Decimal.strtol s with
  | case1 rest hminus =>
    rw [converts, hminus] at h
    rw [leadingValue_of_head h]
    rfl
  | case2 rest hplus =>
    rw [converts, hplus] at h
    rw [leadingValue_of_head h]
    rfl
  | case3 hminus hplus =>
    rw [converts] at h
    split at h
    · rename_i heq
      exact (hminus _ heq).elim
    · rename_i heq
      exact (hplus _ heq).elim
    · rw [leadingValue_of_head h]
      rfl

/-- The description that is read for an error code has that code. -/
theorem readErrorInfo_code {code : Decimal.CInt} {objectStart : CStr} {objectEnd : ℕ}
    {info : RrUpnpErrorInfo} (h : readErrorInfo code objectStart objectEnd = some info) :
    info.code = code := by
  rw [readErrorInfo] at h
  repeat' split at h
  all_goals cases h
  rfl

/-- Whatever is known of an error code, it is stored. -/
theorem rrUpnpErrorLookup_code (json : CStr) (stop : ℕ) (code : Decimal.CInt) :
    (rrUpnpErrorLookup json stop code).2.code = code := by
  rw [rrUpnpErrorLookup]
  split
  · rfl
  · dsimp only
    split
    · rfl
    · split
      · rfl
      · split
        · rfl
        · split
          · rfl
          · split
            · rfl
            · rename_i hinfo
              exact readErrorInfo_code hinfo

/-- **The first tag** is the one behind which the code is read. -/
theorem rrUpnpExtractSoapError_of_tag (json : CStr) (stop : ℕ) {response tag : CStr}
    (hfind : response.strstr (lit "<errorCode>") = some tag) :
    rrUpnpExtractSoapError json stop response =
      let code := Decimal.strtol (tag.drop (lit "<errorCode>").len).bytes
      if ¬ converts (tag.drop (lit "<errorCode>").len).bytes ∨ code.val < 0 ∨ 9999 < code.val then
        none
      else some (rrUpnpErrorLookup json stop code).2 := by
  obtain ⟨before, -, -, behind, hbytes⟩ := CStr.strstr_eq_some_iff.mp hfind
  have htag : tag.bytes = (lit "<errorCode").bytes ++ 62 :: behind := by
    rw [← hbytes]
    rfl
  obtain ⟨value, hvalue, hvalueBytes⟩ := CStr.strchr_append (by decide) htag
  have hbehind : tag.drop (lit "<errorCode>").len = value.drop 1 := by
    refine CStr.ext ?_
    rw [CStr.drop_bytes, CStr.drop_bytes, hvalueBytes, ← hbytes]
    exact List.drop_left' rfl
  rw [rrUpnpExtractSoapError, hfind, Option.some_or]
  dsimp only
  rw [hvalue, hbehind]

/-- **The number behind the first tag** is what is stored, zero if it is no error code. -/
theorem readMappingResponse_code (json : CStr) (stop : ℕ) (description solution : CStr)
    {response : CStr} (h200 : ¬ Mentions200 response)
    (htag : (lit "<errorCode>").bytes <:+: response.bytes) :
    (readMappingResponse json stop description solution response).lastError.code.val =
      firstErrorNumber response := by
  have hnot : ¬ (response.contains (lit " 200 ") ∨ response.contains (lit "HTTP/1.1 200")) := by
    rw [CStr.contains_iff, CStr.contains_iff]
    exact h200
  cases hfind : response.strstr (lit "<errorCode>") with
  | none => exact absurd htag (CStr.strstr_eq_none_iff.mp hfind)
  | some tag =>
    have hextract := rrUpnpExtractSoapError_of_tag json stop hfind
    rw [readMappingResponse, if_neg hnot, hextract, firstErrorNumber, hfind]
    dsimp only
    generalize (tag.drop (lit "<errorCode>").len).bytes = behind
    by_cases hconverts : converts behind = true
    · by_cases hrange : 0 ≤ (Decimal.strtol behind).val ∧ (Decimal.strtol behind).val ≤ 9999
      · rw [if_neg (by rw [hconverts]; simp only [not_true_eq_false, false_or]; omega),
          if_pos hrange]
        dsimp only
        rw [rrUpnpErrorLookup_code]
      · rw [if_pos (by right; omega), if_neg hrange]
        rfl
    · rw [if_pos (Or.inl hconverts)]
      rw [Bool.not_eq_true] at hconverts
      rw [strtol_of_not_converts hconverts]
      rfl

/-- A number with blanks around it is read up to the closing tag. -/
theorem strtol_errorCode {text : List UInt8} {code : ℕ} (h : IsErrorCode text code)
    (after : List UInt8) :
    (Decimal.strtol (text ++ ((lit "</errorCode>").bytes ++ after))).val = code := by
  obtain ⟨blanks, digits, blanks', rfl, hblanks, hblanks', hne, hdigits, hvalue⟩ := h.number
  have hsmall := h.small
  obtain ⟨d, ds, rfl⟩ := List.exists_cons_of_ne_nil hne
  have hd := hdigits d List.mem_cons_self
  have hrest : ∀ c ∈ (blanks' ++ ((lit "</errorCode>").bytes ++ after)).head?,
      Decimal.isdigit c = false := by
    cases blanks' with
    | nil =>
      intro c hc
      rw [← Option.some.inj hc]
      decide
    | cons b blanks' =>
      intro c hc
      have hb := hblanks' b List.mem_cons_self
      rw [← Option.some.inj hc, ← Bool.not_eq_true]
      intro hdigit
      rw [Decimal.isspace_of_isdigit hdigit] at hb
      cases hb
  have hlead := Decimal.leadingValue_append hdigits hrest
  rw [List.append_assoc, List.append_assoc, Decimal.strtol_blanks hblanks, List.cons_append,
    Decimal.strtol_cons hd, ← List.cons_append, hlead, hvalue]
  show max (-2 ^ 31) (min (code : ℤ) (2 ^ 31 - 1)) = code
  omega

/-- **The element behind the first tag** is the one that is read. -/
theorem firstErrorNumber_first {response : CStr} {before text after : List UInt8} {code : ℕ}
    (h : IsErrorCode text code)
    (hresponse : response.bytes = before ++ ((lit "<errorCode>").bytes ++
      (text ++ ((lit "</errorCode>").bytes ++ after))))
    (hfirst : Search.Clear (lit "<errorCode>").bytes before ((lit "<errorCode>").bytes ++
      (text ++ ((lit "</errorCode>").bytes ++ after)))) :
    firstErrorNumber response = code := by
  have hsmall := h.small
  have hfind : response.strstr (lit "<errorCode>") = some ⟨(lit "<errorCode>").bytes ++
      (text ++ ((lit "</errorCode>").bytes ++ after)), fun h0 => response.noNul
        (hresponse ▸ List.mem_append_right before h0)⟩ :=
    CStr.strstr_eq_some_iff.mpr ⟨before, hresponse, hfirst, List.prefix_append _ _⟩
  have hbehind : (CStr.mk ((lit "<errorCode>").bytes ++ (text ++ ((lit "</errorCode>").bytes ++
      after))) (fun h0 => response.noNul (hresponse ▸ List.mem_append_right before h0))).bytes.drop
        (lit "<errorCode>").len = text ++ ((lit "</errorCode>").bytes ++ after) :=
    List.drop_left' rfl
  rw [firstErrorNumber, hfind]
  dsimp only
  rw [CStr.drop_bytes, hbehind, strtol_errorCode h, if_pos (by omega)]

/-- The error code shows where there is no second tag: each one is the first. -/
theorem ErrorShows.of_single {r : SoapResponse}
    (h : ∀ before after, r.render.bytes = before ++ ((lit "<errorCode>").bytes ++ after) →
      Search.Clear (lit "<errorCode>").bytes before ((lit "<errorCode>").bytes ++ after)) :
    ErrorShows r := by
  rintro - code ⟨before, text, after, hcode, hresponse⟩
  exact firstErrorNumber_first hcode hresponse (h before _ hresponse)

/-- **A response is reported rightly** exactly if its status and its error code show. -/
theorem readMappingResponse_reported_iff (json : CStr) (stop : ℕ) (description solution : CStr)
    (r : SoapResponse) :
    Reported r (readMappingResponse json stop description solution r.render) ↔
      StatusShows r ∧ ErrorShows r := by
  have hreturned : (readMappingResponse json stop description solution r.render).returned = true ↔
      Mentions200 r.render := by
    rw [readMappingResponse, Mentions200, ← CStr.contains_iff, ← CStr.contains_iff]
    split
    · rename_i h
      exact iff_of_true rfl h
    · rename_i h
      refine iff_of_false ?_ h
      split <;> exact Bool.false_ne_true
  have herror : StatusShows r → r.code = lit "500" → ∀ code, HasErrorCode r.render code →
      (readMappingResponse json stop description solution r.render).lastError.code.val =
        firstErrorNumber r.render := by
    intro hshows hcode code herror
    obtain ⟨before, text, after, -, hresponse⟩ := herror
    refine readMappingResponse_code json stop description solution (fun h200 => ?_) ?_
    · have hboth := ((mentions200_iff r).mpr hshows).mp h200
      rw [hcode] at hboth
      exact absurd hboth (by decide)
    · rw [hresponse]
      exact (List.prefix_append _ _).isInfix.trans (List.suffix_append _ _).isInfix
  constructor
  · intro h
    have hshows : StatusShows r := by
      rw [← mentions200_iff, ← hreturned]
      exact h.success
    refine ⟨hshows, fun hcode code hcontains => ?_⟩
    rw [← herror hshows hcode code hcontains]
    exact h.error hcode code hcontains
  · rintro ⟨hshows, hfirst⟩
    refine ⟨hreturned.trans ((mentions200_iff r).mpr hshows), fun hcode code hcontains => ?_⟩
    rw [herror hshows hcode code hcontains]
    exact hfirst hcode code hcontains

/-- **A mapping is reported rightly** exactly if the status and the error code of the response
show, whether it is added or deleted. -/
theorem port_mapping_reported_iff (json : CStr) (stop : ℕ) (exchange : Exchange) {d : RrUpnpDevice}
    (hvalid : d.valid = true) (externalPort internalPort : UInt16) (r : SoapResponse) :
    (∀ client description leaseSeconds,
      rrUpnpSoap exchange d (lit "AddPortMapping")
          (addBody d externalPort internalPort client description leaseSeconds) upnpBuf =
        some r.render →
      (Reported r (rrUpnpAddUdpMapping json stop exchange (some client) (some d) externalPort
          internalPort (some description) leaseSeconds) ↔ StatusShows r ∧ ErrorShows r)) ∧
      (rrUpnpSoap exchange d (lit "DeletePortMapping") (deleteBody d externalPort) upnpBuf =
        some r.render →
      (Reported r (rrUpnpDeleteUdpMapping json stop exchange (some d) externalPort internalPort) ↔
        StatusShows r ∧ ErrorShows r)) := by
  constructor
  · intro client description leaseSeconds hsoap
    rw [rrUpnpAddUdpMapping_response hvalid hsoap]
    exact readMappingResponse_reported_iff json stop _ _ r
  · intro hsoap
    rw [rrUpnpDeleteUdpMapping_response hvalid internalPort hsoap]
    exact readMappingResponse_reported_iff json stop _ _ r

/-- The device as the discovery has filled it. -/
def mappedDevice : RrUpnpDevice :=
  { locatedDevice with
    controlUrl := lit "http://192.168.1.1:5000/c", serviceType := lit "urn:WANIPConnection:1",
    host := lit "192.168.1.1", port := 5000, valid := true }

/-- The router sends a response that fits, whatever it is asked. -/
theorem rrUpnpSoap_mappedDevice {r : SoapResponse} (hfits : r.render.len < upnpBuf)
    (action : CStr) {body : CStr} (hbody : body.len < 2048) :
    rrUpnpSoap (fun _ _ _ => some r.render.bytes) mappedDevice action body upnpBuf =
      some r.render := by
  have hurl : rrParseLocationUrl mappedDevice.controlUrl 64 =
      some (lit "192.168.1.1", 5000, lit "/c") := by decide +kernel
  obtain ⟨request, hsent⟩ := rrUpnpSoap_sent (fun _ _ _ => some r.render.bytes) hurl (by decide)
    action hbody upnpBuf
  have hwhole : r.render.bytes.take (upnpBuf - 1) = r.render.bytes :=
    List.take_of_length_le (Nat.le_sub_one_of_lt hfits)
  have hne : r.render.bytes ≠ [] :=
    List.append_ne_nil_of_right_ne_nil _ (List.cons_ne_nil _ _)
  rw [hsent, Option.bind_some, hwhole, if_neg hne, CStr.ofBuffer_bytes_of_noNul]

/-- The response of a gateway that did what it was asked for. -/
def okResponse : SoapResponse :=
  ⟨lit "HTTP/1.1", lit "200", lit " OK\r\n\r\n", List.forall_iff_forall_mem.mp (by decide),
    List.forall_iff_forall_mem.mp (by decide), rfl, fun _ hc => Or.inl (Option.some.inj hc).symm⟩

/-- The mapping of a port is added and deleted, with the response of a gateway that accepts both. -/
theorem port_mapping_reported_iff_ok :
    Reported okResponse (rrUpnpAddUdpMapping (lit "") 0 (fun _ _ _ => some okResponse.render.bytes)
        (some (lit "192.168.1.2")) (some mappedDevice) 29000 29000 (some (lit "Wii")) 3600) ∧
      Reported okResponse (rrUpnpDeleteUdpMapping (lit "") 0
        (fun _ _ _ => some okResponse.render.bytes) (some mappedDevice) 29000 29000) := by
  have hshows : StatusShows okResponse ∧ ErrorShows okResponse := by
    refine ⟨?_, fun hcode => absurd hcode (by decide)⟩
    rw [StatusShows, if_pos (show okResponse.code = lit "200" from rfl)]
    exact Or.inl (by decide)
  obtain ⟨hadd, hdelete⟩ := port_mapping_reported_iff (lit "") 0
    (fun _ _ _ => some okResponse.render.bytes) (d := mappedDevice) rfl 29000 29000 okResponse
  have hfits : okResponse.render.len < upnpBuf := by decide
  have hdeleteLen : (deleteBody mappedDevice 29000).len < 1024 := CStr.fit_len_lt _ (by decide)
  exact ⟨(hadd (lit "192.168.1.2") (lit "Wii") 3600
      (rrUpnpSoap_mappedDevice hfits _ (CStr.fit_len_lt _ (by decide)))).mpr hshows,
    (hdelete (rrUpnpSoap_mappedDevice hfits _ (hdeleteLen.trans (by decide)))).mpr hshows⟩

/-- A fault with a header in which the number 200 stands. -/
def limitFault : SoapResponse :=
  ⟨lit "HTTP/1.1", lit "500",
    lit " Internal Server Error\r\nX-Limit: 200 s\r\n\r\n<errorCode>718</errorCode>",
    List.forall_iff_forall_mem.mp (by decide), List.forall_iff_forall_mem.mp (by decide), rfl,
    fun _ hc => Or.inl (Option.some.inj hc).symm⟩

/-- **A fault counts as a success** if the number 200 stands in one of its headers. -/
theorem port_mapping_fault_succeeds :
    ¬ ∀ (json : CStr) (stop : ℕ) (exchange : Exchange) (d : RrUpnpDevice)
      (externalPort internalPort : UInt16) (client description : CStr) (leaseSeconds : UInt32)
      (r : SoapResponse), d.valid = true →
      rrUpnpSoap exchange d (lit "AddPortMapping")
          (addBody d externalPort internalPort client description leaseSeconds) upnpBuf =
        some r.render →
      Reported r (rrUpnpAddUdpMapping json stop exchange (some client) (some d) externalPort
        internalPort (some description) leaseSeconds) := by
  intro h
  have hsoap := rrUpnpSoap_mappedDevice (show limitFault.render.len < upnpBuf by decide)
    (lit "AddPortMapping") (show (addBody mappedDevice 29000 29000 (lit "192.168.1.2")
      (lit "Wii") 3600).len < 2048 from CStr.fit_len_lt _ (by decide))
  have hreported := h (lit "") 0 (fun _ _ _ => some limitFault.render.bytes) mappedDevice 29000
    29000 (lit "192.168.1.2") (lit "Wii") 3600 limitFault rfl hsoap
  rw [rrUpnpAddUdpMapping_response rfl hsoap] at hreported
  exact absurd (hreported.success.mp (by decide +kernel)) (by decide)

end RrLauncher
