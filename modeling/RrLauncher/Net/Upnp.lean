/-
# The UPnP device

How `upnp.c` reads what the devices of the network send: the headers of an SSDP
reply, the URL of the description, and the control URL in the description.  The
network itself is a parameter, `Exchange`: what a host sends back on a request until it
closes the connection or is silent for too long.
-/

import RrLauncher.Lib.CText
import RrLauncher.Lib.Decimal

namespace RrLauncher

open CStr (lit)

/-- `UPNP_BUF`. -/
def upnpBuf : ℕ := 8192

/-- `rr_upnp_device_t`. -/
structure RrUpnpDevice where
  location : CStr
  controlUrl : CStr
  serviceType : CStr
  host : CStr
  port : UInt16
  valid : Bool
  deriving DecidableEq

/-- The device after `memset`: empty strings, no port, not valid. -/
def RrUpnpDevice.zero : RrUpnpDevice := ⟨lit "", lit "", lit "", lit "", 0, false⟩

/-- `%u` of a number: its decimal digits. -/
def unsignedText (n : ℕ) : CStr :=
  ⟨Decimal.digits n, fun h => absurd (Decimal.isdigit_of_mem_digits h) (by decide)⟩

/-- A number below a power of ten has no more digits than the exponent. -/
theorem unsignedText_len_le {n k : ℕ} (hk : 0 < k) (h : n < 10 ^ k) : (unsignedText n).len ≤ k := by
  have hlen : (unsignedText n).len = (Nat.toDigits 10 n).length := List.length_map _
  rw [hlen]
  exact (Nat.length_toDigits_le_iff (by decide) hk).mpr h

/-- `rr_parse_location_url`: the host, the port and the path. -/
def rrParseLocationUrl (url : CStr) (hostSz : ℕ) : Option (CStr × UInt16 × CStr) :=
  match url.strstr (lit "://") with
  | none => none
  | some p =>
    let p := p.drop 3
    let slash := p.strchr 47
    let colon := p.strchr 58
    -- how far `slash` and `colon` are from `p`
    let slashAt := p.len - (slash.map CStr.len).getD 0
    let colonAt := colon.map fun c => p.len - c.len
    let n := match colonAt with
      | some c => if c < slashAt then c else slashAt
      | none => slashAt
    if n = 0 ∨ hostSz ≤ n then none
    else
      let port := match colon with
        | some c =>
          if p.len - c.len < slashAt then (Decimal.strtoul (c.drop 1).bytes).toUInt16 else 80
        | none => 80
      some (p.take n, port, slash.getD (lit "/"))

/-- The network: what the host sends back on a request at a port, unless the name is
not known or there is no connection. -/
abbrev Exchange : Type := CStr → UInt16 → CStr → Option (List UInt8)

/-- `rr_http_request`: the response, as a string. -/
def rrHttpRequest (exchange : Exchange) (host : CStr) (port : UInt16) (path : CStr)
    (extraHeaders body : Option CStr) (responseSz : ℕ) : Option CStr :=
  let head := (if body.isSome then lit "POST" else lit "GET") ++ lit " " ++ path ++
    lit " HTTP/1.1\r\nHost: " ++ host ++ lit ":" ++ unsignedText port.toNat ++
    lit "\r\nConnection: close\r\n" ++ extraHeaders.getD (lit "") ++
    (if body.isSome then lit "Content-Length: " else lit "")
  let rest := match body with
    | some body => unsignedText body.len ++ lit "\r\n\r\n" ++ body
    | none => lit "\r\n"
  if upnpBuf ≤ head.len then none
  else if upnpBuf ≤ head.len + rest.len then none
  else
    match exchange host port (head ++ rest) with
    | none => none
    | some answer =>
      let response := answer.take (responseSz - 1)
      if response = [] then none else some (CStr.ofBuffer response)

/-- `rr_extract_header`: what is written to `out`. -/
def rrExtractHeader (p name : CStr) (outSz : ℕ) : Option CStr :=
  if p.bytes = [] then none
  else
    match h : (p.strstr (lit "\r\n")).or (p.strchr 10) with
    | none => none
    | some lineEnd =>
      let lineLen := p.len - lineEnd.len
      if name.len < lineLen ∧ (p.take name.len).lower = name.lower ∧ (p.drop name.len).first = 58 then
        let value := (p.drop (name.len + 1)).skipWhile fun c => c = 32 ∨ c = 9
        let n := value.len - lineEnd.len
        let n := if outSz ≤ n then outSz - 1 else n
        some (value.take n)
      else if lineEnd.first = 13 ∧ (lineEnd.drop 1).first = 10 then
        rrExtractHeader (lineEnd.drop 2) name outSz
      else rrExtractHeader (lineEnd.drop 1) name outSz
termination_by p.len
decreasing_by
  all_goals
    have hlen : 0 < lineEnd.len ∧ lineEnd.len ≤ p.len := by
      rcases Option.or_eq_some_iff.mp h with h | ⟨-, h⟩
      · have := CStr.strstr_len h
        have : (lit "\r\n").len = 2 := by decide
        omega
      · exact CStr.strchr_len h
    rw [CStr.drop_len]
    omega

/-- A `<service>` of the description that ends at `e`: the type and the control URL, if
both are there, short enough, and the type is one of those that are looked for. -/
def wanService (p e : CStr) : Option (CStr × CStr) :=
  match p.strstr (lit "<serviceType>"), p.strstr (lit "<controlURL>") with
  | some st, some ct =>
    if e.len < st.len ∧ e.len < ct.len then
      let st := st.drop (lit "<serviceType>").len
      let ct := ct.drop (lit "<controlURL>").len
      match st.strstr (lit "</serviceType>"), ct.strstr (lit "</controlURL>") with
      | some ste, some cte =>
        if e.len < ste.len ∧ e.len < cte.len then
          let sn := st.len - ste.len
          let cn := ct.len - cte.len
          let serviceType := st.take sn
          let isWanService := sn < 256 ∧
            (serviceType.contains (lit "WANIPConnection") ∨
              serviceType.contains (lit "WANPPPConnection"))
          if sn < 128 ∧ cn < 256 ∧ isWanService then some (serviceType, ct.take cn) else none
        else none
      | _, _ => none
    else none
  | _, _ => none

/-- The loop over the services of the description. -/
def findWanService (p : CStr) : Option (CStr × CStr) :=
  match _hp : p.strstr (lit "<service>") with
  | none => none
  | some p' =>
    match _he : p'.strstr (lit "</service>") with
    | none => none
    | some e =>
      match wanService p' e with
      | some service => some service
      | none => findWanService (e.drop 9)
termination_by p.len
decreasing_by
  have hservice := CStr.strstr_len _hp
  have hend := CStr.strstr_len _he
  have : (lit "</service>").len = 10 := by decide
  rw [CStr.drop_len]
  omega

/-- The control URL, from the host, the port and the path of the location and the text
in the description. -/
def controlUrl (host : CStr) (port : UInt16) (path rel : CStr) : CStr :=
  let origin := lit "http://" ++ host ++ lit ":" ++ unsignedText port.toNat
  if rel.first = 47 then (origin ++ rel).fit 256
  else
    let dir := match path.strrchr 47 with
      | some base => path.len - base.len + 1
      | none => 1
    let full := (path.take dir ++ rel).fit 256
    (origin ++ full).fit 256

/-- `rr_fetch_control_url` up to the fields that it sets: the type of the service, the
control URL, the host and the port. -/
def fetchControlUrl (exchange : Exchange) (location : CStr) :
    Option (CStr × CStr × CStr × UInt16) :=
  match rrParseLocationUrl location 64 with
  | none => none
  | some (host, port, path) =>
    match rrHttpRequest exchange host port path none none upnpBuf with
    | none => none
    | some xml =>
      match findWanService xml with
      | none => none
      | some (serviceType, rel) => some (serviceType, controlUrl host port path rel, host, port)

/-- `rr_fetch_control_url`: the device, if it returns true; otherwise it leaves it as it
was. -/
def rrFetchControlUrl (exchange : Exchange) (d : RrUpnpDevice) : Option RrUpnpDevice :=
  match fetchControlUrl exchange d.location with
  | none => none
  | some (serviceType, controlUrl, host, port) =>
    some { d with serviceType, controlUrl, host, port, valid := true }

/-- What is stored in the device, and from which steps it comes. -/
theorem rrFetchControlUrl_eq_some_iff {exchange : Exchange} {d d' : RrUpnpDevice} :
    rrFetchControlUrl exchange d = some d' ↔
      ∃ host port path xml serviceType rel,
        rrParseLocationUrl d.location 64 = some (host, port, path) ∧
          rrHttpRequest exchange host port path none none upnpBuf = some xml ∧
          findWanService xml = some (serviceType, rel) ∧
          d' = { d with
            serviceType, controlUrl := controlUrl host port path rel, host, port, valid := true } := by
  rw [rrFetchControlUrl, fetchControlUrl]
  constructor
  · intro h
    cases hlocation : rrParseLocationUrl d.location 64 with
    | none =>
      rw [hlocation] at h
      cases h
    | some parts =>
      obtain ⟨host, port, path⟩ := parts
      rw [hlocation] at h
      dsimp only at h
      cases hxml : rrHttpRequest exchange host port path none none upnpBuf with
      | none =>
        rw [hxml] at h
        cases h
      | some xml =>
        rw [hxml] at h
        dsimp only at h
        cases hfind : findWanService xml with
        | none =>
          rw [hfind] at h
          cases h
        | some service =>
          obtain ⟨serviceType, rel⟩ := service
          rw [hfind] at h
          cases h
          exact ⟨host, port, path, xml, serviceType, rel, rfl, hxml, hfind, rfl⟩
  · rintro ⟨host, port, path, xml, serviceType, rel, hlocation, hxml, hfind, rfl⟩
    rw [hlocation]
    dsimp only
    rw [hxml]
    dsimp only
    rw [hfind]

end RrLauncher
