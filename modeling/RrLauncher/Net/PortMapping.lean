/-
# Port mappings

`rr_upnp_add_udp_mapping` and `rr_upnp_delete_udp_mapping` of `upnp.c`: a SOAP request is
sent to the control URL of the device, and the response is searched for the status 200 and
for an error code.  What `rr_upnp_last_error` points to is a result of both.
-/

import RrLauncher.Net.ControlUrl
import RrLauncher.Net.UpnpErrorCodes

namespace RrLauncher

open CStr (lit)

/-- `rr_upnp_clear_last_error`. -/
def rrUpnpClearLastError : RrUpnpErrorInfo := ⟨0, false, lit "", lit "", lit ""⟩

/-- `rr_upnp_set_no_device_error`. -/
def rrUpnpSetNoDeviceError (description solution : CStr) : RrUpnpErrorInfo :=
  ⟨0, false, (lit "No UPnP error code").fit 64, description.fit 256, solution.fit 256⟩

/-- `strtol` converts something, so `endptr` is moved. -/
def converts (s : List UInt8) : Bool :=
  match s.dropWhile Decimal.isspace with
  | 45 :: rest => rest.head?.any Decimal.isdigit
  | 43 :: rest => rest.head?.any Decimal.isdigit
  | rest => rest.head?.any Decimal.isdigit

section Registry

variable (json : CStr) (stop : ℕ)

/-- `rr_upnp_extract_soap_error`, with the registry at `json`: what is stored if it returns true. -/
def rrUpnpExtractSoapError (response : CStr) : Option RrUpnpErrorInfo :=
  match (response.strstr (lit "<errorCode>")).or (response.strstr (lit "<m:errorCode>")) with
  | none => none
  | some tag =>
    match tag.strchr 62 with
    | none => none
    | some value =>
      let value := value.drop 1
      let code := Decimal.strtol value.bytes
      if ¬ converts value.bytes ∨ code.val < 0 ∨ 9999 < code.val then none
      else some (rrUpnpErrorLookup json stop code).2

/-- What a call returns, and what `rr_upnp_last_error` points to behind it. -/
structure MappingResult where
  returned : Bool
  lastError : RrUpnpErrorInfo
  deriving DecidableEq

/-- What both calls do with the response, where `description` and `solution` are for one without
an error code. -/
def readMappingResponse (description solution response : CStr) : MappingResult :=
  if response.contains (lit " 200 ") ∨ response.contains (lit "HTTP/1.1 200") then
    ⟨true, rrUpnpClearLastError⟩
  else
    match rrUpnpExtractSoapError json stop response with
    | some info => ⟨false, info⟩
    | none => ⟨false, rrUpnpSetNoDeviceError description solution⟩

end Registry

/-- `rr_upnp_soap`: the response, if it returns true. -/
def rrUpnpSoap (exchange : Exchange) (d : RrUpnpDevice) (action body : CStr) (responseSz : ℕ) :
    Option CStr :=
  match rrParseLocationUrl d.controlUrl 64 with
  | none => none
  | some (host, port, path) =>
    let headers := (lit "Content-Type: text/xml; charset=\"utf-8\"\r\nSOAPAction: \"" ++
      d.serviceType ++ lit "#" ++ action ++ lit "\"\r\n").fit 512
    rrHttpRequest exchange host port path (some headers) (some body) responseSz

/-- **The request of an action fits the buffer**: whatever the device and the action, it is
sent to the host of the control URL. -/
theorem rrUpnpSoap_sent (exchange : Exchange) {d : RrUpnpDevice} {host path : CStr} {port : UInt16}
    (hurl : rrParseLocationUrl d.controlUrl 64 = some (host, port, path))
    (hcontrolUrl : d.controlUrl.len < 256) (action : CStr) {body : CStr} (hbody : body.len < 2048)
    (responseSz : ℕ) :
    ∃ request, rrUpnpSoap exchange d action body responseSz =
      (exchange host port request).bind fun answer =>
        if answer.take (responseSz - 1) = [] then none
        else some (CStr.ofBuffer (answer.take (responseSz - 1))) := by
  obtain ⟨-, hhost, -, hpath⟩ := rrParseLocationUrl_spec hurl
  have hpathLen : path.len < 256 := by
    rcases hpath with rfl | hpath
    · decide
    · omega
  have hport : (unsignedText port.toNat).len ≤ 5 :=
    unsignedText_len_le (by decide) (port.toNat_lt.trans (by decide))
  have hbodyLen : (unsignedText body.len).len ≤ 4 :=
    unsignedText_len_le (by decide) (hbody.trans (by decide))
  have hheaders := CStr.fit_len_lt (lit "Content-Type: text/xml; charset=\"utf-8\"\r\nSOAPAction: \"" ++
      d.serviceType ++ lit "#" ++ action ++ lit "\"\r\n") (show 0 < 512 by decide)
  have hlits : (lit "POST").len = 4 ∧ (lit " ").len = 1 ∧ (lit " HTTP/1.1\r\nHost: ").len = 17 ∧
      (lit ":").len = 1 ∧ (lit "\r\nConnection: close\r\n").len = 21 ∧
      (lit "Content-Length: ").len = 16 ∧ (lit "\r\n\r\n").len = 4 := by decide
  rw [rrUpnpSoap, hurl]
  dsimp only
  rw [rrHttpRequest]
  simp only [Option.isSome_some, if_true, Option.getD_some, CStr.append_len]
  rw [if_neg (by rw [upnpBuf]; omega), if_neg (by rw [upnpBuf]; omega)]
  generalize _ ++ (unsignedText body.len ++ lit "\r\n\r\n" ++ body) = request
  refine ⟨request, ?_⟩
  cases exchange host port request with
  | none => rfl
  | some answer => rfl

/-- What both requests begin with. -/
def soapHead : CStr :=
  lit "<?xml version=\"1.0\"?>" ++
  lit "<s:Envelope xmlns:s=\"http://schemas.xmlsoap.org/soap/envelope/\"" ++
  lit " s:encodingStyle=\"http://schemas.xmlsoap.org/soap/encoding/\">"

/-- `body` of `rr_upnp_add_udp_mapping`, as its format string makes it. -/
def addBody (d : RrUpnpDevice) (externalPort internalPort : UInt16) (client description : CStr)
    (leaseSeconds : UInt32) : CStr :=
  (soapHead ++ lit "<s:Body><u:AddPortMapping xmlns:u=\"" ++ d.serviceType ++ lit "\">" ++
    lit "<NewRemoteHost></NewRemoteHost><NewExternalPort>" ++ unsignedText externalPort.toNat ++
    lit "</NewExternalPort><NewProtocol>UDP</NewProtocol><NewInternalPort>" ++
    unsignedText internalPort.toNat ++ lit "</NewInternalPort><NewInternalClient>" ++ client ++
    lit "</NewInternalClient><NewEnabled>1</NewEnabled><NewPortMappingDescription>" ++
    description ++ lit "</NewPortMappingDescription><NewLeaseDuration>" ++
    unsignedText leaseSeconds.toNat ++
    lit "</NewLeaseDuration></u:AddPortMapping></s:Body></s:Envelope>").fit 2048

/-- `body` of `rr_upnp_delete_udp_mapping`, as its format string makes it. -/
def deleteBody (d : RrUpnpDevice) (externalPort : UInt16) : CStr :=
  (soapHead ++ lit "<s:Body><u:DeletePortMapping xmlns:u=\"" ++ d.serviceType ++ lit "\">" ++
    lit "<NewRemoteHost></NewRemoteHost><NewExternalPort>" ++ unsignedText externalPort.toNat ++
    lit "</NewExternalPort><NewProtocol>UDP</NewProtocol>" ++
    lit "</u:DeletePortMapping></s:Body></s:Envelope>").fit 1024

/-- The error of a request without a response. -/
def noResponseError : RrUpnpErrorInfo :=
  rrUpnpSetNoDeviceError (lit "The router did not return a valid UPnP response.")
    (lit "Check that UPnP is enabled and that the router is reachable.")

section Calls

variable (json : CStr) (stop : ℕ) (exchange : Exchange)

/-- `rr_upnp_add_udp_mapping`, where `localIpv4` is what `rr_local_ipv4` finds out; `none` stands
for a null pointer. -/
def rrUpnpAddUdpMapping (localIpv4 : Option CStr) (device : Option RrUpnpDevice)
    (externalPort internalPort : UInt16) (description : Option CStr) (leaseSeconds : UInt32) :
    MappingResult :=
  match device.filter (·.valid), description with
  | some d, some description =>
    match localIpv4 with
    | none => ⟨false, rrUpnpSetNoDeviceError
        (lit "The launcher's local IPv4 address could not be determined.")
        (lit "Check the Wii's network connection.")⟩
    | some client =>
      let body := addBody d externalPort internalPort client description leaseSeconds
      match rrUpnpSoap exchange d (lit "AddPortMapping") body upnpBuf with
      | none => ⟨false, noResponseError⟩
      | some response => readMappingResponse json stop
          (lit "The router rejected the UPnP request without a readable SOAP error code.")
          (lit "Check the router's UPnP settings and system log.") response
  | _, _ => ⟨false, rrUpnpSetNoDeviceError (lit "The UPnP device information is invalid.")
      (lit "Run discovery again and check that the router exposes UPnP IGD.")⟩

/-- `rr_upnp_delete_udp_mapping`; it does not read the internal port. -/
def rrUpnpDeleteUdpMapping (device : Option RrUpnpDevice) (externalPort _internalPort : UInt16) :
    MappingResult :=
  match device.filter (·.valid) with
  | none => ⟨false, rrUpnpClearLastError⟩
  | some d =>
    match rrUpnpSoap exchange d (lit "DeletePortMapping") (deleteBody d externalPort) upnpBuf with
    | none => ⟨false, noResponseError⟩
    | some response => readMappingResponse json stop
        (lit "The router rejected the UPnP delete request without a readable SOAP error code.")
        (lit "Check the router's UPnP settings and system log.") response

variable {json stop exchange}

/-! With a valid device and a response, what is said of a request is what the response says. -/

/-- Once the gateway has answered, adding a mapping comes down to what is read of its response, with
the texts of this call for a fault that cannot be read. -/
theorem rrUpnpAddUdpMapping_response {d : RrUpnpDevice} (hvalid : d.valid = true)
    {externalPort internalPort : UInt16} {client description : CStr} {leaseSeconds : UInt32}
    {response : CStr}
    (hsoap : rrUpnpSoap exchange d (lit "AddPortMapping")
      (addBody d externalPort internalPort client description leaseSeconds) upnpBuf =
        some response) :
    rrUpnpAddUdpMapping json stop exchange (some client) (some d) externalPort internalPort
        (some description) leaseSeconds =
      readMappingResponse json stop
        (lit "The router rejected the UPnP request without a readable SOAP error code.")
        (lit "Check the router's UPnP settings and system log.") response := by
  unfold rrUpnpAddUdpMapping
  rw [Option.filter_some, if_pos hvalid]
  dsimp only
  rw [hsoap]

/-- The same for deleting a mapping, with the texts of that call. -/
theorem rrUpnpDeleteUdpMapping_response {d : RrUpnpDevice} (hvalid : d.valid = true)
    {externalPort : UInt16} (internalPort : UInt16) {response : CStr}
    (hsoap : rrUpnpSoap exchange d (lit "DeletePortMapping") (deleteBody d externalPort) upnpBuf =
      some response) :
    rrUpnpDeleteUdpMapping json stop exchange (some d) externalPort internalPort =
      readMappingResponse json stop
        (lit "The router rejected the UPnP delete request without a readable SOAP error code.")
        (lit "Check the router's UPnP settings and system log.") response := by
  rw [rrUpnpDeleteUdpMapping, Option.filter_some, if_pos hvalid]
  dsimp only
  rw [hsoap]

end Calls

end RrLauncher
