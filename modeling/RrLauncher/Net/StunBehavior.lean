/-
# The NAT filtering test

`rr_stun_send_request` and `rr_stun_behavior_test` of `stun.c`: after a Binding request
that shows that the server knows a second address, the server is asked to answer from
another address and port, and then from another port.  All three requests go over one
socket, on which datagrams of any sender arrive.

Where the answer came from is stored and handed up, but not compared with the address that
was asked.  So the verdict rests on the server doing what it was asked for
(`stun_behavior_evidence_iff`).
-/

import RrLauncher.Lib.CStr
import RrLauncher.Net.StunTrailing

namespace RrLauncher

open TimedQueue

/-- A datagram and where it comes from. -/
structure Packet where
  bytes : List UInt8
  source : StunAddress

/-- What is read of a packet. -/
def payload (d : Arrival Packet) : Arrival (List UInt8) := ⟨d.time, d.datagram.bytes⟩

/-- The socket: the packets that are not read yet, what will go wrong, the clock, and what was
sent and where to. -/
structure UdpSocket where
  arrivals : List (Arrival Packet)
  turns : List Turn
  now : ℕ
  sent : List (StunAddress × List UInt8)

/-- What comes of a wait: a negative value or a packet, and the packets, the turns and the time
that are left. -/
structure Waited where
  result : Except ℤ (Arrival Packet)
  arrivals : List (Arrival Packet)
  turns : List Turn
  now : ℕ

/-- `rr_stun_wait_for_matching_response`, with the sender that it leaves in `from`. -/
def waitWithSender (bufSize : ℕ) (transactionId : TransactionId) (start : ℕ) (timeoutMs : UInt32) :
    List (Arrival Packet) → List Turn → ℕ → Waited
  | [], turns, now =>
    match rrStunRecvUntil start timeoutMs [] turns now with
    | ⟨now, turns, .error code⟩ => ⟨.error code, [], turns, now⟩
    | ⟨_, _, .ok ⟨_, h⟩⟩ => nomatch h
  | d :: ds, turns, now =>
    match rrStunRecvUntil start timeoutMs (payload d :: ds.map payload) turns now with
    | ⟨now, turns, .error code⟩ => ⟨.error code, d :: ds, turns, now⟩
    | ⟨now, turns, .ok _⟩ =>
      if isMatchingResponse transactionId (received bufSize (payload d)) then
        ⟨.ok d, ds, turns, now⟩
      else waitWithSender bufSize transactionId start timeoutMs ds turns now

/-- What a request finds: the transaction ID that was made, whether `sendto` fails, and the time
that passes before the clock is read. -/
structure RequestEnv where
  transactionId : TransactionId
  sendFails : Bool
  delay : ℕ

/-- A Binding request, with a CHANGE-REQUEST attribute if there are flags. -/
def stunRequest (changeFlags : UInt32) (transactionId : TransactionId) : List UInt8 :=
  let attrLen : UInt16 := if changeFlags ≠ 0 then 8 else 0
  0x00 :: 0x01 :: (ByteAt.be16 attrLen ++ (ByteReader.be32 stunMagicCookie ++ (transactionId.val ++
    if changeFlags ≠ 0 then [0x00, 0x03, 0x00, 0x04] ++ ByteReader.be32 changeFlags else [])))

/-- A request is sent, and its response waited for. -/
def exchangeRequest (dst : StunAddress) (timeoutMs changeFlags : UInt32) (env : RequestEnv)
    (s : UdpSocket) : Option (Arrival Packet) × UdpSocket :=
  if env.sendFails then (none, s)
  else
    let start := s.now + env.delay
    let waited := waitWithSender stunBufferSize env.transactionId start timeoutMs s.arrivals s.turns
      start
    (waited.result.toOption,
      ⟨waited.arrivals, waited.turns, waited.now,
        s.sent ++ [(dst, stunRequest changeFlags env.transactionId)]⟩)

/-- `rr_stun_send_request`: where the response comes from, if it returns true. -/
def rrStunSendRequest (dst : StunAddress) (timeoutMs changeFlags : UInt32) (env : RequestEnv)
    (s : UdpSocket) : Option StunAddress × UdpSocket :=
  let (response, s) := exchangeRequest dst timeoutMs changeFlags env s
  (response.map fun d => d.datagram.source, s)

/-- `rr_stun_binding_internal_addr` on a socket, with the packets it sends and what remains to be
received. -/
def bindingOnSocket (dst : StunAddress) (timeoutMs : UInt32) (responseOrigin other : AddressCells)
    (env : RequestEnv) (s : UdpSocket) : Option (StunReport × UdpSocket) := do
  let (response, s) := exchangeRequest dst timeoutMs 0 env s
  match response with
  | none => return (⟨false, ⟨0, 0⟩, responseOrigin.zero, other.zero⟩, s)
  | some d =>
    let (_, report) ← readResponse (received stunBufferSize (payload d)) responseOrigin other
    return (report, s)

/-- `rr_stun_behavior_result_t`. -/
structure RrStunBehaviorResult where
  success : Bool
  changePort : Bool
  changeIp : Bool
  changeIpPort : Bool
  deriving DecidableEq

/-- `memset(result, 0, sizeof(*result))`. -/
def RrStunBehaviorResult.zero : RrStunBehaviorResult := ⟨false, false, false, false⟩

/-- How `rr_stun_behavior_test` ends: what it returns and stores, and `from` after each of the
two requests, if it got a response. -/
structure BehaviorRun where
  returned : Bool
  result : RrStunBehaviorResult
  fromChangeIpPort : Option StunAddress
  fromChangePort : Option StunAddress

/-- The reported address has an IP and a port. -/
def AddressCells.complete (cells : AddressCells) : Bool :=
  cells.ip.getD 0 ≠ 0 && cells.port.getD 0 ≠ 0

/-- The two requests of `rr_stun_behavior_test`, from the first that changes something on. -/
def filterTests (primary : StunAddress) (timeoutMs : UInt32)
    (envChangeIpPort envChangePort : RequestEnv) (s : UdpSocket) : BehaviorRun :=
  let (fromChangeIpPort, s) := rrStunSendRequest primary timeoutMs 0x06 envChangeIpPort s
  if fromChangeIpPort.isSome then ⟨true, ⟨true, false, false, true⟩, fromChangeIpPort, none⟩
  else
    let (fromChangePort, _) := rrStunSendRequest primary timeoutMs 0x02 envChangePort s
    if fromChangePort.isSome then ⟨true, ⟨true, true, false, false⟩, none, fromChangePort⟩
    else ⟨true, ⟨true, false, false, false⟩, none, none⟩

/-- The first request of `rr_stun_behavior_test`: the socket after it, where the server reports
both of its addresses. -/
def discovery (primary : StunAddress) (timeoutMs : UInt32) (env : RequestEnv) (s : UdpSocket) :
    Option (Option UdpSocket) := do
  let (report, s) ← bindingOnSocket primary timeoutMs ⟨some 0, some 0⟩ ⟨some 0, some 0⟩ env s
  if ¬ report.success then return none
  else if ¬ (report.responseOrigin.complete && report.other.complete) then return none
  else return some s

/-- `rr_stun_behavior_test`, where `resolve` is `rr_stun_resolve`. -/
def rrStunBehaviorTest (resolve : CStr → UInt16 → Option StunAddress) (server : CStr)
    (serverPort : UInt16) (timeoutMs : UInt32)
    (envBinding envChangeIpPort envChangePort : RequestEnv) (s : UdpSocket) : Option BehaviorRun :=
  match resolve server serverPort with
  | none => some ⟨false, .zero, none, none⟩
  | some primary => do
    match ← discovery primary timeoutMs envBinding s with
    | none => return ⟨false, .zero, none, none⟩
    | some s => return filterTests primary timeoutMs envChangeIpPort envChangePort s

/-! ### The answer to a request -/

/-- The packets that can be read until the time is over, if none of them ends the wait. -/
def readable (start : ℕ) (timeoutMs : UInt32) :
    List (Arrival Packet) → List Turn → ℕ → List (Arrival Packet)
  | [], _, _ => []
  | d :: ds, turns, now =>
    match rrStunRecvUntil start timeoutMs (payload d :: ds.map payload) turns now with
    | ⟨_, _, .error _⟩ => []
    | ⟨now, turns, .ok _⟩ => d :: readable start timeoutMs ds turns now

section Waiting

variable (bufSize : ℕ) (transactionId : TransactionId) (start : ℕ) (timeoutMs : UInt32)

/-- **With the senders** the wait is the one without them. -/
theorem waitWithSender_payload (ds : List (Arrival Packet)) (turns : List Turn) (now : ℕ) :
    let waited := waitWithSender bufSize transactionId start timeoutMs ds turns now
    rrStunWaitForMatchingResponse bufSize transactionId start timeoutMs (ds.map payload) turns
        now =
      (waited.now,
        waited.result.map fun d => ((received bufSize (payload d)).length, payload d)) := by
  induction ds generalizing turns now with
  | nil =>
    rw [List.map_nil, rrStunWaitForMatchingResponse, waitWithSender]
    generalize rrStunRecvUntil start timeoutMs [] turns now = r
    rcases r with ⟨now', turns', code | ⟨d, hd⟩⟩
    · rfl
    · cases hd
  | cons d ds ih =>
    rw [List.map_cons, rrStunWaitForMatchingResponse, waitWithSender]
    generalize rrStunRecvUntil start timeoutMs (payload d :: ds.map payload) turns now = r
    rcases r with ⟨now', turns', code | e⟩
    · rfl
    · dsimp only
      split
      · rfl
      · exact ih turns' now'

/-- **The wait takes the first match** of the packets that can be read. -/
theorem waitWithSender_eq_find (ds : List (Arrival Packet)) (turns : List Turn) (now : ℕ) :
    (waitWithSender bufSize transactionId start timeoutMs ds turns now).result.toOption =
      (readable start timeoutMs ds turns now).find? fun d =>
        isMatchingResponse transactionId (received bufSize (payload d)) := by
  induction ds generalizing turns now with
  | nil =>
    rw [waitWithSender, readable]
    generalize rrStunRecvUntil start timeoutMs [] turns now = r
    rcases r with ⟨now', turns', code | ⟨d, hd⟩⟩
    · rfl
    · cases hd
  | cons d ds ih =>
    rw [waitWithSender, readable]
    generalize rrStunRecvUntil start timeoutMs (payload d :: ds.map payload) turns now = r
    rcases r with ⟨now', turns', code | e⟩
    · rfl
    · dsimp only
      rw [List.find?_cons]
      split
      · rename_i hmatch
        rw [hmatch]
        rfl
      · rename_i hmatch
        rw [Bool.not_eq_true] at hmatch
        rw [hmatch]
        exact ih turns' now'

/-- What can be read comes first among the datagrams that arrive, since they are taken in the order
of their arrival. -/
theorem readable_isInitial (ds : List (Arrival Packet)) (turns : List Turn) (now : ℕ) :
    readable start timeoutMs ds turns now <+: ds := by
  induction ds generalizing turns now with
  | nil => exact List.nil_prefix
  | cons d ds ih =>
    rw [readable]
    split
    · exact List.nil_prefix
    · rw [List.prefix_cons_inj]
      exact ih _ _

/-- What is left after the wait are the last of the packets. -/
theorem waitWithSender_suffix (ds : List (Arrival Packet)) (turns : List Turn) (now : ℕ) :
    (waitWithSender bufSize transactionId start timeoutMs ds turns now).arrivals <:+ ds := by
  induction ds generalizing turns now with
  | nil =>
    rw [waitWithSender]
    generalize rrStunRecvUntil start timeoutMs [] turns now = r
    rcases r with ⟨now', turns', code | ⟨d, hd⟩⟩
    · exact List.suffix_rfl
    · cases hd
  | cons d ds ih =>
    rw [waitWithSender]
    split
    · exact List.suffix_rfl
    · split
      · exact List.suffix_cons d ds
      · exact (ih _ _).trans (List.suffix_cons d ds)

end Waiting

/-- A packet answers a request: the request is sent, and of the packets that can be read before
its deadline this is the first response with its transaction ID. -/
structure IsAnswer (timeoutMs : UInt32) (env : RequestEnv) (s : UdpSocket) (d : Arrival Packet) :
    Prop where
  sent : env.sendFails = false
  response : IsResponse env.transactionId (received stunBufferSize (payload d))
  first : ∃ pre post,
    readable (s.now + env.delay) timeoutMs s.arrivals s.turns (s.now + env.delay) =
        pre ++ d :: post ∧
      ∀ e ∈ pre, ¬ IsResponse env.transactionId (received stunBufferSize (payload e))

section Requests

variable {timeoutMs : UInt32} {env : RequestEnv} {s : UdpSocket}

/-- An answer is one of the datagrams that arrive at the socket. -/
theorem IsAnswer.mem {d : Arrival Packet} (h : IsAnswer timeoutMs env s d) : d ∈ s.arrivals := by
  obtain ⟨pre, post, hreadable, -⟩ := h.first
  have hmem : d ∈ pre ++ d :: post := List.mem_append_right _ List.mem_cons_self
  rw [← hreadable] at hmem
  exact (readable_isInitial _ _ _ _ _).subset hmem

/-- **A request has the response** that answers it, and no other one. -/
theorem exchangeRequest_eq_some_iff (dst : StunAddress) (changeFlags : UInt32)
    (d : Arrival Packet) :
    (exchangeRequest dst timeoutMs changeFlags env s).1 = some d ↔ IsAnswer timeoutMs env s d := by
  rw [exchangeRequest]
  by_cases hsent : env.sendFails = true
  · rw [if_pos hsent]
    constructor
    · intro h
      cases h
    · intro h
      rw [h.sent] at hsent
      cases hsent
  · rw [if_neg hsent]
    dsimp only
    rw [waitWithSender_eq_find, List.find?_eq_some_iff_append]
    rw [Bool.not_eq_true] at hsent
    simp only [isMatchingResponse_iff, Bool.not_eq_true', ← Bool.not_eq_true]
    constructor
    · rintro ⟨hresponse, pre, post, hreadable, hpre⟩
      exact ⟨hsent, hresponse, pre, post, hreadable, hpre⟩
    · rintro ⟨-, hresponse, pre, post, hreadable, hpre⟩
      exact ⟨hresponse, pre, post, hreadable, hpre⟩

/-- There is one answer at most: the first datagram that matches and comes in time. -/
theorem IsAnswer.unique {d e : Arrival Packet} (hd : IsAnswer timeoutMs env s d)
    (he : IsAnswer timeoutMs env s e) : e = d := by
  have hd' := (exchangeRequest_eq_some_iff ⟨0, 0⟩ 0 d).mpr hd
  have he' := (exchangeRequest_eq_some_iff ⟨0, 0⟩ 0 e).mpr he
  exact Option.some.inj (he'.symm.trans hd')

/-- An exchange takes datagrams from the front of those that arrive, and leaves the rest for the
next one. -/
theorem exchangeRequest_suffix (dst : StunAddress) (changeFlags : UInt32) :
    (exchangeRequest dst timeoutMs changeFlags env s).2.arrivals <:+ s.arrivals := by
  rw [exchangeRequest]
  split
  · exact List.suffix_rfl
  · exact waitWithSender_suffix _ _ _ _ _ _ _

/-- An exchange has no result exactly where no datagram answers it. -/
theorem exchangeRequest_eq_none_iff (dst : StunAddress) (changeFlags : UInt32) :
    (exchangeRequest dst timeoutMs changeFlags env s).1 = none ↔
      ∀ d, ¬ IsAnswer timeoutMs env s d := by
  rw [Option.eq_none_iff_forall_ne_some]
  simp only [ne_eq, exchangeRequest_eq_some_iff]

/-- **The first request** does, but for who sent what, the same as `rr_stun_binding_internal_addr`.
-/
theorem bindingOnSocket_report (dst : StunAddress) (responseOrigin other : AddressCells)
    (hsent : env.sendFails = false) :
    (bindingOnSocket dst timeoutMs responseOrigin other env s).map (·.1) =
      rrStunBindingInternalAddr env.transactionId (s.now + env.delay) timeoutMs responseOrigin other
        (s.arrivals.map payload) s.turns (s.now + env.delay) := by
  have hwait := waitWithSender_payload stunBufferSize env.transactionId (s.now + env.delay)
    timeoutMs s.arrivals s.turns (s.now + env.delay)
  rw [rrStunBindingInternalAddr, hwait, bindingOnSocket, exchangeRequest, hsent,
    if_neg Bool.false_ne_true]
  dsimp only
  generalize waitWithSender stunBufferSize env.transactionId (s.now + env.delay) timeoutMs
    s.arrivals s.turns (s.now + env.delay) = waited
  rcases waited with ⟨code | d, arrivals, turns, now⟩
  · rfl
  · simp only [Except.toOption, Except.map, Option.bind_eq_bind]
    cases readResponse (received stunBufferSize (payload d)) responseOrigin other <;> rfl

/-- The first request ends well or not, but what it reads lies in what was received. -/
theorem bindingOnSocket_isSome (timeoutMs : UInt32) (env : RequestEnv) (s : UdpSocket)
    (dst : StunAddress) (responseOrigin other : AddressCells) :
    ∃ report s', bindingOnSocket dst timeoutMs responseOrigin other env s = some (report, s') ∧
      s'.arrivals <:+ s.arrivals := by
  have hsuffix : (exchangeRequest dst timeoutMs 0 env s).2.arrivals <:+ s.arrivals :=
    exchangeRequest_suffix dst 0
  rw [bindingOnSocket]
  generalize exchangeRequest dst timeoutMs 0 env s = exchanged at hsuffix
  rcases exchanged with ⟨_ | d, s'⟩
  · exact ⟨_, s', rfl, hsuffix⟩
  · have hread := readResponse_eq (received stunBufferSize (payload d)) 0 responseOrigin other
    obtain ⟨⟨visited, report⟩, hread, -⟩ := Option.map_eq_some_iff.mp hread
    refine ⟨report, s', ?_, hsuffix⟩
    dsimp only
    rw [hread]
    rfl

/-- The discovery reads inside of what was received, whatever that is, and takes datagrams from the
front of the arrivals only. -/
theorem discovery_isSome (timeoutMs : UInt32) (env : RequestEnv) (s : UdpSocket)
    (primary : StunAddress) :
    ∃ discovered, discovery primary timeoutMs env s = some discovered ∧
      ∀ s' ∈ discovered, s'.arrivals <:+ s.arrivals := by
  obtain ⟨report, s', hbinding, hsuffix⟩ :=
    bindingOnSocket_isSome timeoutMs env s primary ⟨some 0, some 0⟩ ⟨some 0, some 0⟩
  rw [discovery, hbinding]
  simp only [Option.bind_eq_bind, Option.bind_some]
  split
  · exact ⟨none, rfl, fun s' hs' => by cases hs'⟩
  · split
    · exact ⟨none, rfl, fun s' hs' => by cases hs'⟩
    · refine ⟨some s', rfl, fun t ht => ?_⟩
      cases ht
      exact hsuffix

end Requests

/-! ### The verdict -/

/-- The verdict has evidence: the answer that a flag stands for came from elsewhere, where
`resolved` is the address of the server, and so there is no flag if all packets come from
there. -/
structure Evidence (resolved : Option StunAddress) (envChangeIpPort envChangePort : RequestEnv)
    (s : UdpSocket) (run : BehaviorRun) : Prop where
  changeIpPort : run.result.changeIpPort = true → ∃ primary ∈ resolved, ∃ d ∈ s.arrivals,
    IsResponse envChangeIpPort.transactionId (received stunBufferSize (payload d)) ∧
      run.fromChangeIpPort = some d.datagram.source ∧
      d.datagram.source.ip ≠ primary.ip ∧ d.datagram.source.port ≠ primary.port
  changePort : run.result.changePort = true → ∃ primary ∈ resolved, ∃ d ∈ s.arrivals,
    IsResponse envChangePort.transactionId (received stunBufferSize (payload d)) ∧
      run.fromChangePort = some d.datagram.source ∧ d.datagram.source.port ≠ primary.port
  ignored : (∀ d ∈ s.arrivals, some d.datagram.source = resolved) →
    run.result.changeIpPort = false ∧ run.result.changePort = false

/-- The requests that change something are answered from elsewhere: `s` is the socket before the
first of them. -/
structure AnsweredFromElsewhere (primary : StunAddress) (timeoutMs : UInt32)
    (envChangeIpPort envChangePort : RequestEnv) (s : UdpSocket) : Prop where
  changeIpPort : ∀ d, IsAnswer timeoutMs envChangeIpPort s d →
    d.datagram.source.ip ≠ primary.ip ∧ d.datagram.source.port ≠ primary.port
  changePort : (∀ d, ¬ IsAnswer timeoutMs envChangeIpPort s d) →
    ∀ d, IsAnswer timeoutMs envChangePort
        (exchangeRequest primary timeoutMs 0x06 envChangeIpPort s).2 d →
      d.datagram.source.port ≠ primary.port

/-- **A server that does what it is asked for**: the answers come from elsewhere if all responses
to the two requests do. -/
theorem AnsweredFromElsewhere.of_responses {primary : StunAddress} {timeoutMs : UInt32}
    {envChangeIpPort envChangePort : RequestEnv} {s : UdpSocket}
    (hchangeIpPort : ∀ d ∈ s.arrivals,
      IsResponse envChangeIpPort.transactionId (received stunBufferSize (payload d)) →
        d.datagram.source.ip ≠ primary.ip ∧ d.datagram.source.port ≠ primary.port)
    (hchangePort : ∀ d ∈ s.arrivals,
      IsResponse envChangePort.transactionId (received stunBufferSize (payload d)) →
        d.datagram.source.port ≠ primary.port) :
    AnsweredFromElsewhere primary timeoutMs envChangeIpPort envChangePort s where
  changeIpPort d hd := hchangeIpPort d hd.mem hd.response
  changePort _ d hd :=
    hchangePort d ((exchangeRequest_suffix primary 0x06).subset hd.mem) hd.response

section Verdict

variable {primary : StunAddress} {timeoutMs : UInt32} {envChangeIpPort envChangePort : RequestEnv}
variable {s : UdpSocket}

/-- The two requests of the filter test, with what answers them: the second one is sent only where
nothing answers the first. -/
theorem filterTests_eq :
    filterTests primary timeoutMs envChangeIpPort envChangePort s =
      let first := exchangeRequest primary timeoutMs 0x06 envChangeIpPort s
      match first.1, (exchangeRequest primary timeoutMs 0x02 envChangePort first.2).1 with
      | some d, _ => ⟨true, ⟨true, false, false, true⟩, some d.datagram.source, none⟩
      | none, some d => ⟨true, ⟨true, true, false, false⟩, none, some d.datagram.source⟩
      | none, none => ⟨true, ⟨true, false, false, false⟩, none, none⟩ := by
  unfold filterTests rrStunSendRequest
  generalize exchangeRequest primary timeoutMs 0x06 envChangeIpPort s = first
  rcases first with ⟨_ | d, s'⟩
  · dsimp only
    generalize exchangeRequest primary timeoutMs 0x02 envChangePort s' = second
    rcases second with ⟨_ | d, s''⟩ <;> rfl
  · rfl

/-- An answer to the first request decides: the server could reach the socket from another address
and port, and the second request is not sent. -/
theorem filterTests_of_answer {d : Arrival Packet} (h : IsAnswer timeoutMs envChangeIpPort s d) :
    filterTests primary timeoutMs envChangeIpPort envChangePort s =
      ⟨true, ⟨true, false, false, true⟩, some d.datagram.source, none⟩ := by
  have hfirst := (exchangeRequest_eq_some_iff primary 0x06 d).mpr h
  rw [filterTests_eq]
  dsimp only
  rw [hfirst]

/-- If there is none, the answer to the second request decides. -/
theorem filterTests_of_second {d : Arrival Packet}
    (hnone : ∀ d, ¬ IsAnswer timeoutMs envChangeIpPort s d)
    (h : IsAnswer timeoutMs envChangePort
      (exchangeRequest primary timeoutMs 0x06 envChangeIpPort s).2 d) :
    filterTests primary timeoutMs envChangeIpPort envChangePort s =
      ⟨true, ⟨true, true, false, false⟩, none, some d.datagram.source⟩ := by
  have hfirst := (exchangeRequest_eq_none_iff primary 0x06).mpr hnone
  have hsecond := (exchangeRequest_eq_some_iff primary 0x02 d).mpr h
  rw [filterTests_eq]
  dsimp only
  rw [hfirst, hsecond]

/-- Where nothing answers either of the requests, neither flag is set. -/
theorem filterTests_of_none (hnone : ∀ d, ¬ IsAnswer timeoutMs envChangeIpPort s d)
    (h : ∀ d, ¬ IsAnswer timeoutMs envChangePort
      (exchangeRequest primary timeoutMs 0x06 envChangeIpPort s).2 d) :
    filterTests primary timeoutMs envChangeIpPort envChangePort s =
      ⟨true, ⟨true, false, false, false⟩, none, none⟩ := by
  have hfirst := (exchangeRequest_eq_none_iff primary 0x06).mpr hnone
  have hsecond := (exchangeRequest_eq_none_iff primary 0x02).mpr h
  rw [filterTests_eq]
  dsimp only
  rw [hfirst, hsecond]

/-- A run that sets no flag has its evidence, whoever has sent what, since only flags need some. -/
theorem Evidence.of_no_flag {resolved : Option StunAddress} {run : BehaviorRun}
    (hchangeIpPort : run.result.changeIpPort = false)
    (hchangePort : run.result.changePort = false) :
    Evidence resolved envChangeIpPort envChangePort s run where
  changeIpPort h := absurd (hchangeIpPort.symm.trans h) Bool.false_ne_true
  changePort h := absurd (hchangePort.symm.trans h) Bool.false_ne_true
  ignored _ := ⟨hchangeIpPort, hchangePort⟩

/-- **The requests that change something**, on a socket on which `arrivals` came: their verdict
has evidence exactly if they are answered from elsewhere.  The cases are which of them is
answered. -/
theorem filterTests_evidence_iff {s₀ : UdpSocket} (hsuffix : s.arrivals <:+ s₀.arrivals) :
    Evidence (some primary) envChangeIpPort envChangePort s₀
        (filterTests primary timeoutMs envChangeIpPort envChangePort s) ↔
      AnsweredFromElsewhere primary timeoutMs envChangeIpPort envChangePort s := by
  by_cases hfirst : ∃ d, IsAnswer timeoutMs envChangeIpPort s d
  · obtain ⟨d, hd⟩ := hfirst
    rw [filterTests_of_answer hd]
    constructor
    · intro h
      obtain ⟨_, hprimary, e, -, -, hsource, hip, hport⟩ := h.changeIpPort rfl
      cases hprimary
      refine ⟨fun e' he' => ?_, fun hnone => absurd hd (hnone d)⟩
      rw [hd.unique he', Option.some.inj hsource]
      exact ⟨hip, hport⟩
    · intro h
      obtain ⟨hip, hport⟩ := h.changeIpPort d hd
      have hmem := hsuffix.subset hd.mem
      refine ⟨fun _ => ⟨primary, rfl, d, hmem, hd.response, rfl, hip, hport⟩,
        fun h => (by cases h), fun h => ?_⟩
      exact absurd (congrArg StunAddress.ip (Option.some.inj (h d hmem))) hip
  · rw [not_exists] at hfirst
    by_cases hsecond : ∃ d, IsAnswer timeoutMs envChangePort
        (exchangeRequest primary timeoutMs 0x06 envChangeIpPort s).2 d
    · obtain ⟨d, hd⟩ := hsecond
      rw [filterTests_of_second hfirst hd]
      constructor
      · intro h
        obtain ⟨_, hprimary, e, -, -, hsource, hport⟩ := h.changePort rfl
        cases hprimary
        refine ⟨fun e' he' => absurd he' (hfirst e'), fun _ e' he' => ?_⟩
        rw [hd.unique he', Option.some.inj hsource]
        exact hport
      · intro h
        have hport := h.changePort hfirst d hd
        have hmem := hsuffix.subset ((exchangeRequest_suffix primary 0x06).subset hd.mem)
        refine ⟨fun h => (by cases h), fun _ => ⟨primary, rfl, d, hmem, hd.response, rfl, hport⟩,
          fun h => ?_⟩
        exact absurd (congrArg StunAddress.port (Option.some.inj (h d hmem))) hport
    · rw [not_exists] at hsecond
      rw [filterTests_of_none hfirst hsecond]
      constructor
      · intro _
        exact ⟨fun d hd => absurd hd (hfirst d), fun _ d hd => absurd hd (hsecond d)⟩
      · intro _
        exact .of_no_flag rfl rfl

end Verdict

/-- **The verdict needs the server's help.**  Once the server was found to have two addresses, a
flag has evidence exactly if the answers to the requests that change something come from
elsewhere. -/
theorem stun_behavior_evidence_iff (resolve : CStr → UInt16 → Option StunAddress) (server : CStr)
    (serverPort : UInt16) (timeoutMs : UInt32)
    (envBinding envChangeIpPort envChangePort : RequestEnv) (s : UdpSocket) :
    ∃ run, rrStunBehaviorTest resolve server serverPort timeoutMs envBinding envChangeIpPort
        envChangePort s = some run ∧
      (Evidence (resolve server serverPort) envChangeIpPort envChangePort s run ↔
        ∀ primary s', resolve server serverPort = some primary →
          discovery primary timeoutMs envBinding s = some (some s') →
          AnsweredFromElsewhere primary timeoutMs envChangeIpPort envChangePort s') := by
  rw [rrStunBehaviorTest]
  cases hresolve : resolve server serverPort with
  | none => exact ⟨_, rfl, fun _ _ _ h => (by cases h), fun _ => .of_no_flag rfl rfl⟩
  | some primary =>
    obtain ⟨discovered, hdiscovery, hsuffix⟩ :=
      discovery_isSome timeoutMs envBinding s primary
    dsimp only
    rw [hdiscovery]
    cases discovered with
    | none =>
      refine ⟨_, rfl, fun _ primary' s' hprimary h => ?_, fun _ => .of_no_flag rfl rfl⟩
      cases hprimary
      rw [hdiscovery] at h
      cases h
    | some s' =>
      refine ⟨_, rfl, ?_⟩
      rw [filterTests_evidence_iff (hsuffix s' rfl)]
      constructor
      · intro h primary' s'' hprimary hs''
        cases hprimary
        rw [hdiscovery] at hs''
        cases hs''
        exact h
      · intro h
        exact h primary s' rfl hdiscovery

/-! ### A server that answers from where it was asked -/

/-- The address of a server. -/
def serverAddress : StunAddress := ⟨0x01020304, 3478⟩

/-- A transaction ID of ones. -/
def oneId : TransactionId := ⟨List.replicate 12 1, rfl⟩

/-- The attributes of a server that has a second address. -/
def twoAddresses : List PaddedAttribute :=
  [⟨⟨stunMappedAddress, ipv4Value 0x00 ⟨0xC0A80102, 0x1234⟩ []⟩, [], rfl⟩,
    ⟨⟨stunResponseOrigin, ipv4Value 0x00 serverAddress []⟩, [], rfl⟩,
    ⟨⟨stunOtherAddress, ipv4Value 0x00 ⟨0x05060708, 3479⟩ []⟩, [], rfl⟩]

/-- The server tells its addresses, and answers the next request from where it was asked. -/
def stubbornServer : UdpSocket :=
  ⟨[⟨0, successResponse zeroId twoAddresses, serverAddress⟩,
      ⟨0, bindingResponse oneId, serverAddress⟩], [], 0, []⟩

/-- The socket after the discovery of the example: the answer to the first request is taken, and
another one of the same server is still to come. -/
theorem discovery_stubbornServer :
    discovery serverAddress 10 ⟨zeroId, false, 0⟩ stubbornServer =
      some (some ⟨[⟨0, bindingResponse oneId, serverAddress⟩], [], 0,
        [(serverAddress, stunRequest 0 zeroId)]⟩) := by
  have hexchange : exchangeRequest serverAddress 10 0 ⟨zeroId, false, 0⟩ stubbornServer =
      (some ⟨0, successResponse zeroId twoAddresses, serverAddress⟩,
        ⟨[⟨0, bindingResponse oneId, serverAddress⟩], [], 0,
          [(serverAddress, stunRequest 0 zeroId)]⟩) := by
    rfl
  have hbytes : received stunBufferSize
      (payload ⟨0, successResponse zeroId twoAddresses, serverAddress⟩) =
        (successResponse zeroId twoAddresses).take 20 ++
          twoAddresses.flatMap PaddedAttribute.bytes := by
    decide
  have hloop := attributeLoop_flatMap ((successResponse zeroId twoAddresses).take 20) twoAddresses
    ⟨false, ⟨0, 0⟩, ⟨some 0, some 0⟩, ⟨some 0, some 0⟩⟩ (by decide)
  have hread : readResponse (received stunBufferSize
      (payload ⟨0, successResponse zeroId twoAddresses, serverAddress⟩)) ⟨some 0, some 0⟩
      ⟨some 0, some 0⟩ = some (twoAddresses.map (·.toStunAttribute),
        ⟨true, ⟨0xC0A80102, 0x1234⟩, ⟨some 0x01020304, some 3478⟩,
          ⟨some 0x05060708, some 3479⟩⟩) := by
    rw [readResponse, hbytes]
    refine (congrArg (· >>= _) hloop).trans ?_
    decide
  rw [discovery, bindingOnSocket, hexchange]
  dsimp only
  rw [hread]
  rfl

/-- **The server ignores what it is asked for**: it answers from its own address, and is said to
have changed both. -/
theorem stun_behavior_without_evidence :
    ¬ ∀ (resolve : CStr → UInt16 → Option StunAddress) (server : CStr) (serverPort : UInt16)
      (timeoutMs : UInt32) (envBinding envChangeIpPort envChangePort : RequestEnv) (s : UdpSocket)
      (run : BehaviorRun),
      rrStunBehaviorTest resolve server serverPort timeoutMs envBinding envChangeIpPort
          envChangePort s = some run →
        Evidence (resolve server serverPort) envChangeIpPort envChangePort s run := by
  intro h
  have hanswer : IsAnswer 10 ⟨oneId, false, 0⟩ ⟨[⟨0, bindingResponse oneId, serverAddress⟩], [], 0,
      [(serverAddress, stunRequest 0 zeroId)]⟩ ⟨0, bindingResponse oneId, serverAddress⟩ :=
    (exchangeRequest_eq_some_iff serverAddress 0x06 _).mp (by rfl)
  have hrun : rrStunBehaviorTest (fun _ _ => some serverAddress) (CStr.lit "stun") 3478 10
      ⟨zeroId, false, 0⟩ ⟨oneId, false, 0⟩ ⟨oneId, false, 0⟩ stubbornServer =
        some ⟨true, ⟨true, false, false, true⟩, some serverAddress, none⟩ := by
    rw [rrStunBehaviorTest]
    dsimp only
    rw [discovery_stubbornServer]
    exact congrArg some (filterTests_of_answer hanswer)
  obtain ⟨_, hprimary, d, -, -, hsource, hip, -⟩ := (h _ _ _ _ _ _ _ _ _ hrun).changeIpPort rfl
  cases hprimary
  exact hip (congrArg StunAddress.ip (Option.some.inj hsource)).symm

end RrLauncher
