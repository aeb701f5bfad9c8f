/-
# The ping test and the NAT test

`nat_test.c`: the two tests of the settings menu that ask STUN servers from the port of the
game.  The ping test keeps its socket for the next one, the NAT test closes that socket and works
with two of its own, one after the other.

Both bind the port of the game.  Over any number of tests no two sockets are open at once and
none is lost, whatever fails (`net_tests_sockets`).  What the NAT test says rests on two public
addresses and on which of the requests to answer from elsewhere is answered
(`nat_test_verdict`).
-/

import RrLauncher.Net.PrivatePort
import RrLauncher.Net.StunBehavior

namespace RrLauncher

open CStr (lit)

/-! ### The sockets -/

/-- What is done with sockets; `use` is a function of `stun.c` that gets the socket. -/
inductive SocketCall
  | socket (fd : ℕ)
  | bind (fd : ℕ) (port : UInt16) (bound : Bool)
  | use (fd : ℕ)
  | close (fd : ℕ)

/-- What the calls that open a socket find: the settings of the console, what `socket` returns,
whether `bind` succeeds, and what comes to the socket. -/
structure OpenEnv where
  setting : SettingFile
  socket : Option ℕ
  bound : Bool
  udp : UdpSocket

/-- An open socket: its descriptor, and what arrives at it. -/
structure OpenSocket where
  fd : ℕ
  udp : UdpSocket

/-- `rr_open_mkwii_udp_socket`. -/
def rrOpenMkwiiUdpSocket (env : OpenEnv) : Option OpenSocket × List SocketCall :=
  match rrGetMkwiiPrivatePort env.setting with
  | none => (none, [])
  | some port =>
    match env.socket with
    | none => (none, [])
    | some fd =>
      if env.bound then (some ⟨fd, env.udp⟩, [.socket fd, .bind fd port true])
      else (none, [.socket fd, .bind fd port false, .close fd])

/-- `rr_get_ping_socket`, where `ping` is `rr_ping_socket`. -/
def rrGetPingSocket (env : OpenEnv) (ping : Option OpenSocket) :
    Option OpenSocket × List SocketCall :=
  match ping with
  | some sock => (some sock, [])
  | none => rrOpenMkwiiUdpSocket env

/-- `rr_close_ping_socket`; `rr_ping_socket` is -1 behind it. -/
def rrClosePingSocket (ping : Option OpenSocket) : List SocketCall :=
  match ping with
  | some sock => [.close sock.fd]
  | none => []

/-! ### The ping test -/

/-- `struct timeval`. -/
structure Timeval where
  sec : ℤ
  usec : ℤ

/-- `gettimeofday`. -/
def gettimeofday (now : ℕ) : Timeval := ⟨(now / 1000000 : ℕ), (now % 1000000 : ℕ)⟩

/-- `rr_ping_elapsed_ms`. -/
def rrPingElapsedMs (start stop : Timeval) : UInt32 :=
  let sec := stop.sec - start.sec
  let usec := stop.usec - start.usec
  let (sec, usec) := if usec < 0 then (sec - 1, usec + 1000000) else (sec, usec)
  UInt32.ofInt (sec * 1000 + usec.tdiv 1000)

/-- `rr_ping_result_t`. -/
structure RrPingResult where
  success : Bool
  minMs : UInt32
  avgMs : UInt32
  maxMs : UInt32
  deriving DecidableEq

/-- `memset(result, 0, sizeof(*result))`. -/
def RrPingResult.zero : RrPingResult := ⟨false, 0, 0, 0⟩

/-- One round: the time that passes before the first look at the clock and before the second,
and what the request finds. -/
structure PingRound where
  before : ℕ
  request : RequestEnv
  after : ℕ

/-- What a ping test finds. -/
structure PingEnv where
  opening : OpenEnv
  resolve : CStr → UInt16 → Option StunAddress
  rounds : List PingRound
  length_rounds : rounds.length = 5

/-- What the rounds of the ping test count. -/
structure PingTotals where
  minMs : UInt32
  maxMs : UInt32
  totalMs : UInt32
  successful : UInt32

/-- `STUN_PING_TIMEOUT_MS`. -/
def stunPingTimeoutMs : UInt32 := 2000

/-- One round of the loop of `rr_ping_test_run`: how long it took if there was an answer, and the
socket behind it. -/
def pingRound (dst : StunAddress) (round : PingRound) (udp : UdpSocket) :
    Option UInt32 × UdpSocket :=
  let start := udp.now + round.before
  let (response, udp) := exchangeRequest dst stunPingTimeoutMs 0 round.request
    { udp with now := start }
  let stop := udp.now + round.after
  (response.map fun _ => rrPingElapsedMs (gettimeofday start) (gettimeofday stop),
    { udp with now := stop })

/-- A round with an answer is counted. -/
def PingTotals.add (totals : PingTotals) (elapsed : UInt32) : PingTotals where
  minMs := if elapsed < totals.minMs then elapsed else totals.minMs
  maxMs := if elapsed > totals.maxMs then elapsed else totals.maxMs
  totalMs := totals.totalMs + elapsed
  successful := totals.successful + 1

/-- The loop of `rr_ping_test_run`, one ping and one wait in each round. -/
def pingRounds (dst : StunAddress) :
    List PingRound → PingTotals → UdpSocket → PingTotals × UdpSocket
  | [], totals, udp => (totals, udp)
  | round :: rounds, totals, udp =>
    match pingRound dst round udp with
    | (none, udp) => pingRounds dst rounds totals udp
    | (some elapsed, udp) => pingRounds dst rounds (totals.add elapsed) udp

/-- How a ping test ends: what it returns and stores, `rr_ping_socket`, and what was done with
sockets. -/
structure PingRun where
  returned : Bool
  result : RrPingResult
  ping : Option OpenSocket
  calls : List SocketCall

/-- `rr_ping_test_run`. -/
def rrPingTestRun (env : PingEnv) (ping : Option OpenSocket) : PingRun :=
  match rrGetPingSocket env.opening ping with
  | (none, calls) => ⟨false, .zero, none, calls⟩
  | (some sock, calls) =>
    match env.resolve (lit "stun-anycast.l.google.com") 19302 with
    | none => ⟨false, .zero, some sock, calls⟩
    | some dst =>
      let (totals, udp) := pingRounds dst env.rounds ⟨0xffffffff, 0, 0, 0⟩ sock.udp
      let calls := calls ++ env.rounds.map fun _ => .use sock.fd
      if totals.successful = 0 then
        ⟨false, .zero, none, calls ++ rrClosePingSocket (some ⟨sock.fd, udp⟩)⟩
      else
        ⟨true, ⟨true, totals.minMs, totals.totalMs / totals.successful, totals.maxMs⟩,
          some ⟨sock.fd, udp⟩, calls⟩

/-! ### The NAT test -/

/-- `rr_nat_type_t`. -/
inductive RrNatType
  | unknown
  | endpointIndependent
  | symmetric
  deriving DecidableEq

/-- `rr_nat_filter_type_t`. -/
inductive RrNatFilterType
  | unknown
  | endpointIndependent
  | addressDependent
  | addressPortDependent
  deriving DecidableEq

/-- `rr_p2p_compatibility_t`. -/
inductive RrP2pCompatibility
  | unknown
  | good
  | fair
  | bad
  deriving DecidableEq

/-- `rr_nat_result_t`. -/
structure RrNatResult where
  stunServer2 : Bool
  stunServer1 : Bool
  stunBehavior : Bool
  publicServer2 : StunAddress
  publicServer1 : StunAddress
  udpOutbound : Bool
  natType : RrNatType
  natFilterType : RrNatFilterType
  udpInbound : Bool
  p2pCompatibility : RrP2pCompatibility
  deriving DecidableEq

/-- `memset(result, 0, sizeof(*result))`. -/
def RrNatResult.zero : RrNatResult :=
  ⟨false, false, false, ⟨0, 0⟩, ⟨0, 0⟩, false, .unknown, .unknown, false, .unknown⟩

/-- `10000`, the timeout of the requests. -/
def natTimeoutMs : UInt32 := 10000

/-- What the two tries to ask a server find. -/
structure Tries where
  first : RequestEnv
  second : RequestEnv

/-- What the test of the filter finds. -/
structure BehaviorEnv where
  binding : RequestEnv
  changeIpPort : RequestEnv
  changePort : RequestEnv

/-- What a NAT test finds. -/
structure NatEnv where
  setting : SettingFile
  opening : OpenEnv
  resolve : CStr → UInt16 → Option StunAddress
  server1 : Tries
  server2 : Tries
  behaviorOpening : OpenEnv
  behavior : BehaviorEnv

/-- A server is asked over the socket `fd` for the public address, and once more if that fails:
the address, if it tells one, and what is done with the socket. -/
def askServer (fd : ℕ) (address : Option StunAddress) (tries : Tries) (udp : UdpSocket) :
    Option ((Option StunAddress × List SocketCall) × UdpSocket) :=
  match address with
  | none => some ((none, []), udp)
  | some dst => do
    let (report, udp) ← bindingOnSocket dst natTimeoutMs ⟨none, none⟩ ⟨none, none⟩ tries.first udp
    if report.success then return ((some report.publicAddress, [.use fd]), udp)
    else
      let (report, udp) ←
        bindingOnSocket dst natTimeoutMs ⟨none, none⟩ ⟨none, none⟩ tries.second udp
      return ((if report.success then some report.publicAddress else none, [.use fd, .use fd]), udp)

/-- `nat_type`, from what the servers tell. -/
def natTypeOf : Option StunAddress → Option StunAddress → RrNatType
  | some a, some b => if a.ip = b.ip ∧ a.port = b.port then .endpointIndependent else .symmetric
  | _, _ => .unknown

/-- The second socket of `rr_nat_test_run`: `stun_behavior` and `nat_filter_type`, and what is
done with the socket. -/
def behaviorPart (env : NatEnv) : Option ((Bool × RrNatFilterType) × List SocketCall) :=
  match rrOpenMkwiiUdpSocket env.behaviorOpening with
  | (none, calls) => some ((false, .unknown), calls)
  | (some sock, calls) => do
    let run ← rrStunBehaviorTest env.resolve (lit "stunserver2025.stunprotocol.org") 3478
      natTimeoutMs env.behavior.binding env.behavior.changeIpPort env.behavior.changePort sock.udp
    let filter : RrNatFilterType :=
      if ¬ run.returned then .unknown
      else if run.result.changeIpPort then .endpointIndependent
      else if run.result.changePort then .addressDependent
      else .addressPortDependent
    return ((run.returned, filter), calls ++ [.use sock.fd, .close sock.fd])

/-- `p2p_compatibility`. -/
def compatibility (natType : RrNatType) (filter : RrNatFilterType) : RrP2pCompatibility :=
  if natType = .symmetric then .bad
  else if natType = .endpointIndependent then
    if filter = .endpointIndependent ∨ filter = .addressDependent then .good
    else if filter = .addressPortDependent then .fair
    else .unknown
  else .unknown

/-- How a NAT test ends: what it returns and stores, and what was done with sockets.
`rr_ping_socket` is -1. -/
structure NatRun where
  returned : Bool
  result : RrNatResult
  calls : List SocketCall

/-- `rr_nat_test_run`. -/
def rrNatTestRun (env : NatEnv) (ping : Option OpenSocket) : Option NatRun :=
  let calls := rrClosePingSocket ping
  match rrGetMkwiiPrivatePort env.setting with
  | none => some ⟨false, .zero, calls⟩
  | some _ =>
    match rrOpenMkwiiUdpSocket env.opening with
    | (none, opening) => some ⟨false, .zero, calls ++ opening⟩
    | (some sock, opening) => do
      let server1Addr := env.resolve (lit "stun.t-online.de") 3478
      let server2Addr := env.resolve (lit "stun.cloudflare.com") 3478
      let ((server1, asking1), udp) ← askServer sock.fd server1Addr env.server1 sock.udp
      let ((server2, asking2), _) ← askServer sock.fd server2Addr env.server2 udp
      let natType := natTypeOf server1 server2
      let ((stunBehavior, filter), behavior) ← behaviorPart env
      return ⟨true,
        { stunServer2 := server2.isSome
          stunServer1 := server1.isSome
          stunBehavior := stunBehavior
          publicServer2 := server2.getD ⟨0, 0⟩
          publicServer1 := server1.getD ⟨0, 0⟩
          udpOutbound := server1.isSome || server2.isSome
          natType := natType
          natFilterType := filter
          udpInbound := stunBehavior
          p2pCompatibility := compatibility natType filter },
        calls ++ (opening ++ (asking1 ++ (asking2 ++ (.close sock.fd :: behavior))))⟩

/-! ### Over any number of tests -/

/-- One of the two tests. -/
inductive NetTest
  | ping (env : PingEnv)
  | nat (env : NatEnv)

/-- A test of the settings menu: `rr_ping_socket` behind it, and what was done with sockets. -/
def NetTest.run (ping : Option OpenSocket) : NetTest → Option (Option OpenSocket × List SocketCall)
  | .ping env => some ((rrPingTestRun env ping).ping, (rrPingTestRun env ping).calls)
  | .nat env => (rrNatTestRun env ping).map fun run => (none, run.calls)

/-- The tests of a session. -/
def runNetTests (ping : Option OpenSocket) :
    List NetTest → Option (Option OpenSocket × List SocketCall)
  | [] => some (ping, [])
  | test :: tests => do
    let (ping, calls) ← test.run ping
    let (ping, later) ← runNetTests ping tests
    return (ping, calls ++ later)

/-- The one socket that may be open. -/
inductive SocketState
  | closed
  | created (fd : ℕ)
  | bound (fd : ℕ)
  deriving DecidableEq

/-- What a call needs and what comes of it. -/
def SocketState.next : SocketState → SocketCall → Option SocketState
  | .closed, .socket fd => some (.created fd)
  | .created fd, .bind fd' _ ok =>
    if fd' = fd then some (if ok then .bound fd else .created fd) else none
  | .created fd, .close fd' => if fd' = fd then some .closed else none
  | .bound fd, .use fd' => if fd' = fd then some (.bound fd) else none
  | .bound fd, .close fd' => if fd' = fd then some .closed else none
  | _, _ => none

/-- The socket that the ping test keeps. -/
def SocketState.kept (ping : Option OpenSocket) : SocketState :=
  match ping with
  | none => .closed
  | some sock => .bound sock.fd

/-- Calls that lead from one state to another. -/
def Leads (state : SocketState) (calls : List SocketCall) (state' : SocketState) : Prop :=
  calls.foldlM SocketState.next state = some state'

section Leads

variable {state state' state'' : SocketState} {calls later : List SocketCall}

/-- No call leads from each state to itself. -/
theorem Leads.nil (state : SocketState) : Leads state [] state := rfl

/-- Calls that follow each other lead from where the first ones start to where the last ones end. -/
theorem Leads.append (h : Leads state calls state') (h' : Leads state' later state'') :
    Leads state (calls ++ later) state'' := by
  rw [Leads, List.foldlM_append, h]
  exact h'

/-- One call that is allowed in the state, and then the calls that are allowed behind it. -/
theorem Leads.cons {call : SocketCall} (hnext : state.next call = some state')
    (h : Leads state' later state'') : Leads state (call :: later) state'' := by
  rw [Leads, List.foldlM_cons, hnext]
  exact h

/-- A bound socket may be used, and it stays bound. -/
theorem Leads.use (fd : ℕ) : Leads (.bound fd) [.use fd] (.bound fd) :=
  .cons (if_pos rfl) (.nil _)

/-- A bound socket may be closed, and then there is none. -/
theorem Leads.close (fd : ℕ) : Leads (.bound fd) [.close fd] .closed :=
  .cons (if_pos rfl) (.nil _)

/-- A bound socket may be used any number of times, once for each element of a list. -/
theorem Leads.use_map {α : Type} (fd : ℕ) (xs : List α) :
    Leads (.bound fd) (xs.map fun _ => .use fd) (.bound fd) := by
  induction xs with
  | nil => exact .nil _
  | cons x xs ih => exact .cons (if_pos rfl) ih

/-- **A socket is opened** and bound, or closed again where it cannot be bound; where it cannot be
opened there is none. -/
theorem rrOpenMkwiiUdpSocket_leads (env : OpenEnv) :
    Leads .closed (rrOpenMkwiiUdpSocket env).2 (.kept (rrOpenMkwiiUdpSocket env).1) := by
  unfold rrOpenMkwiiUdpSocket
  split
  · exact .nil _
  · split
    · exact .nil _
    · split
      · exact .cons rfl (.cons (if_pos rfl) (.nil _))
      · exact .cons rfl (.cons (if_pos rfl) (.cons (if_pos rfl) (.nil _)))

/-- **The socket of the ping test** is opened only where the test has kept none. Where it has kept
one, no call is made at all. -/
theorem rrGetPingSocket_leads (env : OpenEnv) (ping : Option OpenSocket) :
    Leads (.kept ping) (rrGetPingSocket env ping).2 (.kept (rrGetPingSocket env ping).1) := by
  cases ping with
  | none => exact rrOpenMkwiiUdpSocket_leads env
  | some sock => exact .nil _

/-- Closing the socket that the ping test keeps leaves none open, and makes no call if there was
none. -/
theorem rrClosePingSocket_leads (ping : Option OpenSocket) :
    Leads (.kept ping) (rrClosePingSocket ping) .closed := by
  cases ping with
  | none => exact .nil _
  | some sock => exact .close sock.fd

/-- **A ping test** starts and ends with the socket that is kept. -/
theorem rrPingTestRun_leads (env : PingEnv) (ping : Option OpenSocket) :
    Leads (.kept ping) (rrPingTestRun env ping).calls (.kept (rrPingTestRun env ping).ping) := by
  have hopen := rrGetPingSocket_leads env.opening ping
  unfold rrPingTestRun
  generalize rrGetPingSocket env.opening ping = opened at hopen
  rcases opened with ⟨_ | sock, calls⟩
  · exact hopen
  · dsimp only at hopen ⊢
    split
    · exact hopen
    · have hrounds := hopen.append (Leads.use_map sock.fd env.rounds)
      split
      · exact hrounds.append (.close sock.fd)
      · exact hrounds

end Leads

/-! ### What a server tells -/

/-- A request is answered with a public address. -/
def Tells (env : RequestEnv) (udp : UdpSocket) (a : StunAddress) : Prop :=
  a ≠ ⟨0, 0⟩ ∧ ∃ d, IsAnswer natTimeoutMs env udp d ∧
    lastAddress StunAttribute.publicAddress
      (attributesFrom (received stunBufferSize (payload d)) 20) = some a

/-- The socket behind a request to `dst`. -/
def UdpSocket.behind (udp : UdpSocket) (dst : StunAddress) (env : RequestEnv) : UdpSocket :=
  (exchangeRequest dst natTimeoutMs 0 env udp).2

/-- What comes of asking a server, if its name can be resolved: the address that the first try
gets, or else the second. -/
inductive Asked (tries : Tries) (udp : UdpSocket) :
    Option StunAddress → Option StunAddress → UdpSocket → Prop
  | unresolved : Asked tries udp none none udp
  | first {dst a : StunAddress} (h : Tells tries.first udp a) :
      Asked tries udp (some dst) (some a) (udp.behind dst tries.first)
  | second {dst a : StunAddress} (h : ∀ b, ¬ Tells tries.first udp b)
      (h' : Tells tries.second (udp.behind dst tries.first) a) :
      Asked tries udp (some dst) (some a) ((udp.behind dst tries.first).behind dst tries.second)
  | never {dst : StunAddress} (h : ∀ b, ¬ Tells tries.first udp b)
      (h' : ∀ b, ¬ Tells tries.second (udp.behind dst tries.first) b) :
      Asked tries udp (some dst) none ((udp.behind dst tries.first).behind dst tries.second)

/-- A server tells one address at most: the datagram that answers the request is unique, and so is
the last attribute in it that has an address. -/
theorem Tells.unique {env : RequestEnv} {udp : UdpSocket} {a b : StunAddress}
    (ha : Tells env udp a) (hb : Tells env udp b) : b = a := by
  obtain ⟨-, d, hd, hlast⟩ := ha
  obtain ⟨-, e, he, hlast'⟩ := hb
  rw [hd.unique he, hlast] at hlast'
  exact (Option.some.inj hlast').symm

/-- The address that stands for no address at all is the one whose two numbers are zero. -/
theorem StunAddress.eq_zero_iff (a : StunAddress) : a = ⟨0, 0⟩ ↔ a.ip = 0 ∧ a.port = 0 := by
  rw [StunAddress.mk.injEq]

/-- **A Binding request** succeeds exactly if it is answered with a public address. -/
theorem bindingOnSocket_tells (dst : StunAddress) (env : RequestEnv) (udp : UdpSocket) :
    ∃ report, bindingOnSocket dst natTimeoutMs ⟨none, none⟩ ⟨none, none⟩ env udp =
        some (report, udp.behind dst env) ∧
      ((report.success = true ∧ Tells env udp report.publicAddress) ∨
        (report.success = false ∧ ∀ b, ¬ Tells env udp b)) := by
  have hanswer : ∀ d, (exchangeRequest dst natTimeoutMs 0 env udp).1 = some d ↔
      IsAnswer natTimeoutMs env udp d := exchangeRequest_eq_some_iff dst 0
  rw [bindingOnSocket, UdpSocket.behind]
  generalize exchangeRequest dst natTimeoutMs 0 env udp = exchanged at hanswer
  rcases exchanged with ⟨_ | d, udp'⟩
  · refine ⟨_, rfl, Or.inr ⟨rfl, fun b hb => ?_⟩⟩
    obtain ⟨-, d, hd, -⟩ := hb
    exact absurd ((hanswer d).mpr hd) (by simp)
  · have hd := (hanswer d).mp rfl
    -- what the loop leaves in `result`
    have hread : ∃ visited report, readResponse (received stunBufferSize (payload d)) ⟨none, none⟩
        ⟨none, none⟩ = some (visited, report) ∧
          report.publicAddress = (lastAddress StunAttribute.publicAddress
            (attributesFrom (received stunBufferSize (payload d)) 20)).getD ⟨0, 0⟩ ∧
          report.success = (report.publicAddress.ip ≠ 0 || report.publicAddress.port ≠ 0) := by
      rw [readResponse, attributeLoop_eq, foldl_add]
      exact ⟨_, _, rfl, rfl, rfl⟩
    obtain ⟨visited, report, hread, hpublic, hsuccess⟩ := hread
    have hnonzero : report.success = true ↔ report.publicAddress ≠ ⟨0, 0⟩ := by
      rw [hsuccess, Bool.or_eq_true, decide_eq_true_eq, decide_eq_true_eq, ne_eq report.publicAddress,
        StunAddress.eq_zero_iff, not_and_or]
    have htells : ∀ b, Tells env udp b ↔ b ≠ ⟨0, 0⟩ ∧ lastAddress StunAttribute.publicAddress
        (attributesFrom (received stunBufferSize (payload d)) 20) = some b := by
      refine fun b => and_congr_right fun _ => ⟨?_, fun h => ⟨d, hd, h⟩⟩
      rintro ⟨e, he, h⟩
      rwa [hd.unique he] at h
    refine ⟨report, ?_, ?_⟩
    · dsimp only
      rw [hread]
      rfl
    · by_cases hzero : report.publicAddress = ⟨0, 0⟩
      · refine Or.inr ⟨Bool.not_eq_true _ ▸ mt hnonzero.mp (not_not.mpr hzero), fun b hb => ?_⟩
        obtain ⟨hne, hlast⟩ := (htells b).mp hb
        rw [hlast, Option.getD_some] at hpublic
        exact hne (hpublic ▸ hzero)
      · refine Or.inl ⟨hnonzero.mpr hzero, (htells _).mpr ⟨hzero, ?_⟩⟩
        cases hlast : lastAddress StunAttribute.publicAddress
            (attributesFrom (received stunBufferSize (payload d)) 20) with
        | none =>
          rw [hlast, Option.getD_none] at hpublic
          exact absurd hpublic hzero
        | some a => rw [hpublic, hlast, Option.getD_some]

/-- **A server is asked** as the two tries say, where its name can be resolved, and the socket stays
bound. -/
theorem askServer_asked (fd : ℕ) (address : Option StunAddress) (tries : Tries) (udp : UdpSocket) :
    ∃ told calls udp', askServer fd address tries udp = some ((told, calls), udp') ∧
      Asked tries udp address told udp' ∧ Leads (.bound fd) calls (.bound fd) := by
  cases address with
  | none => exact ⟨_, _, _, rfl, .unresolved, .nil _⟩
  | some dst =>
    obtain ⟨report, hfirst, hreport⟩ := bindingOnSocket_tells dst tries.first udp
    obtain ⟨report', hsecond, hreport'⟩ :=
      bindingOnSocket_tells dst tries.second (udp.behind dst tries.first)
    simp only [askServer, hfirst, hsecond, Option.bind_eq_bind, Option.bind_some]
    rcases hreport with ⟨hsuccess, htells⟩ | ⟨hfail, hnone⟩
    · rw [if_pos hsuccess]
      exact ⟨_, _, _, rfl, .first htells, .use fd⟩
    · rw [if_neg (by simp [hfail])]
      refine ⟨_, _, _, rfl, ?_, (Leads.use fd).append (.use fd)⟩
      rcases hreport' with ⟨hsuccess, htells⟩ | ⟨hfail', hnone'⟩
      · rw [if_pos hsuccess]
        exact .second hnone htells
      · rw [if_neg (by simp [hfail'])]
        exact .never hnone hnone'

/-! ### What the filter lets through -/

/-- The server of the second part has told both of its addresses: `udp` is the socket then. -/
def Discovered (env : NatEnv) (primary : StunAddress) (udp : UdpSocket) : Prop :=
  ∃ sock calls, rrOpenMkwiiUdpSocket env.behaviorOpening = (some sock, calls) ∧
    env.resolve (lit "stunserver2025.stunprotocol.org") 3478 = some primary ∧
    discovery primary natTimeoutMs env.behavior.binding sock.udp = some (some udp)

/-- Which of the requests to answer from elsewhere is answered. -/
inductive Filtered (env : NatEnv) : RrNatFilterType → Prop
  | unknown (h : ∀ primary udp, ¬ Discovered env primary udp) : Filtered env .unknown
  | changeIpPort {primary : StunAddress} {udp : UdpSocket} {d : TimedQueue.Arrival Packet}
      (h : Discovered env primary udp)
      (hd : IsAnswer natTimeoutMs env.behavior.changeIpPort udp d) :
      Filtered env .endpointIndependent
  | changePort {primary : StunAddress} {udp : UdpSocket} {d : TimedQueue.Arrival Packet}
      (h : Discovered env primary udp)
      (hnone : ∀ d, ¬ IsAnswer natTimeoutMs env.behavior.changeIpPort udp d)
      (hd : IsAnswer natTimeoutMs env.behavior.changePort
        (exchangeRequest primary natTimeoutMs 0x06 env.behavior.changeIpPort udp).2 d) :
      Filtered env .addressDependent
  | neither {primary : StunAddress} {udp : UdpSocket} (h : Discovered env primary udp)
      (hnone : ∀ d, ¬ IsAnswer natTimeoutMs env.behavior.changeIpPort udp d)
      (hnone' : ∀ d, ¬ IsAnswer natTimeoutMs env.behavior.changePort
        (exchangeRequest primary natTimeoutMs 0x06 env.behavior.changeIpPort udp).2 d) :
      Filtered env .addressPortDependent

/-- **The second part** of the NAT test: it always comes to an end, its filter type is the one that
the answers show, and the socket that it opens is closed again. -/
theorem behaviorPart_filtered (env : NatEnv) :
    ∃ filter calls, behaviorPart env = some ((decide (filter ≠ .unknown), filter), calls) ∧
      Filtered env filter ∧ Leads .closed calls .closed := by
  have hleads := rrOpenMkwiiUdpSocket_leads env.behaviorOpening
  unfold behaviorPart
  cases hopen : rrOpenMkwiiUdpSocket env.behaviorOpening with
  | mk opened calls =>
    rw [hopen] at hleads
    cases opened with
    | none =>
      refine ⟨.unknown, calls, rfl, .unknown fun primary udp h => ?_, hleads⟩
      obtain ⟨sock, calls', hopen', -⟩ := h
      rw [hopen] at hopen'
      cases hopen'
    | some sock =>
      have hclose : Leads .closed (calls ++ [.use sock.fd, .close sock.fd]) .closed :=
        hleads.append ((Leads.use sock.fd).append (.close sock.fd))
      dsimp only
      rw [rrStunBehaviorTest]
      cases hresolve : env.resolve (lit "stunserver2025.stunprotocol.org") 3478 with
      | none =>
        refine ⟨.unknown, _, rfl, .unknown fun primary udp h => ?_, hclose⟩
        obtain ⟨sock', calls', -, hresolve', -⟩ := h
        rw [hresolve] at hresolve'
        cases hresolve'
      | some primary =>
        obtain ⟨discovered, hdiscovery, -⟩ :=
          discovery_isSome natTimeoutMs env.behavior.binding sock.udp primary
        dsimp only
        rw [hdiscovery]
        cases discovered with
        | none =>
          refine ⟨.unknown, _, rfl, .unknown fun primary' udp h => ?_, hclose⟩
          obtain ⟨sock', calls', hopen', hresolve', hdiscovery'⟩ := h
          rw [hopen] at hopen'
          rw [hresolve] at hresolve'
          cases hopen'
          cases hresolve'
          rw [hdiscovery] at hdiscovery'
          cases hdiscovery'
        | some udp =>
          have hdiscovered : Discovered env primary udp :=
            ⟨sock, calls, hopen, hresolve, hdiscovery⟩
          simp only [Option.bind_eq_bind, Option.bind_some]
          by_cases hfirst : ∃ d, IsAnswer natTimeoutMs env.behavior.changeIpPort udp d
          · obtain ⟨d, hd⟩ := hfirst
            rw [filterTests_of_answer hd]
            exact ⟨.endpointIndependent, _, rfl, .changeIpPort hdiscovered hd, hclose⟩
          · rw [not_exists] at hfirst
            by_cases hsecond : ∃ d, IsAnswer natTimeoutMs env.behavior.changePort
                (exchangeRequest primary natTimeoutMs 0x06 env.behavior.changeIpPort udp).2 d
            · obtain ⟨d, hd⟩ := hsecond
              rw [filterTests_of_second hfirst hd]
              exact ⟨.addressDependent, _, rfl, .changePort hdiscovered hfirst hd, hclose⟩
            · rw [not_exists] at hsecond
              rw [filterTests_of_none hfirst hsecond]
              exact ⟨.addressPortDependent, _, rfl, .neither hdiscovered hfirst hsecond, hclose⟩

/-! ### The verdict -/

/-- A NAT test says what its three parts found: `told₁` and `told₂` are the addresses that the two
servers told. -/
structure Verdict (told₁ told₂ : Option StunAddress) (filter : RrNatFilterType)
    (result : RrNatResult) : Prop where
  server₁ : ∀ a, result.stunServer1 = true ∧ result.publicServer1 = a ↔ told₁ = some a
  server₂ : ∀ a, result.stunServer2 = true ∧ result.publicServer2 = a ↔ told₂ = some a
  outbound : result.udpOutbound = true ↔ ∃ a, told₁ = some a ∨ told₂ = some a
  inbound : result.udpInbound = true ↔ filter ≠ .unknown
  natFilterType : result.natFilterType = filter
  bad : result.p2pCompatibility = .bad ↔ ∃ a b, told₁ = some a ∧ told₂ = some b ∧ a ≠ b
  good : result.p2pCompatibility = .good ↔ (∃ a, told₁ = some a ∧ told₂ = some a) ∧
    (filter = .endpointIndependent ∨ filter = .addressDependent)
  fair : result.p2pCompatibility = .fair ↔ (∃ a, told₁ = some a ∧ told₂ = some a) ∧
    filter = .addressPortDependent

/-- The type of the NAT, from the two addresses that the servers told: unknown if one is missing,
and otherwise by whether they are the same. -/
theorem natTypeOf_cases (told₁ told₂ : Option StunAddress) :
    (natTypeOf told₁ told₂ = .unknown ∧ ∀ a b, told₁ = some a → told₂ ≠ some b) ∨
      (natTypeOf told₁ told₂ = .endpointIndependent ∧ ∃ a, told₁ = some a ∧ told₂ = some a) ∨
        (natTypeOf told₁ told₂ = .symmetric ∧
          ∃ a b, told₁ = some a ∧ told₂ = some b ∧ a ≠ b) := by
  rcases told₁ with _ | a
  · exact Or.inl ⟨rfl, fun _ _ h => by cases h⟩
  · rcases told₂ with _ | b
    · exact Or.inl ⟨rfl, fun _ _ _ h => by cases h⟩
    · have heq : a = b ↔ a.ip = b.ip ∧ a.port = b.port := by
        cases a
        cases b
        rw [StunAddress.mk.injEq]
      rw [natTypeOf]
      by_cases h : a.ip = b.ip ∧ a.port = b.port
      · rw [if_pos h, heq.mpr h]
        exact Or.inr (Or.inl ⟨rfl, b, rfl, rfl⟩)
      · rw [if_neg h]
        exact Or.inr (Or.inr ⟨rfl, a, b, rfl, rfl, mt heq.mp h⟩)

/-- **The compatibility** rests on whether the addresses agree and on the filter. -/
theorem compatibility_iff (told₁ told₂ : Option StunAddress) (filter : RrNatFilterType) :
    (compatibility (natTypeOf told₁ told₂) filter = .bad ↔
      ∃ a b, told₁ = some a ∧ told₂ = some b ∧ a ≠ b) ∧
    (compatibility (natTypeOf told₁ told₂) filter = .good ↔
      (∃ a, told₁ = some a ∧ told₂ = some a) ∧
        (filter = .endpointIndependent ∨ filter = .addressDependent)) ∧
    (compatibility (natTypeOf told₁ told₂) filter = .fair ↔
      (∃ a, told₁ = some a ∧ told₂ = some a) ∧ filter = .addressPortDependent) := by
  rcases natTypeOf_cases told₁ told₂ with ⟨htype, hnone⟩ | ⟨htype, a, rfl, rfl⟩ |
    ⟨htype, a, b, rfl, rfl, hne⟩
  · have hboth : ¬ ∃ a, told₁ = some a ∧ told₂ = some a := by
      rintro ⟨a, h₁, h₂⟩
      exact hnone a a h₁ h₂
    have hdiffer : ¬ ∃ a b, told₁ = some a ∧ told₂ = some b ∧ a ≠ b := by
      rintro ⟨a, b, h₁, h₂, -⟩
      exact hnone a b h₁ h₂
    simp only [htype, compatibility, hboth, hdiffer]
    simp
  · rw [htype]
    cases filter <;> simp [compatibility]
  · rw [htype]
    simp [compatibility, hne, hne.symm]

/-- **The verdict of the NAT test.**  It returns true exactly if there are a port and a socket, and
then it tells the address that each of the servers told in one of two tries, and which of the
requests to answer from elsewhere was answered.  It says BAD exactly if the servers told two
different addresses, and GOOD or FAIR only if they told the same one. -/
theorem nat_test_verdict (env : NatEnv) (ping : Option OpenSocket) :
    ∃ run, rrNatTestRun env ping = some run ∧
      (run.returned = true ↔ ∃ port sock, rrGetMkwiiPrivatePort env.setting = some port ∧
        (rrOpenMkwiiUdpSocket env.opening).1 = some sock) ∧
      (run.returned = true → ∃ sock, (rrOpenMkwiiUdpSocket env.opening).1 = some sock ∧
        ∃ told₁ udp₁ told₂ udp₂ filter,
          Asked env.server1 sock.udp (env.resolve (lit "stun.t-online.de") 3478) told₁ udp₁ ∧
          Asked env.server2 udp₁ (env.resolve (lit "stun.cloudflare.com") 3478) told₂ udp₂ ∧
          Filtered env filter ∧ Verdict told₁ told₂ filter run.result) ∧
      (run.returned = false → run.result = .zero) := by
  unfold rrNatTestRun
  cases hport : rrGetMkwiiPrivatePort env.setting with
  | none => simp
  | some port =>
    dsimp only
    rcases rrOpenMkwiiUdpSocket env.opening with ⟨_ | sock, opening⟩
    · simp
    · obtain ⟨told₁, calls₁, udp₁, hask₁, hasked₁, -⟩ :=
        askServer_asked sock.fd (env.resolve (lit "stun.t-online.de") 3478) env.server1 sock.udp
      obtain ⟨told₂, calls₂, udp₂, hask₂, hasked₂, -⟩ :=
        askServer_asked sock.fd (env.resolve (lit "stun.cloudflare.com") 3478) env.server2 udp₁
      obtain ⟨filter, calls, hpart, hfiltered, -⟩ := behaviorPart_filtered env
      simp only [hask₁, hask₂, hpart, Option.bind_eq_bind, Option.bind_some]
      obtain ⟨hbad, hgood, hfair⟩ := compatibility_iff told₁ told₂ filter
      refine ⟨_, rfl, ⟨fun _ => ⟨port, sock, rfl, rfl⟩, fun _ => rfl⟩, fun _ => ⟨sock, rfl, told₁, udp₁,
        told₂, udp₂, filter, hasked₁, hasked₂, hfiltered, ?_⟩, fun h => by cases h⟩
      constructor
      · cases told₁ <;> simp
      · cases told₂ <;> simp
      · cases told₁ <;> cases told₂ <;> simp
      · simp
      · rfl
      · exact hbad
      · exact hgood
      · exact hfair

/-! ### Over all tests -/

/-- **A NAT test** closes the socket that is kept and every other. -/
theorem rrNatTestRun_leads (env : NatEnv) (ping : Option OpenSocket) :
    ∃ run, rrNatTestRun env ping = some run ∧ Leads (.kept ping) run.calls .closed := by
  have hping := rrClosePingSocket_leads ping
  have hopen := rrOpenMkwiiUdpSocket_leads env.opening
  unfold rrNatTestRun
  split
  · exact ⟨_, rfl, hping⟩
  · generalize rrOpenMkwiiUdpSocket env.opening = opened at hopen
    rcases opened with ⟨_ | sock, opening⟩
    · exact ⟨_, rfl, hping.append hopen⟩
    · obtain ⟨told₁, calls₁, udp₁, hask₁, -, hleads₁⟩ :=
        askServer_asked sock.fd (env.resolve (lit "stun.t-online.de") 3478) env.server1 sock.udp
      obtain ⟨told₂, calls₂, udp₂, hask₂, -, hleads₂⟩ :=
        askServer_asked sock.fd (env.resolve (lit "stun.cloudflare.com") 3478) env.server2 udp₁
      obtain ⟨filter, calls, hpart, -, hbehavior⟩ := behaviorPart_filtered env
      simp only [hask₁, hask₂, hpart, Option.bind_eq_bind, Option.bind_some]
      exact ⟨_, rfl, hping.append (hopen.append (hleads₁.append (hleads₂.append
        ((Leads.close sock.fd).append hbehavior))))⟩

/-- **One test**, of either kind, started with whatever socket the ping test has kept: its calls
lead from that socket to the one that is kept behind it. -/
theorem NetTest.run_leads (test : NetTest) (ping : Option OpenSocket) :
    ∃ ping' calls, test.run ping = some (ping', calls) ∧ Leads (.kept ping) calls (.kept ping') := by
  cases test with
  | ping env => exact ⟨_, _, rfl, rrPingTestRun_leads env ping⟩
  | nat env =>
    obtain ⟨run, hrun, hleads⟩ := rrNatTestRun_leads env ping
    exact ⟨none, run.calls, by rw [NetTest.run, hrun]; rfl, hleads⟩

/-- **The sockets of the tests.**  Whatever tests are made one after the other, and whatever fails
in them: a socket is opened only when no other is, used only when it is bound, and closed once.
Behind them only the socket that the ping test keeps is open. -/
theorem net_tests_sockets (tests : List NetTest) (ping : Option OpenSocket) :
    ∃ ping' calls, runNetTests ping tests = some (ping', calls) ∧
      Leads (.kept ping) calls (.kept ping') := by
  induction tests generalizing ping with
  | nil => exact ⟨ping, [], rfl, .nil _⟩
  | cons test tests ih =>
    obtain ⟨ping₁, calls, hrun, hleads⟩ := test.run_leads ping
    obtain ⟨ping₂, later, hruns, hleads'⟩ := ih ping₁
    refine ⟨ping₂, calls ++ later, ?_, hleads.append hleads'⟩
    simp only [runNetTests, hrun, hruns, Option.bind_eq_bind, Option.bind_some]
    rfl

end RrLauncher
