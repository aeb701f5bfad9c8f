/-
# Discovery of the UPnP device

`rr_upnp_discover` of `upnp.c`: after the search was sent, replies are read until one
leads to a control URL or the timeout is over.

The time is not read from a clock.  Each turn of the loop waits for at most 100 ms and
adds all of them to `elapsed`, also when a reply comes at once.  So the replies of other
devices use up the timeout, 100 ms for each (`upnp_discover_misses_gateway`), and a
gateway that answers in time is found just if they leave enough of it
(`upnp_discover_in_time_iff`).
-/

import RrLauncher.Lib.TimedQueue
import RrLauncher.Net.Upnp

namespace RrLauncher

open TimedQueue
open CStr (lit)

section Discover

variable (exchange : Exchange)

/-- What the loop of `rr_upnp_discover` does with a datagram: whether the device was
found, and the device. -/
def receiveReply (datagram : List UInt8) (device : RrUpnpDevice) : Bool × RrUpnpDevice :=
  let buf := datagram.take 2047
  if buf = [] then (false, device)
  else
    match rrExtractHeader (CStr.ofBuffer buf) (lit "LOCATION") 256 with
    | none => (false, device)
    | some location =>
      let device := { device with location }
      match rrFetchControlUrl exchange device with
      | some device => (true, device)
      | none => (false, device)

/-- The loop of `rr_upnp_discover`, when the clock says `now`. -/
def rrUpnpDiscoverLoop (timeoutMs elapsed now : ℕ) (ds : List (Arrival (List UInt8)))
    (device : RrUpnpDevice) : Bool × RrUpnpDevice :=
  if elapsed < timeoutMs then
    let remaining := timeoutMs - elapsed
    let waitMs := if remaining < 100 then remaining else 100
    let (ready, now) := select now (waitMs * 1000) ds
    match ready, ds with
    | true, d :: ds =>
      match receiveReply exchange d.datagram device with
      | (true, device) => (true, device)
      | (false, device) => rrUpnpDiscoverLoop timeoutMs (elapsed + waitMs) now ds device
    | _, ds => rrUpnpDiscoverLoop timeoutMs (elapsed + waitMs) now ds device
  else (false, device)
termination_by timeoutMs - elapsed
decreasing_by
  all_goals
    split <;> omega

/-- `rr_upnp_discover`, where the search was sent at time 0. -/
def rrUpnpDiscover (timeoutMs : UInt32) (ds : List (Arrival (List UInt8))) :
    Bool × RrUpnpDevice :=
  rrUpnpDiscoverLoop exchange timeoutMs.toNat 0 0 ds .zero

/-- A reply with a LOCATION header whose description yields a control URL. -/
def isGateway (datagram : List UInt8) : Bool :=
  ((rrExtractHeader (CStr.ofBuffer (datagram.take 2047)) (lit "LOCATION") 256).bind
    (fetchControlUrl exchange)).isSome

/-- Whether a reply ends the search depends on the datagram and on what the network answers, not on
the device that was filled before. -/
theorem receiveReply_fst (datagram : List UInt8) (device : RrUpnpDevice) :
    (receiveReply exchange datagram device).1 = isGateway exchange datagram := by
  unfold receiveReply isGateway
  dsimp only
  split
  · rename_i hempty
    rw [hempty, show CStr.ofBuffer [] = lit "" from rfl, rrExtractHeader, if_pos (by decide)]
    rfl
  · cases rrExtractHeader (CStr.ofBuffer (datagram.take 2047)) (lit "LOCATION") 256 with
    | none => rfl
    | some location =>
      unfold rrFetchControlUrl
      dsimp only [Option.bind_some]
      cases fetchControlUrl exchange location <;> rfl

/-! ### One turn -/

/-- From the timeout on the loop does nothing more. -/
theorem rrUpnpDiscoverLoop_over {timeoutMs elapsed : ℕ} (h : timeoutMs ≤ elapsed) (now : ℕ)
    (ds : List (Arrival (List UInt8))) (device : RrUpnpDevice) :
    rrUpnpDiscoverLoop exchange timeoutMs elapsed now ds device = (false, device) := by
  rw [rrUpnpDiscoverLoop, if_neg (by omega)]

/-- The wait of a turn in milliseconds. -/
def waitMs (timeoutMs elapsed : ℕ) : ℕ :=
  if timeoutMs - elapsed < 100 then timeoutMs - elapsed else 100

/-- A turn in which the next datagram does not come. -/
theorem rrUpnpDiscoverLoop_quiet {timeoutMs elapsed now : ℕ} (hlt : elapsed < timeoutMs)
    {ds : List (Arrival (List UInt8))}
    (hquiet : ∀ d ∈ ds.head?, now < d.time ∧ now + waitMs timeoutMs elapsed * 1000 ≤ d.time)
    (device : RrUpnpDevice) :
    rrUpnpDiscoverLoop exchange timeoutMs elapsed now ds device =
      rrUpnpDiscoverLoop exchange timeoutMs (elapsed + waitMs timeoutMs elapsed)
        (now + waitMs timeoutMs elapsed * 1000) ds device := by
  rw [rrUpnpDiscoverLoop, if_pos hlt]
  dsimp only
  rw [show (if timeoutMs - elapsed < 100 then timeoutMs - elapsed else 100) =
    waitMs timeoutMs elapsed from rfl, select_timeout hquiet]

/-- A turn in which the next datagram comes takes that datagram, and counts as much as the wait was
set to, however soon it came. -/
theorem rrUpnpDiscoverLoop_ready {timeoutMs elapsed now : ℕ} (hlt : elapsed < timeoutMs)
    {d : Arrival (List UInt8)} (ds : List (Arrival (List UInt8)))
    (hready : d.time ≤ now ∨ d.time < now + waitMs timeoutMs elapsed * 1000)
    (device : RrUpnpDevice) :
    ∃ device', rrUpnpDiscoverLoop exchange timeoutMs elapsed now (d :: ds) device =
      if isGateway exchange d.datagram then (true, device')
      else rrUpnpDiscoverLoop exchange timeoutMs (elapsed + waitMs timeoutMs elapsed)
        (max now d.time) ds device' := by
  have hfst := receiveReply_fst exchange d.datagram device
  refine ⟨(receiveReply exchange d.datagram device).2, ?_⟩
  rw [rrUpnpDiscoverLoop, if_pos hlt]
  dsimp only
  rw [show (if timeoutMs - elapsed < 100 then timeoutMs - elapsed else 100) =
    waitMs timeoutMs elapsed from rfl, select_ready ds hready]
  dsimp only
  rw [← hfst]
  obtain ⟨found, device'⟩ := receiveReply exchange d.datagram device
  cases found <;> rfl

/-- **The next datagram** is read if it comes within the time that is left by `elapsed`.
It counts for each slice of 100 ms that was begun before it came.  The induction is on
the turns that are left. -/
theorem rrUpnpDiscoverLoop_cons (timeoutMs : ℕ) {elapsed now : ℕ} (d : Arrival (List UInt8))
    (ds : List (Arrival (List UInt8))) (device : RrUpnpDevice) :
    ∃ device', rrUpnpDiscoverLoop exchange timeoutMs elapsed now (d :: ds) device =
      if d.time - now < 1000 * (timeoutMs - elapsed) then
        if isGateway exchange d.datagram then (true, device')
        else rrUpnpDiscoverLoop exchange timeoutMs
          (elapsed + 100 * ((d.time - now) / 100000 + 1)) (max now d.time) ds device'
      else (false, device') := by
  induction hleft : timeoutMs - elapsed using Nat.strong_induction_on generalizing elapsed now with
  | _ left ih =>
    subst hleft
    by_cases hover : timeoutMs ≤ elapsed
    · refine ⟨device, ?_⟩
      rw [rrUpnpDiscoverLoop_over exchange hover, if_neg (by omega)]
    have hlt : elapsed < timeoutMs := Nat.lt_of_not_le hover
    have hwait : (waitMs timeoutMs elapsed = 100 ∧ 100 ≤ timeoutMs - elapsed) ∨
        (waitMs timeoutMs elapsed = timeoutMs - elapsed ∧ timeoutMs - elapsed < 100) := by
      unfold waitMs
      split_ifs <;> omega
    by_cases hready : d.time ≤ now ∨ d.time < now + waitMs timeoutMs elapsed * 1000
    · obtain ⟨device', h⟩ := rrUpnpDiscoverLoop_ready exchange hlt ds hready device
      have hin : d.time - now < 1000 * (timeoutMs - elapsed) := by omega
      refine ⟨device', ?_⟩
      rw [h, if_pos hin]
      rcases hwait with ⟨hwait, -⟩ | ⟨hwait, hlast⟩
      · rw [hwait, Nat.div_eq_of_lt (by omega)]
      · -- the last turn: from here on the time is over
        rw [rrUpnpDiscoverLoop_over exchange (by omega), rrUpnpDiscoverLoop_over exchange (by omega)]
    · have hquiet : ∀ e ∈ (d :: ds).head?,
          now < e.time ∧ now + waitMs timeoutMs elapsed * 1000 ≤ e.time := by
        intro e he
        cases he
        omega
      obtain ⟨device', h⟩ := @ih (timeoutMs - (elapsed + waitMs timeoutMs elapsed)) (by omega)
        (elapsed + waitMs timeoutMs elapsed) (now + waitMs timeoutMs elapsed * 1000) rfl
      refine ⟨device', ?_⟩
      rw [rrUpnpDiscoverLoop_quiet exchange hlt hquiet, h]
      rcases hwait with ⟨hwait, hge⟩ | ⟨hwait, hlast⟩
      · rw [hwait]
        have hslice : (d.time - now) / 100000 = (d.time - (now + 100 * 1000)) / 100000 + 1 := by
          omega
        have hmax : max (now + 100 * 1000) d.time = max now d.time := by omega
        have hsum : elapsed + 100 + 100 * ((d.time - (now + 100 * 1000)) / 100000 + 1) =
            elapsed + 100 * ((d.time - now) / 100000 + 1) := by omega
        have hin : d.time - (now + 100 * 1000) < 1000 * (timeoutMs - (elapsed + 100)) ↔
            d.time - now < 1000 * (timeoutMs - elapsed) := by omega
        rw [hmax, hsum]
        simp only [hin]
      · rw [if_neg (by omega), if_neg (by omega)]

/-! ### The whole search -/

/-- What `elapsed` counts for datagrams that are discarded, from `now` on: for each of
them every slice of 100 ms that was begun since the one before. -/
def counted (now : ℕ) : List (Arrival (List UInt8)) → ℕ
  | [] => 0
  | d :: ds => 100 * ((d.time - now) / 100000 + 1) + counted d.time ds

/-- When the last of the datagrams comes, or `now` if there is none. -/
def lastTime (now : ℕ) : List (Arrival (List UInt8)) → ℕ
  | [] => now
  | d :: ds => lastTime d.time ds

/-- **A gateway is found** if what is counted for the replies before it, and the time
from the last of them until it answers, is less than the timeout.  The induction is on
these replies. -/
theorem rrUpnpDiscoverLoop_gateway (timeoutMs : ℕ) {elapsed now : ℕ}
    {pre : List (Arrival (List UInt8))} {d : Arrival (List UInt8)}
    (post : List (Arrival (List UInt8))) (horder : InOrder (pre ++ d :: post))
    (hnow : ∀ e ∈ pre ++ d :: post, now ≤ e.time)
    (hpre : ∀ e ∈ pre, isGateway exchange e.datagram = false)
    (hd : isGateway exchange d.datagram = true) (device : RrUpnpDevice) :
    (rrUpnpDiscoverLoop exchange timeoutMs elapsed now (pre ++ d :: post) device).1 = true ↔
      1000 * (elapsed + counted now pre) + (d.time - lastTime now pre) < 1000 * timeoutMs := by
  induction pre generalizing elapsed now device with
  | nil =>
    obtain ⟨device', h⟩ := rrUpnpDiscoverLoop_cons exchange timeoutMs d post device
    rw [List.nil_append, h, if_pos hd, counted, lastTime]
    split_ifs <;> simp <;> omega
  | cons e pre ih =>
    rw [List.forall_mem_cons] at hpre
    obtain ⟨hfirst, horder⟩ := List.pairwise_cons.mp horder
    have hmax : max now e.time = e.time := Nat.max_eq_right (hnow e List.mem_cons_self)
    obtain ⟨device', h⟩ := rrUpnpDiscoverLoop_cons exchange timeoutMs e (pre ++ d :: post) device
    rw [List.cons_append, h, hpre.1, if_neg Bool.false_ne_true, hmax, counted, lastTime]
    split_ifs with hin
    · rw [ih horder hfirst hpre.2, Nat.add_assoc]
    · simp only [false_iff]
      omega

/-- **Discovery is as patient as its comment says** just if the gateway comes before the
replies of the others have used up the timeout: whenever a gateway answers in time the
device is found, if and only if for the first gateway that does what is counted for the
replies before it leaves the time that passes until it answers. -/
theorem upnp_discover_in_time_iff (timeoutMs : UInt32) {ds : List (Arrival (List UInt8))}
    (horder : InOrder ds) :
    ((∃ d ∈ ds, isGateway exchange d.datagram = true ∧ d.time < 1000 * timeoutMs.toNat) →
        (rrUpnpDiscover exchange timeoutMs ds).1 = true) ↔
      ∀ pre d post, ds = pre ++ d :: post →
        (∀ e ∈ pre, isGateway exchange e.datagram = false) →
        isGateway exchange d.datagram = true → d.time < 1000 * timeoutMs.toNat →
        1000 * counted 0 pre + (d.time - lastTime 0 pre) < 1000 * timeoutMs.toNat := by
  unfold rrUpnpDiscover
  constructor
  · rintro hfound pre d post rfl hpre hd htime
    have h := hfound ⟨d, by simp, hd, htime⟩
    rw [rrUpnpDiscoverLoop_gateway exchange _ post horder (fun _ _ => Nat.zero_le _) hpre hd] at h
    rwa [Nat.zero_add] at h
  · rintro hcond ⟨e, hmem, he, htime⟩
    obtain ⟨d, hfind⟩ := Option.isSome_iff_exists.mp
      (List.find?_isSome.mpr ⟨e, hmem, he⟩ : (ds.find? fun e => isGateway exchange e.datagram).isSome)
    obtain ⟨hd, pre, post, rfl, hpre⟩ := List.find?_eq_some_iff_append.mp hfind
    have hpre : ∀ e ∈ pre, isGateway exchange e.datagram = false := fun e he => by
      simpa using hpre e he
    have hle : d.time ≤ e.time := by
      rcases List.mem_append.mp hmem with hin | hin
      · rw [hpre e hin] at he
        cases he
      · rcases List.mem_cons.mp hin with rfl | hin
        · exact Nat.le_refl _
        · exact (List.pairwise_cons.mp (List.pairwise_append.mp horder).2.1).1 e hin
    rw [rrUpnpDiscoverLoop_gateway exchange _ post horder (fun _ _ => Nat.zero_le _) hpre hd,
      Nat.zero_add]
    exact hcond pre d post rfl hpre hd (Nat.lt_of_le_of_lt hle htime)

end Discover

/-- The reply of a device that is no gateway. -/
def strayReply : List UInt8 := (lit "HTTP/1.1 200 OK\r\n\r\n").bytes

/-- The reply of a gateway. -/
def gatewayReply : List UInt8 :=
  (lit "HTTP/1.1 200 OK\r\nLOCATION: http://192.168.1.1:5000/d.xml\r\n\r\n").bytes

/-- A network in which every description has a WAN service. -/
def gatewayExchange : Exchange := fun _ _ _ => some (lit
  "<service><serviceType>urn:WANIPConnection:1</serviceType><controlURL>/c</controlURL></service>").bytes

/-- The first reply of the example has no location, so it is not that of a gateway. -/
theorem not_isGateway_strayReply : isGateway gatewayExchange strayReply = false := by
  decide +kernel

/-- The second reply of the example has a location, whose description offers a service. -/
theorem isGateway_gatewayReply : isGateway gatewayExchange gatewayReply = true := by
  decide +kernel

/-- A gateway that answers after one other device: the reply of that one costs a turn, and the
gateway is still found. -/
theorem upnp_discover_in_time_iff_one :
    (rrUpnpDiscover gatewayExchange 3000 [⟨20000, strayReply⟩, ⟨150000, gatewayReply⟩]).1 = true := by
  refine (upnp_discover_in_time_iff gatewayExchange 3000 (by simp [InOrder])).mpr ?_
    ⟨⟨150000, gatewayReply⟩, by simp, isGateway_gatewayReply, by decide⟩
  intro pre d post hsplit hpre hd htime
  match pre, hsplit with
  | [], hsplit =>
    obtain ⟨rfl, -⟩ := List.cons.inj hsplit
    cases not_isGateway_strayReply.symm.trans hd
  | [e], hsplit =>
    obtain ⟨hfirst, hrest⟩ := List.cons.inj hsplit
    obtain ⟨hlast, -⟩ := List.cons.inj hrest
    rw [← hfirst, ← hlast]
    decide
  | e :: f :: pre, hsplit =>
    have := congrArg List.length hsplit
    simp at this

/-- **Thirty replies use up three seconds**: they come within the first millisecond, the
gateway answers after ten, and it is not found. -/
theorem upnp_discover_misses_gateway :
    InOrder (List.replicate 30 ⟨1000, strayReply⟩ ++ [⟨10000, gatewayReply⟩]) ∧
      isGateway gatewayExchange gatewayReply = true ∧ 10000 < 1000 * (3000 : UInt32).toNat ∧
      (rrUpnpDiscover gatewayExchange 3000
        (List.replicate 30 ⟨1000, strayReply⟩ ++ [⟨10000, gatewayReply⟩])).1 = false := by
  have horder : InOrder (List.replicate 30 ⟨1000, strayReply⟩ ++ [⟨10000, gatewayReply⟩]) := by
    refine List.pairwise_append.mpr ⟨List.pairwise_replicate.mpr (Or.inr (Nat.le_refl _)),
      List.pairwise_singleton _ _, fun a ha b hb => ?_⟩
    rw [List.eq_of_mem_replicate ha, List.mem_singleton.mp hb]
    decide
  refine ⟨horder, isGateway_gatewayReply, by decide, ?_⟩
  unfold rrUpnpDiscover
  rw [Bool.eq_false_iff, ne_eq, rrUpnpDiscoverLoop_gateway gatewayExchange _ [] horder
    (fun _ _ => Nat.zero_le _) (fun e he => ?_) isGateway_gatewayReply]
  · decide
  · rw [List.eq_of_mem_replicate he]
    exact not_isGateway_strayReply

end RrLauncher
