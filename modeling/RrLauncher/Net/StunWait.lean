/-
# The first match

A match that is less than a millisecond late can be returned by
`rr_stun_wait_for_matching_response`, and one that comes in time can be missed
(`stun_wait_misses_deadline`).  Apart from this the wait does what its comment says
(`stun_wait_first_match`).
-/

import RrLauncher.Net.Stun

namespace RrLauncher

open TimedQueue

section Turns

variable (start : ℕ) (timeoutMs : UInt32) (ds : List (Arrival (List UInt8)))

variable (bufSize : ℕ) (transactionId : TransactionId)

/-- A binding success response with the transaction ID, as it was received. -/
structure IsResponse (buf : List UInt8) : Prop where
  long : 20 ≤ buf.length
  type : buf.getD 0 0 = 0x01 ∧ buf.getD 1 0 = 0x01
  declared : (buf.getD 2 0).toNat * 256 + (buf.getD 3 0).toNat + 20 ≤ buf.length
  transaction : (buf.drop 8).take 12 = transactionId.val

/-- The first of the datagrams that is a response. -/
def FirstResponse (ds : List (Arrival (List UInt8))) (d : Arrival (List UInt8)) : Prop :=
  ∃ pre post, ds = pre ++ d :: post ∧
    (∀ e ∈ pre, ¬ IsResponse transactionId (received bufSize e)) ∧
    IsResponse transactionId (received bufSize d)

/-- **The tests** accept the binding success responses with the transaction ID. -/
theorem isMatchingResponse_iff (buf : List UInt8) :
    isMatchingResponse transactionId buf = true ↔ IsResponse transactionId buf := by
  unfold isMatchingResponse
  dsimp only
  constructor
  · intro h
    split_ifs at h with hshort htype hlong htransaction
    rw [not_or, not_not, not_not] at htype
    exact ⟨Nat.le_of_not_lt hshort, htype, Nat.le_of_not_lt hlong, not_not.mp htransaction⟩
  · intro ⟨hlong, ⟨htype₀, htype₁⟩, hdeclared, htransaction⟩
    rw [if_neg (Nat.not_lt.mpr hlong), if_neg (not_or.mpr ⟨not_not.mpr htype₀, not_not.mpr htype₁⟩),
      if_neg (Nat.not_lt.mpr hdeclared), if_neg (not_not.mpr htransaction)]

instance : DecidablePred (IsResponse transactionId) := fun buf =>
  decidable_of_iff _ (isMatchingResponse_iff transactionId buf)

/-- **What the wait returns**, and when: the first match, of which it is known only that
it is less than a millisecond late; or a negative value.  The induction is on the
datagrams. -/
theorem rrStunWaitForMatchingResponse_spec (turns : List Turn) {now : ℕ} (hstart : start ≤ now) :
    let r := rrStunWaitForMatchingResponse bufSize transactionId start timeoutMs ds turns now
    r.1 ≤ max now (deadline start timeoutMs + 999) + lost turns ∧
      (∀ n d, r.2 = .ok (n, d) → n = (received bufSize d).length ∧
        d.time ≤ deadline start timeoutMs + 999 ∧ FirstResponse bufSize transactionId ds d) ∧
      (∀ code, r.2 = .error code → Negative start timeoutMs turns r.1 code) := by
  induction ds generalizing turns now with
  | nil =>
    obtain ⟨-, -, hge, -, herror⟩ := rrStunRecvUntil_spec start timeoutMs [] turns hstart
    rw [rrStunWaitForMatchingResponse]
    split
    · rename_i now' turns' code hrecv
      rw [hrecv] at hge herror
      dsimp only at hge
      refine ⟨by dsimp only; omega, fun n d hd => (by cases hd), fun code' hcode => ?_⟩
      cases hcode
      exact herror code rfl
    · rename_i d h _
      cases h
  | cons d ds ih =>
    obtain ⟨hle, hsuffix, hge, hok, herror⟩ :=
      rrStunRecvUntil_spec start timeoutMs (d :: ds) turns hstart
    rw [rrStunWaitForMatchingResponse]
    split
    · rename_i now' turns' code hrecv
      rw [hrecv] at hge herror
      dsimp only at hge
      refine ⟨by dsimp only; omega, fun n d hd => (by cases hd), fun code' hcode => ?_⟩
      cases hcode
      exact herror code rfl
    · rename_i now' turns' e hrecv
      rw [hrecv] at hle hsuffix hge hok
      dsimp only at hle hsuffix hge hok
      obtain ⟨e, he⟩ := e
      cases he
      split
      · rename_i hmatch
        refine ⟨by dsimp only; omega, fun n d' hd' => ?_, fun code hcode => (by cases hcode)⟩
        cases hd'
        exact ⟨rfl, hok _ rfl, [], ds, rfl, fun e he => (by cases he),
          (isMatchingResponse_iff _ _).mp hmatch⟩
      · rename_i hmatch
        obtain ⟨hge', hok', herror'⟩ := ih turns' (Nat.le_trans hstart hle)
        have hlost := lost_le hsuffix
        refine ⟨by omega, fun n d' hd' => ?_,
          fun code hcode => (herror' code hcode).mono hsuffix.subset⟩
        obtain ⟨hn, htime, pre, post, rfl, hpre, hresponse⟩ := hok' n d' hd'
        refine ⟨hn, htime, d :: pre, post, rfl, ?_, hresponse⟩
        rw [List.forall_mem_cons]
        exact ⟨fun h => hmatch ((isMatchingResponse_iff _ _).mpr h), hpre⟩

/-- **A match in time** is returned, whatever comes before it, unless the socket has an
error: all that is read until then leaves the time for it. -/
theorem rrStunWaitForMatchingResponse_in_time {turns : List Turn}
    (hnoerror : ∀ turn ∈ turns, ¬ turn.HasError) {now : ℕ} (hstart : start ≤ now)
    {pre : List (Arrival (List UInt8))} {d : Arrival (List UInt8)}
    (post : List (Arrival (List UInt8))) (horder : ∀ e ∈ pre, e.time ≤ d.time)
    (hpre : ∀ e ∈ pre, ¬ IsResponse transactionId (received bufSize e))
    (hd : IsResponse transactionId (received bufSize d))
    (htime : max now d.time + lost turns < deadline start timeoutMs) :
    let r := rrStunWaitForMatchingResponse bufSize transactionId start timeoutMs
      (pre ++ d :: post) turns now
    r.1 ≤ max now d.time + lost turns ∧ r.2 = .ok ((received bufSize d).length, d) := by
  induction pre generalizing turns now with
  | nil =>
    obtain ⟨hge, hok⟩ := rrStunRecvUntil_in_time start timeoutMs hnoerror hstart d post htime
    rw [List.nil_append, rrStunWaitForMatchingResponse]
    split
    · rename_i hrecv
      rw [hrecv] at hok
      cases hok
    · rename_i hrecv
      rw [hrecv] at hge
      rw [if_pos ((isMatchingResponse_iff _ _).mpr hd)]
      exact ⟨Nat.le_trans (Nat.le_add_right _ _) hge, rfl⟩
  | cons e pre ih =>
    rw [List.forall_mem_cons] at horder hpre
    have hearlier : max now e.time + lost turns < deadline start timeoutMs := by omega
    obtain ⟨hle, hsuffix, -⟩ :=
      rrStunRecvUntil_spec start timeoutMs (e :: (pre ++ d :: post)) turns hstart
    obtain ⟨hge, hok⟩ :=
      rrStunRecvUntil_in_time start timeoutMs hnoerror hstart e (pre ++ d :: post) hearlier
    rw [List.cons_append, rrStunWaitForMatchingResponse]
    split
    · rename_i hrecv
      rw [hrecv] at hok
      cases hok
    · rename_i now' turns' _ hrecv
      rw [hrecv] at hle hsuffix hge
      dsimp only at hle hsuffix hge
      have hlost := lost_le hsuffix
      rw [if_neg (fun h => hpre.1 ((isMatchingResponse_iff _ _).mp h))]
      obtain ⟨hge', hreturn⟩ := ih (fun turn hturn => hnoerror turn (hsuffix.subset hturn))
        (Nat.le_trans hstart hle) horder.2 hpre.2 (by omega)
      exact ⟨by omega, hreturn⟩

/-- **The wait returns the first response**, and gives up at the deadline.  Datagrams
that are no response are discarded.  A response that is returned is less than a
millisecond late, and one that comes as long before the deadline as the turns lose time
is returned unless the socket has an error. -/
theorem stun_wait_first_match (horder : InOrder ds) (turns : List Turn) {now : ℕ}
    (hstart : start ≤ now) :
    let r := rrStunWaitForMatchingResponse bufSize transactionId start timeoutMs ds turns now
    r.1 ≤ max now (deadline start timeoutMs + 999) + lost turns ∧
      (∀ n d, r.2 = .ok (n, d) → n = (received bufSize d).length ∧
        d.time ≤ deadline start timeoutMs + 999 ∧ FirstResponse bufSize transactionId ds d) ∧
      (∀ code, r.2 = .error code → Negative start timeoutMs turns r.1 code) ∧
      ((∀ d ∈ ds, IsResponse transactionId (received bufSize d) →
          deadline start timeoutMs + 999 < d.time) → ∃ code, r.2 = .error code) ∧
      ((∀ turn ∈ turns, ¬ turn.HasError) → ∀ d, FirstResponse bufSize transactionId ds d →
        max now d.time + lost turns < deadline start timeoutMs →
        r.1 ≤ max now d.time + lost turns ∧ r.2 = .ok ((received bufSize d).length, d)) := by
  intro r
  obtain ⟨hge, hok, herror⟩ :=
    rrStunWaitForMatchingResponse_spec start timeoutMs ds bufSize transactionId turns hstart
  refine ⟨hge, hok, herror, fun hnone => ?_, fun hnoerror d hfirst htime => ?_⟩
  · cases hr : r.2 with
    | error code => exact ⟨code, rfl⟩
    | ok result =>
      obtain ⟨-, htime, pre, post, rfl, -, hresponse⟩ := hok result.1 result.2 hr
      have := hnone result.2 (by simp) hresponse
      omega
  · obtain ⟨pre, post, rfl, hpre, hd⟩ := hfirst
    have hbefore : ∀ e ∈ pre, e.time ≤ d.time := fun e he =>
      (List.pairwise_append.mp horder).2.2 e he d List.mem_cons_self
    exact rrStunWaitForMatchingResponse_in_time start timeoutMs bufSize transactionId hnoerror
      hstart post hbefore hpre hd htime

end Turns

/-- A binding success response without attributes. -/
def bindingResponse (transactionId : TransactionId) : List UInt8 :=
  [0x01, 0x01, 0x00, 0x00, 0x21, 0x12, 0xA4, 0x42] ++ transactionId.val

/-- A transaction ID of zeros. -/
def zeroId : TransactionId := ⟨List.replicate 12 0, rfl⟩

/-- The wait for at most 10 ms with a stray datagram before the response. -/
theorem stun_wait_first_match_stray :
    (rrStunWaitForMatchingResponse 1024 zeroId 0 10
      [⟨500, [0x00]⟩, ⟨8000, bindingResponse zeroId⟩] [] 0).2 =
        .ok (20, ⟨8000, bindingResponse zeroId⟩) :=
  ((stun_wait_first_match 0 10 [⟨500, [0x00]⟩, ⟨8000, bindingResponse zeroId⟩] 1024 zeroId
    (by simp [InOrder]) [] (Nat.le_refl 0)).2.2.2.2 (fun turn hturn => by cases hturn)
    ⟨8000, bindingResponse zeroId⟩ ⟨[⟨500, [0x00]⟩], [], rfl, by decide, by decide⟩ (by decide)).2

/-- **The deadline is not exact.**  With a timeout of 10 ms a response after 10.2 ms is
returned, since the 9.5 ms that are left after a stray datagram count as ten.  And one
after 8 ms is missed if the socket is ready with nothing to read after 5 ms. -/
theorem stun_wait_misses_deadline :
    InOrder [⟨500, [0x00]⟩, ⟨10200, bindingResponse zeroId⟩] ∧
      rrStunWaitForMatchingResponse 1024 zeroId 0 10
        [⟨500, [0x00]⟩, ⟨10200, bindingResponse zeroId⟩] [] 0 =
          (10200, .ok (20, ⟨10200, bindingResponse zeroId⟩)) ∧
      deadline 0 10 < 10200 ∧
      IsResponse zeroId (received 1024 ⟨8000, bindingResponse zeroId⟩) ∧ 8000 < deadline 0 10 ∧
      rrStunWaitForMatchingResponse 1024 zeroId 0 10 [⟨8000, bindingResponse zeroId⟩]
        [⟨0, some ⟨.eagain, 5000⟩⟩] 0 = (15000, .error (-2)) := by
  refine ⟨by simp [InOrder], ?_, by decide, by decide, by decide, ?_⟩
  · decide +kernel
  · decide +kernel

end RrLauncher
