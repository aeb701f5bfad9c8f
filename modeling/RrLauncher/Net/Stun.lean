/-
# Waiting for a STUN response

`rr_stun_recv_until` and `rr_stun_wait_for_matching_response` of `stun.c`: datagrams
are read and discarded until one matches the request or the time is over.

The time that is left is rounded up to whole milliseconds, and after `EAGAIN` the
program sleeps for ten of them.
-/

import RrLauncher.Lib.TimedQueue
import Mathlib.Algebra.GroupWithZero.Nat
import Mathlib.Data.Int.Notation

namespace RrLauncher

open TimedQueue

/-- What can come between the clock and the datagram: `EINTR` of `select` or
`recvfrom`, a socket that is ready with nothing to read, or an error. -/
inductive GlitchKind
  | eintr
  | eagain
  | error
  deriving DecidableEq

/-- A glitch some time after `select` was called, but not after it would have
returned. -/
structure Glitch where
  kind : GlitchKind
  after : ℕ

/-- What happens in a turn of the loop of `rr_stun_recv_until`: the time that passes
before the clock is read, and what goes wrong, if anything does. -/
structure Turn where
  delay : ℕ
  glitch : Option Glitch

/-- A turn in which the socket has an error. -/
def Turn.HasError (turn : Turn) : Prop := ∃ glitch ∈ turn.glitch, glitch.kind = .error

/-- The time that a turn loses: its delay, and the sleep after `EAGAIN`. -/
def Turn.lost (turn : Turn) : ℕ :=
  turn.delay + if turn.glitch.any (·.kind = .eagain) then 10000 else 0

/-- The time that some turns lose. -/
def lost (turns : List Turn) : ℕ := (turns.map Turn.lost).sum

/-- `rr_stun_remaining_ms`, where the clock says `now`. -/
def rrStunRemainingMs (start now : ℕ) (timeoutMs : UInt32) : ℕ :=
  let elapsedUs : ℤ := (now : ℤ) - start
  let remainingUs : ℤ := (timeoutMs.toNat : ℤ) * 1000 - elapsedUs
  if remainingUs ≤ 0 then 0 else ((remainingUs + 999) / 1000).toNat % 2 ^ 32

/-- The first of the datagrams. -/
abbrev Head (ds : List (Arrival (List UInt8))) : Type :=
  {d : Arrival (List UInt8) // ds.head? = some d}

/-- A turn of the loop of `rr_stun_recv_until` that begins at `now`: when it ends, and
what is returned, unless it goes on. -/
def recvTurn (start : ℕ) (timeoutMs : UInt32) (ds : List (Arrival (List UInt8))) (turn : Turn)
    (now : ℕ) : ℕ × Option (Except ℤ (Head ds)) :=
  let now := now + turn.delay
  let remainingMs := rrStunRemainingMs start now timeoutMs
  if remainingMs = 0 then (now, some (.error (-2)))
  else
    let (ready, wake) := select now (remainingMs * 1000) ds
    match turn.glitch with
    | some glitch =>
      let wake := min (now + glitch.after) wake
      match glitch.kind with
      | .eintr => (wake, none)
      | .eagain => (wake + 10000, none)
      | .error => (wake, some (.error (-1)))
    | none =>
      if ready then
        match h : ds.head? with
        | some d => (wake, some (.ok ⟨d, h⟩))
        | none => (wake, some (.error (-2)))
      else (wake, some (.error (-2)))

/-- What `rr_stun_recv_until` returns: a negative value or the next datagram, with the
time and the turns that are left. -/
structure Received (ds : List (Arrival (List UInt8))) where
  now : ℕ
  turns : List Turn
  result : Except ℤ (Head ds)

/-- `rr_stun_recv_until`, from `now` on; after `turns` nothing goes wrong any more. -/
def rrStunRecvUntil (start : ℕ) (timeoutMs : UInt32) (ds : List (Arrival (List UInt8))) :
    List Turn → ℕ → Received ds
  | [], now =>
    match recvTurn start timeoutMs ds ⟨0, none⟩ now with
    | (now, some result) => ⟨now, [], result⟩
    | (now, none) => ⟨now, [], .error (-2)⟩
  | turn :: turns, now =>
    match recvTurn start timeoutMs ds turn now with
    | (now, some result) => ⟨now, turns, result⟩
    | (now, none) => rrStunRecvUntil start timeoutMs ds turns now

/-- A transaction ID, which has twelve bytes. -/
abbrev TransactionId : Type := {bytes : List UInt8 // bytes.length = 12}

/-- The tests of `rr_stun_wait_for_matching_response` on what was received. -/
def isMatchingResponse (transactionId : TransactionId) (buf : List UInt8) : Bool :=
  let n := buf.length
  if n < 20 then false
  else if buf.getD 0 0 ≠ 0x01 ∨ buf.getD 1 0 ≠ 0x01 then false
  else
    let msgLen := (buf.getD 2 0).toNat * 256 + (buf.getD 3 0).toNat
    if msgLen + 20 > n then false
    else if (buf.drop 8).take 12 ≠ transactionId.val then false
    else true

/-- What `recvfrom` puts into a buffer. -/
def received (bufSize : ℕ) (d : Arrival (List UInt8)) : List UInt8 := d.datagram.take bufSize

/-- `rr_stun_wait_for_matching_response`, from `now` on: when it returns, and what. -/
def rrStunWaitForMatchingResponse (bufSize : ℕ) (transactionId : TransactionId) (start : ℕ)
    (timeoutMs : UInt32) :
    List (Arrival (List UInt8)) → List Turn → ℕ → ℕ × Except ℤ (ℕ × Arrival (List UInt8))
  | [], turns, now =>
    match rrStunRecvUntil start timeoutMs [] turns now with
    | ⟨now, _, .error code⟩ => (now, .error code)
    | ⟨_, _, .ok ⟨_, h⟩⟩ => nomatch h
  | d :: ds, turns, now =>
    match rrStunRecvUntil start timeoutMs (d :: ds) turns now with
    | ⟨now, _, .error code⟩ => (now, .error code)
    | ⟨now, turns, .ok _⟩ =>
      if isMatchingResponse transactionId (received bufSize d) then
        (now, .ok ((received bufSize d).length, d))
      else rrStunWaitForMatchingResponse bufSize transactionId start timeoutMs ds turns now

/-! ### The clock -/

/-- The deadline of the wait, in microseconds as the clock has them. -/
def deadline (start : ℕ) (timeoutMs : UInt32) : ℕ := start + timeoutMs.toNat * 1000

/-- **The time that is left** is zero from the deadline on, and before it reaches less
than a millisecond beyond it. -/
theorem rrStunRemainingMs_spec {start now : ℕ} (hstart : start ≤ now) (timeoutMs : UInt32) :
    (rrStunRemainingMs start now timeoutMs = 0 ∧ deadline start timeoutMs ≤ now) ∨
    (rrStunRemainingMs start now timeoutMs ≠ 0 ∧ now < deadline start timeoutMs ∧
      deadline start timeoutMs ≤ now + rrStunRemainingMs start now timeoutMs * 1000 ∧
      now + rrStunRemainingMs start now timeoutMs * 1000 ≤ deadline start timeoutMs + 999) := by
  have hbound : timeoutMs.toNat < 2 ^ 32 := timeoutMs.toNat_lt
  unfold rrStunRemainingMs deadline
  dsimp only
  split_ifs with hover
  · exact Or.inl ⟨rfl, by omega⟩
  · right
    -- the elapsed time is not negative, so the cast to `uint32_t` loses nothing
    rw [Nat.mod_eq_of_lt (by omega)]
    omega

/-- A negative value that may be returned at `now`: -2 from the deadline on, or -1 after
an error. -/
def Negative (start : ℕ) (timeoutMs : UInt32) (turns : List Turn) (now : ℕ) (code : ℤ) : Prop :=
  (code = -2 ∧ deadline start timeoutMs ≤ now) ∨ (code = -1 ∧ ∃ turn ∈ turns, turn.HasError)

/-- A negative value that may be returned with some turns ahead may be returned with more of them.
-/
theorem Negative.mono {start : ℕ} {timeoutMs : UInt32} {turns turns' : List Turn} {now : ℕ}
    {code : ℤ} (h : Negative start timeoutMs turns now code) (hsub : turns ⊆ turns') :
    Negative start timeoutMs turns' now code := by
  rcases h with h | ⟨h, turn, hmem, herror⟩
  · exact Or.inl h
  · exact Or.inr ⟨h, turn, hsub hmem, herror⟩

/-- The time that is lost in one more turn is added to that of the others. -/
theorem lost_cons (turn : Turn) (turns : List Turn) :
    lost (turn :: turns) = turn.lost + lost turns := by
  unfold lost
  rw [List.map_cons, List.sum_cons]

/-- The turns that remain at the end of a run lose no more time than all of them. -/
theorem lost_le {turns turns' : List Turn} (h : turns <:+ turns') : lost turns ≤ lost turns' := by
  obtain ⟨pre, rfl⟩ := h
  unfold lost
  rw [List.map_append, List.sum_append]
  exact Nat.le_add_left _ _

/-- The delay of a turn is part of the time that is lost in it. -/
theorem Turn.delay_le_lost (turn : Turn) : turn.delay ≤ turn.lost := Nat.le_add_right _ _

/-- A turn that ends with `EAGAIN` loses its delay and the ten milliseconds of sleep after it. -/
theorem Turn.lost_eagain {turn : Turn} {glitch : Glitch} (hglitch : glitch ∈ turn.glitch)
    (hkind : glitch.kind = .eagain) : turn.lost = turn.delay + 10000 := by
  unfold Turn.lost
  rw [hglitch, if_pos (by simp [hkind])]

section Turns

variable (start : ℕ) (timeoutMs : UInt32) (ds : List (Arrival (List UInt8)))

/-- **A turn** of the loop, from `now` on: the time is over; or the wait ends, at the
latest when a datagram in time is there, and something goes wrong, or the datagram is
returned, or the time is over by then. -/
theorem recvTurn_cases (turn : Turn) {now : ℕ} (hstart : start ≤ now) :
    (deadline start timeoutMs ≤ now + turn.delay ∧
      recvTurn start timeoutMs ds turn now = (now + turn.delay, some (.error (-2)))) ∨
    (now + turn.delay < deadline start timeoutMs ∧
      ∃ wake, now + turn.delay ≤ wake ∧ wake ≤ deadline start timeoutMs + 999 ∧
        (∀ d ∈ ds.head?, d.time < deadline start timeoutMs → wake ≤ max (now + turn.delay) d.time) ∧
        ((∃ glitch ∈ turn.glitch, glitch.kind = .eintr ∧
            recvTurn start timeoutMs ds turn now = (wake, none)) ∨
          (∃ glitch ∈ turn.glitch, glitch.kind = .eagain ∧
            recvTurn start timeoutMs ds turn now = (wake + 10000, none)) ∨
          (turn.HasError ∧ recvTurn start timeoutMs ds turn now = (wake, some (.error (-1)))) ∨
          (∃ d : Head ds, d.val.time ≤ wake ∧
            recvTurn start timeoutMs ds turn now = (wake, some (.ok d))) ∨
          (deadline start timeoutMs ≤ wake ∧
            (∀ d ∈ ds.head?, deadline start timeoutMs ≤ d.time) ∧
            recvTurn start timeoutMs ds turn now = (wake, some (.error (-2)))))) := by
  have hclock : start ≤ now + turn.delay := Nat.le_add_right_of_le hstart
  unfold recvTurn
  rcases rrStunRemainingMs_spec hclock timeoutMs with ⟨hzero, hover⟩ | ⟨hrem, hlt, hreach, hlate⟩
  · exact Or.inl ⟨hover, if_pos hzero⟩
  refine Or.inr ⟨hlt, ?_⟩
  dsimp only
  rw [if_neg hrem]
  obtain ⟨ready, wake, hselect, hle, hge, hcases⟩ := select_cases (now + turn.delay)
    (rrStunRemainingMs start (now + turn.delay) timeoutMs * 1000) ds
  rw [hselect]
  have hwake : ∀ d ∈ ds.head?, d.time < deadline start timeoutMs →
      wake ≤ max (now + turn.delay) d.time := by
    intro d hd htime
    rcases hcases with ⟨-, e, rest, rfl, rfl⟩ | ⟨-, rfl, hnone⟩
    · cases hd
      exact Nat.le_refl _
    · have := hnone d hd
      omega
  split
  · rename_i glitch hglitch
    refine ⟨min (now + turn.delay + glitch.after) wake, by omega, by omega,
      fun d hd htime => Nat.le_trans (Nat.min_le_right _ _) (hwake d hd htime), ?_⟩
    cases hkind : glitch.kind with
    | eintr => exact Or.inl ⟨glitch, hglitch, hkind, rfl⟩
    | eagain => exact Or.inr (Or.inl ⟨glitch, hglitch, hkind, rfl⟩)
    | error => exact Or.inr (Or.inr (Or.inl ⟨⟨glitch, hglitch, hkind⟩, rfl⟩))
  · refine ⟨wake, hle, by omega, hwake, ?_⟩
    rcases hcases with ⟨rfl, d, rest, rfl, rfl⟩ | ⟨rfl, rfl, hnone⟩
    · exact Or.inr (Or.inr (Or.inr (Or.inl ⟨⟨d, rfl⟩, Nat.le_max_right _ _, rfl⟩)))
    · refine Or.inr (Or.inr (Or.inr (Or.inr ⟨hreach, fun d hd => ?_, rfl⟩)))
      have := hnone d hd
      omega

/-- **What a turn returns**, and when it ends: less than a millisecond behind the deadline, plus
what the turn loses. A datagram that it returns came before that, and a negative value is one that
may be returned then. -/
theorem recvTurn_spec (turn : Turn) {now : ℕ} (hstart : start ≤ now) :
    let r := recvTurn start timeoutMs ds turn now
    now ≤ r.1 ∧ r.1 ≤ max now (deadline start timeoutMs + 999) + turn.lost ∧
      (∀ d, r.2 = some (.ok d) → d.val.time ≤ deadline start timeoutMs + 999) ∧
      (∀ code, r.2 = some (.error code) → Negative start timeoutMs [turn] r.1 code) := by
  have hdelay := turn.delay_le_lost
  rcases recvTurn_cases start timeoutMs ds turn hstart with ⟨hover, h⟩ |
    ⟨hlt, wake, hle, hge, -, ⟨glitch, -, -, h⟩ | ⟨glitch, hglitch, hkind, h⟩ | ⟨herror, h⟩ |
      ⟨d, htime, h⟩ | ⟨hover, -, h⟩⟩ <;>
    rw [h]
  · refine ⟨by omega, by omega, fun d hd => (by cases hd), fun code hcode => ?_⟩
    cases hcode
    exact Or.inl ⟨rfl, hover⟩
  · exact ⟨by omega, by omega, fun d hd => (by cases hd), fun code hcode => (by cases hcode)⟩
  · rw [turn.lost_eagain hglitch hkind]
    exact ⟨by omega, by omega, fun d hd => (by cases hd), fun code hcode => (by cases hcode)⟩
  · refine ⟨by omega, by omega, fun d hd => (by cases hd), fun code hcode => ?_⟩
    cases hcode
    exact Or.inr ⟨rfl, turn, List.mem_singleton_self turn, herror⟩
  · refine ⟨by omega, by omega, fun d' hd' => ?_, fun code hcode => (by cases hcode)⟩
    cases hd'
    exact Nat.le_trans htime hge
  · refine ⟨by omega, by omega, fun d hd => (by cases hd), fun code hcode => ?_⟩
    cases hcode
    exact Or.inl ⟨rfl, hover⟩

/-- A turn in which nothing goes wrong is the last one. -/
theorem recvTurn_smooth (now : ℕ) :
    ∃ result, (recvTurn start timeoutMs ds ⟨0, none⟩ now).2 = some result := by
  unfold recvTurn
  dsimp only
  split
  · exact ⟨_, rfl⟩
  split
  · split <;> exact ⟨_, rfl⟩
  · exact ⟨_, rfl⟩

/-- **What `rr_stun_recv_until` returns**, and when, by induction on its turns. -/
theorem rrStunRecvUntil_spec (turns : List Turn) {now : ℕ} (hstart : start ≤ now) :
    let r := rrStunRecvUntil start timeoutMs ds turns now
    now ≤ r.now ∧ r.turns <:+ turns ∧
      r.now + lost r.turns ≤ max now (deadline start timeoutMs + 999) + lost turns ∧
      (∀ d, r.result = .ok d → d.val.time ≤ deadline start timeoutMs + 999) ∧
      (∀ code, r.result = .error code → Negative start timeoutMs turns r.now code) := by
  induction turns generalizing now with
  | nil =>
    obtain ⟨hle, hge, hok, herror⟩ := recvTurn_spec start timeoutMs ds ⟨0, none⟩ hstart
    obtain ⟨result, hresult⟩ := recvTurn_smooth start timeoutMs ds now
    rw [rrStunRecvUntil]
    split
    · rename_i now' result' hturn
      rw [hturn] at hle hge hok herror
      refine ⟨hle, List.suffix_refl _, hge, fun d hd => hok d (congrArg some hd),
        fun code hcode => ?_⟩
      rcases herror code (congrArg some hcode) with h | ⟨-, turn, hmem, glitch, hglitch, -⟩
      · exact Or.inl h
      · rw [List.mem_singleton.mp hmem] at hglitch
        cases hglitch
    · rename_i now' hturn
      rw [hturn] at hresult
      cases hresult
  | cons turn turns ih =>
    obtain ⟨hle, hge, hok, herror⟩ := recvTurn_spec start timeoutMs ds turn hstart
    rw [rrStunRecvUntil, lost_cons]
    split
    · rename_i now' result hturn
      rw [hturn] at hle hge hok herror
      dsimp only at hle hge
      refine ⟨hle, List.suffix_cons _ _, ?_, fun d hd => hok d (congrArg some hd),
        fun code hcode => (herror code (congrArg some hcode)).mono ?_⟩
      · dsimp only
        omega
      · exact List.cons_subset_cons turn (List.nil_subset turns)
    · rename_i now' hturn
      rw [hturn] at hle hge
      dsimp only at hle hge
      obtain ⟨hle', hsuffix, hge', hok, herror⟩ := ih (Nat.le_trans hstart hle)
      refine ⟨Nat.le_trans hle hle', hsuffix.trans (List.suffix_cons _ _), by omega,
        hok, fun code hcode => (herror code hcode).mono (List.subset_cons_self _ _)⟩

/-- **A turn with a datagram in time**: unless the socket has an error the datagram is
returned, or there is still time for it. -/
theorem recvTurn_in_time {turn : Turn} (hnoerror : ¬ turn.HasError) {now : ℕ}
    (hstart : start ≤ now) (d : Arrival (List UInt8)) (rest : List (Arrival (List UInt8)))
    (htime : max now d.time + turn.lost < deadline start timeoutMs) :
    let r := recvTurn start timeoutMs (d :: rest) turn now
    r.1 ≤ max now d.time + turn.lost ∧ (r.2 = some (.ok ⟨d, rfl⟩) ∨ r.2 = none) := by
  have hdelay := turn.delay_le_lost
  rcases recvTurn_cases start timeoutMs (d :: rest) turn hstart with ⟨hover, -⟩ |
    ⟨-, wake, hle, -, hwake, ⟨glitch, -, -, h⟩ | ⟨glitch, hglitch, hkind, h⟩ | ⟨herror, -⟩ |
      ⟨e, -, h⟩ | ⟨-, hnone, -⟩⟩
  · omega
  · have := hwake d rfl (by omega)
    rw [h]
    exact ⟨by omega, Or.inr rfl⟩
  · have := hwake d rfl (by omega)
    rw [turn.lost_eagain hglitch hkind, h]
    exact ⟨by omega, Or.inr rfl⟩
  · exact absurd herror hnoerror
  · have := hwake d rfl (by omega)
    obtain ⟨e, he⟩ := e
    cases he
    rw [h]
    exact ⟨by omega, Or.inl rfl⟩
  · have := hnone d rfl
    omega

/-- **A datagram in time** is what `rr_stun_recv_until` returns, unless the socket has
an error.  The time that the turns can still lose is kept free until it is lost. -/
theorem rrStunRecvUntil_in_time {turns : List Turn} (hnoerror : ∀ turn ∈ turns, ¬ turn.HasError)
    {now : ℕ} (hstart : start ≤ now) (d : Arrival (List UInt8))
    (rest : List (Arrival (List UInt8)))
    (htime : max now d.time + lost turns < deadline start timeoutMs) :
    let r := rrStunRecvUntil start timeoutMs (d :: rest) turns now
    r.now + lost r.turns ≤ max now d.time + lost turns ∧ r.result = .ok ⟨d, rfl⟩ := by
  induction turns generalizing now with
  | nil =>
    have hcalm : ¬ Turn.HasError ⟨0, none⟩ := fun ⟨_, h, _⟩ => by cases h
    obtain ⟨hge, hlast⟩ := recvTurn_in_time start timeoutMs hcalm hstart d rest htime
    obtain ⟨result, hresult⟩ := recvTurn_smooth start timeoutMs (d :: rest) now
    rw [rrStunRecvUntil]
    split
    · rename_i now' result' hturn
      rw [hturn] at hge hlast
      rcases hlast with hlast | hlast
      · exact ⟨hge, Option.some.inj hlast⟩
      · cases hlast
    · rename_i now' hturn
      rw [hturn] at hresult
      cases hresult
  | cons turn turns ih =>
    rw [List.forall_mem_cons] at hnoerror
    rw [lost_cons] at htime ⊢
    have hfits : max now d.time + turn.lost < deadline start timeoutMs := by omega
    obtain ⟨hle, -⟩ := recvTurn_spec start timeoutMs (d :: rest) turn hstart
    obtain ⟨hge, hlast⟩ := recvTurn_in_time start timeoutMs hnoerror.1 hstart d rest hfits
    rw [rrStunRecvUntil]
    split
    · rename_i now' result hturn
      rw [hturn] at hge hlast
      dsimp only at hge
      rcases hlast with hlast | hlast
      · exact ⟨by dsimp only; omega, Option.some.inj hlast⟩
      · cases hlast
    · rename_i now' hturn
      rw [hturn] at hge hle
      dsimp only at hge hle
      obtain ⟨hge', hok⟩ := ih hnoerror.2 (Nat.le_trans hstart hle) (by omega)
      exact ⟨by omega, hok⟩

end Turns

end RrLauncher
