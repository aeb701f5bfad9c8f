/-
# A socket and a clock

Datagrams arrive at a socket at given times and are read in the order of their
arrival.  Time is counted in microseconds.  `select` with a timeout returns when the
next datagram is there or when the time is over, whichever comes first.
-/

import Mathlib.Order.Lattice
import Mathlib.Data.Nat.Notation

namespace TimedQueue

universe u

/-- A datagram and the time at which it arrives. -/
structure Arrival (α : Type u) where
  time : ℕ
  datagram : α
  deriving DecidableEq

variable {α : Type u}

/-- Datagrams in the order of their arrival. -/
def InOrder (ds : List (Arrival α)) : Prop := ds.Pairwise fun a b => a.time ≤ b.time

/-- `select` from `now` on, where the datagrams `ds` were not read yet: whether the
socket is ready, and when it returns. -/
def select (now timeout : ℕ) : List (Arrival α) → Bool × ℕ
  | [] => (false, now + timeout)
  | d :: _ =>
    if d.time ≤ now ∨ d.time < now + timeout then (true, max now d.time)
    else (false, now + timeout)

/-- **A datagram in time** ends the wait: at once where it has arrived already, and otherwise at the
time of its arrival. -/
theorem select_ready {now timeout : ℕ} {d : Arrival α} (ds : List (Arrival α))
    (h : d.time ≤ now ∨ d.time < now + timeout) :
    select now timeout (d :: ds) = (true, max now d.time) := if_pos h

/-- **No datagram in time**: the wait is as long as it may be. -/
theorem select_timeout {now timeout : ℕ} {ds : List (Arrival α)}
    (h : ∀ d ∈ ds.head?, now < d.time ∧ now + timeout ≤ d.time) :
    select now timeout ds = (false, now + timeout) := by
  cases ds with
  | nil => rfl
  | cons d ds =>
    obtain ⟨h₁, h₂⟩ := h d rfl
    exact if_neg (by omega)

/-- **A wait** ends with the first datagram, or when it is over and no datagram came. -/
theorem select_cases (now timeout : ℕ) (ds : List (Arrival α)) :
    ∃ ready wake, select now timeout ds = (ready, wake) ∧ now ≤ wake ∧ wake ≤ now + timeout ∧
      ((ready = true ∧ ∃ d rest, ds = d :: rest ∧ wake = max now d.time) ∨
        (ready = false ∧ wake = now + timeout ∧ ∀ d ∈ ds.head?, wake ≤ d.time)) := by
  cases ds with
  | nil =>
    exact ⟨_, _, rfl, Nat.le_add_right _ _, Nat.le_refl _, Or.inr ⟨rfl, rfl, fun d hd => by cases hd⟩⟩
  | cons d rest =>
    by_cases h : d.time ≤ now ∨ d.time < now + timeout
    · exact ⟨_, _, select_ready rest h, Nat.le_max_left _ _, by omega,
        Or.inl ⟨rfl, d, rest, rfl, rfl⟩⟩
    · refine ⟨_, _, if_neg h, Nat.le_add_right _ _, Nat.le_refl _, Or.inr ⟨rfl, rfl, fun e he => ?_⟩⟩
      cases he
      omega

end TimedQueue
