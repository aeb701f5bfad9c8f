/-
# The progress of a download

`_rrc_zipdl_progress_callback` of `update.c` and `_rrc_versionsfile_progress_callback` of
`versionsfile.c`, which curl calls during a transfer.  The former measures the speed of the
download once a second and keeps the amounts of the last ten seconds in a ring.

The sum over the ring is taken before the newest amount is written to it, so the speed that is
shown is that of the ten seconds before the last one (`download_speed_iff`).  And both callbacks
divide by the total size, which curl does not always know (`progress_divisors_iff`).

When a second is over, and what was downloaded in it, is read off the calls (`samplesOf`); that
the globals keep the time and the amount of the last tick is proved (`Follows`).
-/

import Mathlib.Algebra.Order.BigOperators.Group.List
import Mathlib.Algebra.Order.Ring.Int
import Mathlib.Data.List.Infix
import RrLauncher.Lib.CText
import RrLauncher.Lib.Decimal
import RrLauncher.Lib.Ring

namespace RrLauncher

open CStr (lit)

/-- The conversion of a `curl_off_t` to an `int`. -/
def intOfOff (x : ℤ) : ℤ := x.bmod (2 ^ 32)

/-- The conversion of an amount to `int` keeps it where the amount is in the range of `int` and not
negative. -/
theorem intOfOff_eq {x : ℤ} (h₁ : 0 ≤ x) (h₂ : x < 2 ^ 31) : intOfOff x = x := by
  rw [intOfOff, Int.bmod_eq_of_le] <;> omega

/-- `%i`. -/
def intText (x : ℤ) : CStr :=
  ⟨Decimal.decimal x, fun h => (Decimal.mem_decimal h).elim (fun h => absurd h (by decide))
    (fun h => absurd h (by decide))⟩

/-- The globals of the measurement; the ring has ten cells. -/
structure MeasurementState where
  lp : ℤ
  lastMeasurementFrom : ℤ
  lastDlnow : ℤ
  dlSpeedAvg : ℤ
  estSecRemaining : ℤ
  last10SecDlAmount : List ℤ
  nextSecondWriteIndex : ℕ
  length_last10SecDlAmount : last10SecDlAmount.length = 10
  nextSecondWriteIndex_lt : nextSecondWriteIndex < 10

/-- `_rrc_cleanup_measurement_state`. -/
def rrcCleanupMeasurementState : MeasurementState :=
  ⟨-1, -1, 0, 0, 0, List.replicate 10 (-1), 0, rfl, by decide⟩

/-- A call of the callback: its arguments, and what `gettime` returns the two times. -/
structure ProgressCall where
  numinfo : ℤ
  dltotal : ℤ
  dlnow : ℤ
  asked : ℤ
  measured : ℤ

/-- What a call does besides changing the globals: the divisors of its divisions, and what it
shows. -/
structure ProgressRun where
  divisors : List ℤ
  shown : Option (CStr × ℤ)

/-- `_rrc_zipdl_est_time_remaining_fmt`. -/
def rrcZipdlEstTimeRemainingFmt (estSecRemaining : ℤ) (outSz : ℕ) : CStr :=
  if estSecRemaining < 60 then (intText estSecRemaining ++ lit " seconds").fit outSz
  else if estSecRemaining < 3600 then
    (intText (estSecRemaining.tdiv 60) ++ lit "m " ++ intText (estSecRemaining.tmod 60) ++
      lit "s").fit outSz
  else
    (intText (estSecRemaining.tdiv 3600) ++ lit "h " ++
      intText ((estSecRemaining.tmod 3600).tdiv 60) ++ lit "m " ++
      intText (estSecRemaining.tmod 60) ++ lit "s").fit outSz

section Callback

variable (diffMsec : ℤ → ℤ → ℕ)

/-- A second is over since the last measurement, or there was none. -/
def measurementDue (call : ProgressCall) (m : MeasurementState) : Bool :=
  1000 < diffMsec m.lastMeasurementFrom call.asked || m.lastMeasurementFrom < 0

/-- The ring, where the cells that were not written yet are flooded with an amount. -/
def MeasurementState.flooded (m : MeasurementState) (amount : ℤ) : List ℤ :=
  m.last10SecDlAmount.map fun x => if x = -1 then amount else x

/-- Flooding changes cells of the ring and not their number, which is ten. -/
theorem MeasurementState.length_flooded (m : MeasurementState) (amount : ℤ) :
    (m.flooded amount).length = 10 := by
  rw [flooded, List.length_map, m.length_last10SecDlAmount]

/-- The measurement: the sum is taken first, then the newest amount is written. -/
def takeMeasurement (call : ProgressCall) (m : MeasurementState) : MeasurementState :=
  let lastSecondDlAmount := intOfOff (call.dlnow - m.lastDlnow)
  let remainingDl := intOfOff (call.dltotal - call.dlnow)
  let cells := m.flooded lastSecondDlAmount
  let dlSpeedSum := intOfOff cells.sum
  let dlSpeedAvg := if dlSpeedSum.tdiv 10 = 0 then 1 else dlSpeedSum.tdiv 10
  { m with
    lastMeasurementFrom := call.measured
    lastDlnow := call.dlnow
    dlSpeedAvg
    estSecRemaining := remainingDl.tdiv dlSpeedAvg
    last10SecDlAmount := cells.set m.nextSecondWriteIndex lastSecondDlAmount
    nextSecondWriteIndex := Ring.advance 10 m.nextSecondWriteIndex
    length_last10SecDlAmount := by rw [List.length_set, m.length_flooded]
    nextSecondWriteIndex_lt := Ring.advance_lt m.nextSecondWriteIndex_lt }

/-- `_rrc_zipdl_progress_callback`, which always returns 0, so that curl goes on. -/
def rrcZipdlProgressCallback (call : ProgressCall) (m : MeasurementState) :
    ProgressRun × MeasurementState :=
  let progress := intOfOff ((call.dlnow * 100).tdiv call.dltotal)
  let due := measurementDue diffMsec call m
  let m := if due then takeMeasurement call m else m
  let measuring : List ℤ := if due then [10, m.dlSpeedAvg] else []
  let chunk := intOfOff (call.dlnow.tdiv 100000)
  if chunk ≠ m.lp then
    let msg := (lit "Downloading update " ++ intText (call.numinfo.tdiv 100 + 1) ++ lit " of " ++
      intText (call.numinfo.tmod 100) ++ lit " - " ++ intText (m.dlSpeedAvg.tdiv 1000) ++
      lit " kB/s (" ++ intText (intOfOff (call.dlnow.tdiv 1000)) ++ lit "/" ++
      intText (intOfOff (call.dltotal.tdiv 1000)) ++ lit " kB)\n Est time remaining: " ++
      rrcZipdlEstTimeRemainingFmt m.estSecRemaining 100).fit 100
    (⟨call.dltotal :: measuring ++ [100000, 100, 100, 1000, 1000, 1000], some (msg, progress)⟩,
      { m with lp := chunk })
  else (⟨call.dltotal :: measuring ++ [100000], none⟩, m)

/-- The calls of a transfer: what each does, and the globals behind them. -/
def transfer : List ProgressCall → MeasurementState → List ProgressRun × MeasurementState
  | [], m => ([], m)
  | call :: calls, m =>
    let (run, m) := rrcZipdlProgressCallback diffMsec call m
    let (runs, m) := transfer calls m
    (run :: runs, m)

end Callback

/-- `_rrc_versionsfile_progress_callback`, and the new value of its `lp`. -/
def rrcVersionsfileProgressCallback (update : CStr) (dltotal dlnow lp : ℤ) : ProgressRun × ℤ :=
  let progress := intOfOff ((dlnow * 100).tdiv dltotal)
  if progress ≠ lp then (⟨[dltotal], some (update, progress)⟩, progress) else (⟨[dltotal], none⟩, lp)

/-- The calls during the download of a list. -/
def listTransfer (update : CStr) : List (ℤ × ℤ) → ℤ → List ProgressRun
  | [], _ => []
  | (dltotal, dlnow) :: calls, lp =>
    let (run, lp) := rrcVersionsfileProgressCallback update dltotal dlnow lp
    run :: listTransfer update calls lp

/-! ### The divisors -/

section Divisors

variable {diffMsec : ℤ → ℤ → ℕ}

/-- The average that is stored is no zero, as the code takes 1 instead, so the division by it is
safe. -/
theorem takeMeasurement_ne_zero (call : ProgressCall) (m : MeasurementState) :
    (takeMeasurement call m).dlSpeedAvg ≠ 0 := by
  unfold takeMeasurement
  dsimp only
  split_ifs with h
  · exact one_ne_zero
  · exact h

/-- A call divides by the total size, by the average and by constants. -/
theorem callback_divisors (call : ProgressCall) (m : MeasurementState) :
    (∀ d ∈ (rrcZipdlProgressCallback diffMsec call m).1.divisors, d ≠ 0) ↔ call.dltotal ≠ 0 := by
  have havg := takeMeasurement_ne_zero call m
  unfold rrcZipdlProgressCallback
  dsimp only
  split_ifs <;> simp [havg]

/-- **Which divisions go wrong**: those by the total size of a transfer, where it is not known. -/
theorem progress_divisors_iff (diffMsec : ℤ → ℤ → ℕ) (calls : List ProgressCall)
    (m : MeasurementState) (update : CStr) (listCalls : List (ℤ × ℤ)) (lp : ℤ) :
    ((∀ run ∈ (transfer diffMsec calls m).1, ∀ d ∈ run.divisors, d ≠ 0) ↔
        ∀ call ∈ calls, call.dltotal ≠ 0) ∧
      ((∀ run ∈ listTransfer update listCalls lp, ∀ d ∈ run.divisors, d ≠ 0) ↔
        ∀ call ∈ listCalls, call.1 ≠ 0) := by
  constructor
  · induction calls generalizing m with
    | nil => simp [transfer]
    | cons call calls ih =>
      rw [List.forall_mem_cons, ← ih (rrcZipdlProgressCallback diffMsec call m).2,
        ← callback_divisors call m]
      exact List.forall_mem_cons
  · induction listCalls generalizing lp with
    | nil => simp [listTransfer]
    | cons call listCalls ih =>
      obtain ⟨dltotal, dlnow⟩ := call
      have hrun : (∀ d ∈ (rrcVersionsfileProgressCallback update dltotal dlnow lp).1.divisors,
          d ≠ 0) ↔ dltotal ≠ 0 := by
        unfold rrcVersionsfileProgressCallback
        dsimp only
        split_ifs <;> simp
      rw [List.forall_mem_cons, ← ih (rrcVersionsfileProgressCallback update dltotal dlnow lp).2,
        ← hrun]
      exact List.forall_mem_cons

/-- **The size is not known at first**: then curl reports a total of 0, and both callbacks divide
by it. -/
theorem progress_divides_by_zero :
    ¬ ∀ (diffMsec : ℤ → ℤ → ℕ) (calls : List ProgressCall) (m : MeasurementState) (update : CStr)
      (listCalls : List (ℤ × ℤ)) (lp : ℤ),
      (∀ call ∈ calls, 0 ≤ call.dltotal ∧ 0 ≤ call.dlnow) →
        (∀ call ∈ listCalls, 0 ≤ call.1 ∧ 0 ≤ call.2) →
        (∀ run ∈ (transfer diffMsec calls m).1, ∀ d ∈ run.divisors, d ≠ 0) ∧
          ∀ run ∈ listTransfer update listCalls lp, ∀ d ∈ run.divisors, d ≠ 0 := by
  intro h
  have hlist := (h (fun _ _ => 0) [] rrcCleanupMeasurementState (lit "update") [(0, 0)] (-1)
    (by simp) (by simp)).2
  exact hlist _ List.mem_cons_self 0 List.mem_cons_self rfl

end Divisors

/-! ### The speed -/

/-- The ten most recent samples, where those before the first are taken equal to it. -/
def lastTen (samples : List ℤ) : List ℤ :=
  (List.replicate 10 (samples.headD 0) ++ samples).drop samples.length

/-- The whole mean of the ten most recent samples, and at least 1. -/
def averageSpeed (samples : List ℤ) : ℤ := max 1 ((lastTen samples).sum / 10)

/-- A sample takes the place of the oldest, which is how the ring is written. -/
theorem lastTen_concat {samples : List ℤ} (hne : samples ≠ []) (s : ℤ) :
    lastTen (samples ++ [s]) = (lastTen samples).tail ++ [s] := by
  obtain ⟨first, rest, rfl⟩ := List.exists_cons_of_ne_nil hne
  have hlen : (first :: rest).length ≤
      (List.replicate 10 first ++ (first :: rest)).length := by
    rw [List.length_append]
    omega
  rw [lastTen, lastTen, List.length_append, List.tail_drop, List.cons_append, List.headD_cons,
    List.headD_cons, ← List.cons_append, ← List.append_assoc, List.drop_append_of_le_length]
  · rfl
  · rw [List.length_append, List.length_replicate, List.length_singleton]
    omega

/-- Behind the first sample all of the ten cells have it: the cells that were never written are
flooded with that amount. -/
theorem lastTen_singleton (s : ℤ) : lastTen [s] = List.replicate 10 s := rfl

/-- What is among the ten is a sample, if there is any: the cells in front of the first one have its
amount. -/
theorem mem_of_mem_lastTen {samples : List ℤ} (hne : samples ≠ []) {x : ℤ}
    (h : x ∈ lastTen samples) : x ∈ samples := by
  obtain ⟨first, rest, rfl⟩ := List.exists_cons_of_ne_nil hne
  rcases List.mem_append.mp (List.mem_of_mem_drop h) with h | h
  · rw [List.eq_of_mem_replicate h]
    exact List.mem_cons_self
  · exact h

/-- The newest sample is one of the ten that end with it. -/
theorem mem_lastTen_concat (samples : List ℤ) (s : ℤ) : s ∈ lastTen (samples ++ [s]) := by
  cases samples with
  | nil => exact List.mem_cons_self
  | cons first rest =>
    rw [lastTen_concat (List.cons_ne_nil _ _)]
    exact List.mem_append_right _ List.mem_cons_self

/-- No amount is negative, and the sums over ten of them are within the range of `int`. -/
structure Measurable (samples : List ℤ) : Prop where
  nonneg : ∀ s ∈ samples, 0 ≤ s
  inRange : ∀ p, p <+: samples → p ≠ [] → (lastTen p).sum < 2 ^ 31

/-- Whatever is measurable is so from the start up to any sample. -/
theorem Measurable.of_isPrefix {samples p : List ℤ} (h : Measurable samples)
    (hp : p <+: samples) : Measurable p :=
  ⟨fun s hs => h.nonneg s (hp.subset hs), fun q hq => h.inRange q (hq.trans hp)⟩

/-- A sum over the ring, at any time, is within the range. -/
theorem Measurable.sum {samples p : List ℤ} (h : Measurable samples) (hp : p <+: samples)
    (hne : p ≠ []) : 0 ≤ (lastTen p).sum ∧ (lastTen p).sum < 2 ^ 31 := by
  refine ⟨List.sum_nonneg fun x hx => ?_, h.inRange p hp hne⟩
  exact h.nonneg x (hp.subset (mem_of_mem_lastTen hne hx))

/-- So is an amount, as one of the ten that end with it. -/
theorem Measurable.newest {samples : List ℤ} {s : ℤ} (h : Measurable (samples ++ [s])) :
    0 ≤ s ∧ s < 2 ^ 31 := by
  have hne : samples ++ [s] ≠ [] := List.append_ne_nil_of_right_ne_nil _ (List.cons_ne_nil _ _)
  have hten : ∀ x ∈ lastTen (samples ++ [s]), 0 ≤ x := fun x hx =>
    h.nonneg x (mem_of_mem_lastTen hne hx)
  have hle := List.single_le_sum hten s (mem_lastTen_concat samples s)
  have hsum := h.inRange _ List.prefix_rfl hne
  exact ⟨hten s (mem_lastTen_concat samples s), by omega⟩

/-- **The ring holds the last samples**: none in front of the first, then the ten most recent. -/
def Remembers (samples : List ℤ) (m : MeasurementState) : Prop :=
  (samples = [] → m.last10SecDlAmount = List.replicate 10 (-1)) ∧
    (samples ≠ [] →
      Ring.recent m.last10SecDlAmount m.nextSecondWriteIndex = lastTen samples)

/-- The samples that the average behind the next measurement is taken of: those so far, and the
next one only if it is the first. -/
def measuredSamples (samples : List ℤ) (s : ℤ) : List ℤ := if samples = [] then [s] else samples

/-- The average is always taken of some sample, since the first measurement uses its own. -/
theorem measuredSamples_ne_nil (samples : List ℤ) (s : ℤ) : measuredSamples samples s ≠ [] := by
  unfold measuredSamples
  split_ifs with h
  · exact List.cons_ne_nil _ _
  · exact h

/-- The samples that an average is taken of are an initial part of all samples so far, so their sum
is in the range of `int` as well. -/
theorem measuredSamples_isPrefix (samples : List ℤ) (s : ℤ) :
    measuredSamples samples s <+: samples ++ [s] := by
  unfold measuredSamples
  split_ifs with h
  · rw [h]
    exact List.prefix_rfl
  · exact List.prefix_append _ _

/-- The ten most recent with the next one are those of the measurement, but for the oldest. -/
theorem lastTen_measuredSamples (samples : List ℤ) (s : ℤ) :
    lastTen (samples ++ [s]) = (lastTen (measuredSamples samples s)).tail ++ [s] := by
  unfold measuredSamples
  split_ifs with h
  · rw [h]
    rfl
  · exact lastTen_concat h s

/-- What the sum is taken over: the ring as it was, or filled with the first amount. -/
theorem recent_flooded {samples : List ℤ} {m : MeasurementState} (hm : Remembers samples m)
    (hnonneg : ∀ s ∈ samples, 0 ≤ s) (s : ℤ) :
    Ring.recent (m.flooded s) m.nextSecondWriteIndex = lastTen (measuredSamples samples s) := by
  unfold MeasurementState.flooded
  by_cases hne : samples = []
  · rw [measuredSamples, if_pos hne, hm.1 hne, List.map_replicate, if_pos rfl, Ring.recent_replicate,
      lastTen_singleton]
  · have hkept : (m.last10SecDlAmount.map fun x => if x = -1 then s else x) =
        m.last10SecDlAmount := by
      refine (List.map_congr_left fun x hx => ?_).trans (List.map_id _)
      have hmem : x ∈ lastTen samples := by
        rw [← hm.2 hne]
        exact (Ring.recent_perm _ _).mem_iff.mpr hx
      have hx0 := hnonneg x (mem_of_mem_lastTen hne hmem)
      exact if_neg (by omega)
    rw [measuredSamples, if_neg hne, hkept, hm.2 hne]

/-- **A measurement** writes the amount to the ring, and its average is that of the samples
before. -/
theorem takeMeasurement_spec {samples : List ℤ} {m : MeasurementState} (hm : Remembers samples m)
    (call : ProgressCall) (hs : Measurable (samples ++ [call.dlnow - m.lastDlnow])) :
    Remembers (samples ++ [call.dlnow - m.lastDlnow]) (takeMeasurement call m) ∧
      (takeMeasurement call m).dlSpeedAvg =
        averageSpeed (measuredSamples samples (call.dlnow - m.lastDlnow)) := by
  have hamount := intOfOff_eq hs.newest.1 hs.newest.2
  have hflooded := recent_flooded hm (fun s h => hs.nonneg s (List.mem_append_left _ h))
    (call.dlnow - m.lastDlnow)
  have hsum := hs.sum (measuredSamples_isPrefix _ _) (measuredSamples_ne_nil samples _)
  have hten := lastTen_measuredSamples samples (call.dlnow - m.lastDlnow)
  have hring : (takeMeasurement call m).last10SecDlAmount =
      (m.flooded (call.dlnow - m.lastDlnow)).set m.nextSecondWriteIndex
        (call.dlnow - m.lastDlnow) := by
    show (m.flooded (intOfOff _)).set _ (intOfOff _) = _
    rw [hamount]
  have htotal : (m.flooded (intOfOff (call.dlnow - m.lastDlnow))).sum =
      (lastTen (measuredSamples samples (call.dlnow - m.lastDlnow))).sum := by
    rw [hamount, ← hflooded]
    exact (Ring.recent_perm _ _).sum_eq.symm
  refine ⟨⟨fun h => absurd h (List.append_ne_nil_of_right_ne_nil _ (List.cons_ne_nil _ _)),
    fun _ => ?_⟩, ?_⟩
  · have hnext : m.nextSecondWriteIndex < (m.flooded (call.dlnow - m.lastDlnow)).length := by
      rw [m.length_flooded]
      exact m.nextSecondWriteIndex_lt
    have hwrite := Ring.recent_write hnext (call.dlnow - m.lastDlnow)
    rw [m.length_flooded, hflooded, ← hten] at hwrite
    rw [hring]
    exact hwrite
  · unfold takeMeasurement
    dsimp only
    rw [htotal, intOfOff_eq hsum.1 hsum.2, Int.tdiv_eq_ediv_of_nonneg hsum.1, averageSpeed]
    split_ifs <;> omega

/-- The samples that the speed which is shown is taken of: all but the newest, if there are
others. -/
def shownSamples (samples : List ℤ) : List ℤ :=
  if samples.tail = [] then samples else samples.dropLast

/-- The speed that is shown behind a sample is taken of the samples in front of it: the newest one
is written after the sum was taken. -/
theorem shownSamples_concat (samples : List ℤ) (s : ℤ) :
    shownSamples (samples ++ [s]) = measuredSamples samples s := by
  cases samples with
  | nil => rfl
  | cons first rest =>
    have htail : (first :: rest ++ [s]).tail ≠ [] :=
      List.append_ne_nil_of_right_ne_nil rest (List.cons_ne_nil _ _)
    rw [shownSamples, if_neg htail, measuredSamples, if_neg (List.cons_ne_nil _ _),
      List.dropLast_concat]

/-- The globals behind some measurements. -/
structure Tracks (samples : List ℤ) (m : MeasurementState) : Prop where
  remembers : Remembers samples m
  speed : samples ≠ [] → m.dlSpeedAvg = averageSpeed (shownSamples samples)

/-- The globals behind `_rrc_cleanup_measurement_state` track no sample yet. -/
theorem Tracks.clean : Tracks [] rrcCleanupMeasurementState :=
  ⟨⟨fun _ => rfl, fun h => absurd rfl h⟩, fun h => absurd rfl h⟩

/-! ### The ticks -/

section Ticks

variable (diffMsec : ℤ → ℤ → ℕ)

/-- A call is a tick: there was none before it, or more than a second is over since the time
that was read at the last one.  A time below 0 is no time. -/
def isTick (last : Option ProgressCall) (call : ProgressCall) : Bool :=
  match last with
  | none => true
  | some last => 1000 < diffMsec last.measured call.asked || last.measured < 0

/-- The ticks among the calls of a transfer, of which the last one so far is given. -/
def ticksAfter (last : Option ProgressCall) : List ProgressCall → List ProgressCall
  | [] => []
  | call :: calls =>
    if isTick diffMsec last call then call :: ticksAfter (some call) calls
    else ticksAfter last calls

/-- What was downloaded up to a tick, and nothing before the first. -/
def downloadedAt (last : Option ProgressCall) : ℤ := (last.map ProgressCall.dlnow).getD 0

/-- What is downloaded from one tick to the next. -/
def amountsFrom (before : ℤ) : List ProgressCall → List ℤ
  | [] => []
  | tick :: ticks => (tick.dlnow - before) :: amountsFrom tick.dlnow ticks

/-- **The samples** of a transfer since `_rrc_cleanup_measurement_state`: what was downloaded
between its ticks.  They are read off the calls; the globals have no part in them. -/
def samplesOf (calls : List ProgressCall) : List ℤ := amountsFrom 0 (ticksAfter diffMsec none calls)

/-- The samples that are still to come, behind a tick. -/
def samplesAfter (last : Option ProgressCall) (calls : List ProgressCall) : List ℤ :=
  amountsFrom (downloadedAt last) (ticksAfter diffMsec last calls)

/-- The last tick, with a call behind it. -/
def nextTick (last : Option ProgressCall) (call : ProgressCall) : Option ProgressCall :=
  if isTick diffMsec last call then some call else last

/-- One more call in front: it adds its sample if it is a tick, and the calls behind it are read
with the tick that is then the last. -/
theorem samplesAfter_cons (last : Option ProgressCall) (call : ProgressCall)
    (calls : List ProgressCall) :
    samplesAfter diffMsec last (call :: calls) =
      (if isTick diffMsec last call then [call.dlnow - downloadedAt last] else []) ++
        samplesAfter diffMsec (nextTick diffMsec last call) calls := by
  unfold samplesAfter nextTick
  rw [ticksAfter]
  split_ifs
  · rfl
  · rfl

/-- There is a sample as soon as there is a call, since the first one is a tick. -/
theorem samplesOf_ne_nil {calls : List ProgressCall} (hne : calls ≠ []) :
    samplesOf diffMsec calls ≠ [] := by
  obtain ⟨call, rest, rfl⟩ := List.exists_cons_of_ne_nil hne
  exact List.cons_ne_nil _ _

/-- **The globals follow the ticks**: they have the time of the last one, and what was
downloaded up to it. -/
structure Follows (last : Option ProgressCall) (m : MeasurementState) : Prop where
  time : m.lastMeasurementFrom = (last.map ProgressCall.measured).getD (-1)
  downloaded : m.lastDlnow = downloadedAt last

/-- The globals behind `_rrc_cleanup_measurement_state` follow a transfer without a tick yet: no
time, and nothing downloaded. -/
theorem Follows.clean : Follows none rrcCleanupMeasurementState := ⟨rfl, rfl⟩

variable {last : Option ProgressCall} {m : MeasurementState}

/-- The callback measures at the ticks, and only there: the time that it remembers is that of the
last one. -/
theorem Follows.measurementDue (h : Follows last m) (call : ProgressCall) :
    measurementDue diffMsec call m = isTick diffMsec last call := by
  rw [RrLauncher.measurementDue, h.time]
  cases last with
  | none => exact Bool.or_true _
  | some last => rfl

/-- The measurement of a callback, and the rest of it, which is not about the ticks. -/
theorem callback_globals (call : ProgressCall) (m : MeasurementState) :
    ∃ lp, (rrcZipdlProgressCallback diffMsec call m).2 =
      { (if RrLauncher.measurementDue diffMsec call m then takeMeasurement call m else m) with
        lp } := by
  unfold rrcZipdlProgressCallback
  dsimp only
  split_ifs
  · exact ⟨_, rfl⟩
  · exact ⟨_, rfl⟩
  · exact ⟨_, rfl⟩
  · exact ⟨_, rfl⟩

/-- **A call** goes on with the ticks and with the samples, or leaves both alone. -/
theorem Tracks.callback {samples : List ℤ} (h : Tracks samples m) (hlast : Follows last m)
    (call : ProgressCall)
    (hs : Measurable (samples ++
      if isTick diffMsec last call then [call.dlnow - downloadedAt last] else [])) :
    Tracks (samples ++ if isTick diffMsec last call then [call.dlnow - downloadedAt last] else [])
        (rrcZipdlProgressCallback diffMsec call m).2 ∧
      Follows (nextTick diffMsec last call) (rrcZipdlProgressCallback diffMsec call m).2 := by
  obtain ⟨lp, hglobals⟩ := callback_globals diffMsec call m
  rw [hlast.measurementDue] at hglobals
  rw [hglobals, nextTick]
  by_cases htick : isTick diffMsec last call = true
  · simp only [if_pos htick] at hs ⊢
    rw [← hlast.downloaded] at hs ⊢
    obtain ⟨hremembers, hspeed⟩ := takeMeasurement_spec h.remembers call hs
    exact ⟨⟨hremembers, fun _ => by rw [shownSamples_concat]; exact hspeed⟩, rfl, rfl⟩
  · simp only [if_neg htick, List.append_nil] at hs ⊢
    exact ⟨⟨h.remembers, h.speed⟩, hlast.time, hlast.downloaded⟩

/-- **A transfer**, by induction on its calls: behind it the globals track the samples of all of its
ticks. -/
theorem Tracks.transfer {samples : List ℤ} (h : Tracks samples m) (hlast : Follows last m)
    (calls : List ProgressCall) (hs : Measurable (samples ++ samplesAfter diffMsec last calls)) :
    Tracks (samples ++ samplesAfter diffMsec last calls) (transfer diffMsec calls m).2 := by
  induction calls generalizing samples last m with
  | nil =>
    rw [samplesAfter, ticksAfter, amountsFrom, List.append_nil]
    exact h
  | cons call calls ih =>
    rw [samplesAfter_cons, ← List.append_assoc] at hs ⊢
    have hprefix := hs.of_isPrefix (List.prefix_append _ _)
    obtain ⟨htracks, hfollows⟩ := h.callback diffMsec hlast call hprefix
    exact ih htracks hfollows hs

end Ticks

/-- **The speed is that of the ten most recent seconds** exactly if it was that of the ten before
the last one: the amounts are summed up before the newest is among them. -/
theorem download_speed_iff (diffMsec : ℤ → ℤ → ℕ) (calls : List ProgressCall) (hne : calls ≠ [])
    (hs : Measurable (samplesOf diffMsec calls)) :
    (transfer diffMsec calls rrcCleanupMeasurementState).2.dlSpeedAvg =
        averageSpeed (samplesOf diffMsec calls) ↔
      averageSpeed (shownSamples (samplesOf diffMsec calls)) =
        averageSpeed (samplesOf diffMsec calls) := by
  have h := Tracks.clean.transfer diffMsec Follows.clean calls (by rwa [List.nil_append])
  rw [List.nil_append] at h
  rw [h.speed (samplesOf_ne_nil diffMsec hne)]
  rfl

/-- Two seconds with 100 bytes each, and a call between them that is no tick. -/
theorem download_speed_iff_steady :
    let diffMsec : ℤ → ℤ → ℕ := fun start stop => (stop - start).toNat
    (transfer diffMsec
      [⟨101, 1000, 100, 0, 0⟩, ⟨101, 1000, 150, 500, 500⟩, ⟨101, 1000, 200, 1001, 1001⟩]
      rrcCleanupMeasurementState).2.dlSpeedAvg = averageSpeed [100, 100] := by
  intro diffMsec
  have hs : Measurable [100, 100] := by
    refine ⟨by decide, fun p hp => ?_⟩
    rw [← List.mem_inits] at hp
    revert p
    decide
  exact (download_speed_iff diffMsec
    [⟨101, 1000, 100, 0, 0⟩, ⟨101, 1000, 150, 500, 500⟩, ⟨101, 1000, 200, 1001, 1001⟩]
    (List.cons_ne_nil _ _) hs).mpr rfl

/-- **The newest second is not in the average**: after seconds with 10 and 1000 bytes the speed
is 10, and the mean is 109. -/
theorem download_speed_lags :
    ¬ ∀ (diffMsec : ℤ → ℤ → ℕ) (calls : List ProgressCall), calls ≠ [] →
        Measurable (samplesOf diffMsec calls) →
        (transfer diffMsec calls rrcCleanupMeasurementState).2.dlSpeedAvg =
          averageSpeed (samplesOf diffMsec calls) := by
  intro h
  have hs : Measurable [10, 1000] := by
    refine ⟨by decide, fun p hp => ?_⟩
    rw [← List.mem_inits] at hp
    revert p
    decide
  have hspeed := h (fun start stop => (stop - start).toNat)
    [⟨101, 2000, 10, 0, 0⟩, ⟨101, 2000, 1010, 1001, 1001⟩] (List.cons_ne_nil _ _) hs
  revert hspeed
  decide

end RrLauncher
