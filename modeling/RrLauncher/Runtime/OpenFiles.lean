/-
# The accounts of the open SD files

The slots of `open_files` are a pool with reference counts, the SD entries are
its resources and the `FileInfo`s its clients, so the invariant of the runs of the game
is `SharedSlots.Accounts` together with what ties a `FileInfo` to its entry: the
start address (`Sys.Inv`).  One step of the game is one of the four ways to keep
the accounts, or does not touch them (`Sys.Inv.step`).
-/

import RrLauncher.Lib.SharedSlots
import RrLauncher.Runtime.FastOpen

namespace RrLauncher

open SharedSlots

/-! ### The invariant -/

/-- The invariant of all runs. -/
structure Sys.Inv (disc : LoadedDisc) (s : Sys) : Prop where
  static : s.rt.riivoDisc.static = disc.static
  accounts : Accounts s.rt.slotOf s.rt.refcounts s.holds
  sd : ∀ fi e, s.use fi = .sd e →
    (s.rt.fileInfos fi).startAddr = specialOf e ∧ e < disc.sdFiles.length
  disc : ∀ fi, s.use fi = .disc → ¬ IsSpecial (s.rt.fileInfos fi).startAddr
  log : ∀ e, s.opens e = s.closes e + (holders s.holds e).card

/-- Every slot counts for an entry of its own, and `e` has none. -/
def Sys.Exhausted (s : Sys) (e : ℕ) : Prop :=
  s.rt.slotOf e = none ∧
    ∃ owner : OpenFilePtr → ℕ, Function.Injective owner ∧ ∀ i, s.rt.slotOf (owner i) = some i

/-- The SD opens and closes of one step are the transitions between no opens and
one open of an entry. -/
inductive SdCallsMatch (layout : Layout) (disc : LoadedDisc) (s s' : Sys) : List SdCall → Prop
  | opened {e : ℕ} {i : OpenFilePtr} {path : CStr} (hs : s.numOpen e = 0) (hs' : s'.numOpen e = 1)
      (hslot : s'.rt.slotOf e = some i) (hpath : (disc.sdFiles[e]?).map (·.path) = some path)
      (hothers : ∀ e' ≠ e, s'.numOpen e' = s.numOpen e') :
      SdCallsMatch layout disc s s' [.open i path]
  | closed {e : ℕ} {i : OpenFilePtr} (hs : s.numOpen e = 1) (hs' : s'.numOpen e = 0)
      (hslot : s.rt.slotOf e = some i) (hothers : ∀ e' ≠ e, s'.numOpen e' = s.numOpen e') :
      SdCallsMatch layout disc s s' [.close (layout.fileStruct i)]
  | none (h : ∀ e, ¬ (s.numOpen e = 0 ∧ s'.numOpen e = 1) ∧ ¬ (s.numOpen e = 1 ∧ s'.numOpen e = 0)) :
      SdCallsMatch layout disc s s' []

/-- A step keeps the invariant, and its SD opens and closes are its transitions. -/
structure StepOk (layout : Layout) (disc : LoadedDisc) (s s' : Sys) : Prop where
  inv : s'.Inv disc
  calls : ∃ new, s'.rt.sdCalls = s.rt.sdCalls ++ new ∧
    SdCallsMatch layout disc s s' (new.filter SdCall.isOpenOrClose)

section Steps

variable {layout : Layout} {disc : LoadedDisc} {env : Env} {s : Sys} {fi : FileInfoPtr} {e : ℕ}

/-- No entry of a loaded disc has a slot, since the loader publishes all files as closed. -/
theorem slotOf_init (disc : LoadedDisc) (fileInfos : FileInfoPtr → FileInfo) :
    (Sys.init disc fileInfos).rt.slotOf = fun _ => none := by
  funext e
  rw [RteState.slotOf, Sys.init]
  cases h : disc.sdFiles[e]? with
  | none => rfl
  | some f => exact disc.closed f (List.mem_of_getElem? h)

/-- **The invariant holds at the start**: no slot is in use, no file has one, and no `FileInfo` is
open. -/
theorem Sys.Inv.init (disc : LoadedDisc) (fileInfos : FileInfoPtr → FileInfo) :
    (Sys.init disc fileInfos).Inv disc := by
  refine ⟨rfl, ?_, fun fi e h => (by cases h), fun fi h => (by cases h), fun e => ?_⟩
  · rw [slotOf_init]
    exact Accounts.init
  · have hnone : holders (Sys.init disc fileInfos).holds e = ∅ := by
      ext
      simp [Sys.init, Sys.holds, Use.entry]
    rw [hnone]
    rfl

/-- A valid entry is in the runtime's table, under its path. -/
theorem Sys.Inv.etp (h : s.Inv disc) (he : e < disc.sdFiles.length) :
    ∃ etp, s.rt.riivoDisc.sdFiles[e]? = some etp ∧
      (disc.sdFiles[e]?).map (·.path) = some etp.path := by
  have hpaths := (Prod.mk.inj h.static).1
  have hget := congrArg (·[e]?) hpaths
  simp only [List.getElem?_map] at hget
  have hlen : e < s.rt.riivoDisc.sdFiles.length := by
    rw [← List.length_map (f := (·.path)), hpaths, List.length_map]
    exact he
  rw [List.getElem?_eq_getElem hlen] at hget ⊢
  exact ⟨_, rfl, hget.symm⟩

/-- The number of opens that were not closed is the number of `FileInfo`s that
have the entry open. -/
theorem Sys.Inv.numOpen_eq (h : s.Inv disc) (e : ℕ) : s.numOpen e = (holders s.holds e).card := by
  rw [Sys.numOpen, h.log e]
  omega

/-- A slot in use counts between one and the number of `FileInfo`s. -/
theorem Sys.Inv.refcount_bounds (h : s.Inv disc) {i : OpenFilePtr} (hs : s.rt.slotOf e = some i) :
    0 < s.rt.refcounts i ∧ s.rt.refcounts i ≤ 2 ^ 30 := by
  have hle := h.accounts.count_le hs
  rw [Fintype.card_fin] at hle
  exact ⟨(h.accounts.shared e i hs).2, hle⟩

/-- A `FileInfo` that is not open on an SD entry holds none. -/
theorem holds_eq_none (hfi : s.use fi = .closed ∨ s.use fi = .disc) : s.holds fi = none := by
  rw [Sys.holds, Function.comp_apply]
  rcases hfi with hfi | hfi <;> rw [hfi] <;> rfl

/-- A file info that is in use for a file of the card holds that file. -/
theorem holds_eq_some (hfi : s.use fi = .sd e) : s.holds fi = some e := by
  rw [Sys.holds, Function.comp_apply, hfi]
  rfl

/-- Opening an SD entry keeps the invariant if it keeps the accounts. -/
theorem Sys.Inv.recordOpen_sd (h : s.Inv disc) (hfi : s.use fi = .closed)
    (he : e < disc.sdFiles.length) {rt : RteState} {n : UInt32} {res : ℤ}
    (hstatic : rt.riivoDisc.static = s.rt.riivoDisc.static)
    (hinfos : rt.fileInfos = Function.update s.rt.fileInfos fi ⟨specialOf e, n⟩)
    (hacc : Accounts rt.slotOf rt.refcounts (Function.update s.holds fi (some e))) :
    (s.recordOpen rt fi (some e) res).Inv disc := by
  have hnone := holds_eq_none (Or.inl hfi)
  constructor
  case static => exact (congrArg _ (congrArg _ (Sys.recordOpen_rt ..))).trans (hstatic.trans h.static)
  case accounts => rwa [Sys.holds_recordOpen_some, Sys.recordOpen_rt]
  case sd =>
    intro fi' e' hu
    rw [Sys.recordOpen_use_some] at hu
    rw [Sys.recordOpen_rt, hinfos]
    by_cases hf : fi' = fi
    · subst hf
      rw [Function.update_self] at hu ⊢
      cases hu
      exact ⟨rfl, he⟩
    · rw [Function.update_of_ne hf] at hu ⊢
      exact h.sd fi' e' hu
  case disc =>
    intro fi' hu
    rw [Sys.recordOpen_use_some] at hu
    rw [Sys.recordOpen_rt, hinfos]
    by_cases hf : fi' = fi
    · subst hf
      rw [Function.update_self] at hu
      cases hu
    · rw [Function.update_of_ne hf] at hu ⊢
      exact h.disc fi' hu
  case log =>
    intro e'
    rw [Sys.holds_recordOpen_some, Sys.recordOpen_opens_some, Sys.recordOpen_closes]
    by_cases hee : e' = e
    · subst hee
      rw [card_holders_take hnone, Function.update_self, h.log e', Nat.add_assoc]
    · rw [holders_take_of_ne hnone hee, Function.update_of_ne hee]
      exact h.log e'

/-- So does opening a disc file, or failing to, which does not touch them. -/
theorem Sys.Inv.recordOpen_disc (h : s.Inv disc) (hfi : s.use fi = .closed) {info : FileInfo}
    {res : ℤ} (hinfo : Opened res → ¬ IsSpecial info.startAddr) :
    (s.recordOpen (s.rt.setFileInfo fi info) fi none res).Inv disc := by
  have hholds : (s.recordOpen (s.rt.setFileInfo fi info) fi none res).holds = s.holds := by
    refine (Function.comp_update _ _ _ _).trans (Function.update_eq_self_iff.mpr ?_)
    rw [Function.comp_apply, hfi]
    split <;> rfl
  constructor
  case static => exact h.static
  case accounts => exact hholds ▸ h.accounts
  case sd =>
    intro fi' e' hu
    rw [Sys.recordOpen_use_none] at hu
    rw [Sys.recordOpen_rt, RteState.fileInfos_setFileInfo]
    by_cases hf : fi' = fi
    · subst hf
      rw [Function.update_self] at hu
      split at hu <;> cases hu
    · rw [Function.update_of_ne hf] at hu ⊢
      exact h.sd fi' e' hu
  case disc =>
    intro fi' hu
    rw [Sys.recordOpen_use_none] at hu
    rw [Sys.recordOpen_rt, RteState.fileInfos_setFileInfo]
    by_cases hf : fi' = fi
    · subst hf
      rw [Function.update_self] at hu ⊢
      split at hu
      · exact hinfo ‹_›
      · cases hu
    · rw [Function.update_of_ne hf] at hu ⊢
      exact h.disc fi' hu
  case log => exact hholds ▸ h.log

/-- Closing an SD entry keeps the invariant if it keeps the accounts. -/
theorem Sys.Inv.recordClose_sd (h : s.Inv disc) (hfi : s.use fi = .sd e) {rt : RteState}
    (hstatic : rt.riivoDisc.static = s.rt.riivoDisc.static)
    (hinfos : rt.fileInfos = s.rt.fileInfos)
    (hacc : Accounts rt.slotOf rt.refcounts (Function.update s.holds fi none)) :
    (s.recordClose rt fi).Inv disc := by
  have hsome := holds_eq_some hfi
  constructor
  case static => exact hstatic.trans h.static
  case accounts => rwa [Sys.holds_recordClose]
  case sd =>
    intro fi' e' hu
    rw [Sys.recordClose_rt, hinfos]
    exact h.sd fi' e' (s.use_of_recordClose rt fi (by simp) hu)
  case disc =>
    intro fi' hu
    rw [Sys.recordClose_rt, hinfos]
    exact h.disc fi' (s.use_of_recordClose rt fi (by simp) hu)
  case log =>
    intro e'
    rw [Sys.holds_recordClose, s.recordClose_closes rt fi hfi, Sys.recordClose_opens]
    by_cases hee : e' = e
    · subst hee
      have hcard := card_holders_give hsome
      have hlog := h.log e'
      rw [Function.update_self]
      omega
    · rw [holders_give_of_ne hsome hee, Function.update_of_ne hee]
      exact h.log e'

/-- Closing a disc file does not touch the accounts, which are about files of the card. -/
theorem Sys.Inv.recordClose_disc (h : s.Inv disc) (hfi : s.use fi = .disc) :
    (s.recordClose s.rt fi).Inv disc := by
  have hholds : (s.recordClose s.rt fi).holds = s.holds := by
    rw [Sys.holds_recordClose, Function.update_eq_self_iff, holds_eq_none (Or.inr hfi)]
  have hcloses : (s.recordClose s.rt fi).closes = s.closes := by
    simp only [Sys.recordClose, hfi]
  constructor
  case static => exact h.static
  case accounts => exact hholds ▸ h.accounts
  case sd => exact fun fi' e' hu => h.sd fi' e' (s.use_of_recordClose s.rt fi (by simp) hu)
  case disc => exact fun fi' hu => h.disc fi' (s.use_of_recordClose s.rt fi (by simp) hu)
  case log => exact fun e' => by rw [hholds, hcloses, Sys.recordClose_opens, h.log e']

/-- Opens and closes that leave the others alone and do not pass between none and
one are no transition. -/
theorem SdCallsMatch.none_of_pos {s' : Sys} (h : 0 < s.numOpen e) (h' : 0 < s'.numOpen e)
    (hothers : ∀ e' ≠ e, s'.numOpen e' = s.numOpen e') : SdCallsMatch layout disc s s' [] := by
  refine SdCallsMatch.none fun e' => ?_
  by_cases hee : e' = e
  · subst hee
    omega
  · have := hothers e' hee
    omega

/-- **Opening an SD entry** runs out of slots, or keeps the invariant and opens
the SD file if it is the first open of the entry. -/
theorem Sys.Inv.openEntry (h : s.Inv disc) (henv : env.Good layout) (hfi : s.use fi = .closed)
    (he : e < disc.sdFiles.length) (res : ℤ) :
    (s.Exhausted e ∧ rteDvdOpenEntryNum layout env e fi s.rt = .error .tooManyOpen) ∨
      ¬ s.Exhausted e ∧ ∃ rt, rteDvdOpenEntryNum layout env e fi s.rt = .ok rt ∧
        StepOk layout disc s (s.recordOpen rt fi (some e) res) := by
  obtain ⟨etp, hetp, hpath⟩ := h.etp he
  have hslot := s.rt.slotOf_eq hetp
  have hnone := holds_eq_none (Or.inl hfi)
  have hothers : ∀ rt, ∀ e' ≠ e, (s.recordOpen rt fi (some e) res).numOpen e' = s.numOpen e' := by
    intro rt e' hee
    rw [Sys.numOpen, Sys.recordOpen_opens_some, Sys.recordOpen_closes, Function.update_of_ne hee,
      Sys.numOpen]
  have hself : ∀ rt, (s.recordOpen rt fi (some e) res).numOpen e = s.numOpen e + 1 := by
    intro rt
    rw [Sys.numOpen, Sys.recordOpen_opens_some, Sys.recordOpen_closes, Function.update_self,
      Sys.numOpen]
    omega
  cases hi : etp.fileInfo with
  | some i =>
    -- the entry is open: its slot counts one more
    rw [hi] at hslot
    obtain ⟨hpos, hle⟩ := h.refcount_bounds hslot
    refine Or.inr ⟨fun hex => (by rw [hex.1] at hslot; cases hslot), _,
      rteDvdOpenEntryNum_shared hetp hi, ?_⟩
    rw [s32_eq (by omega) (by omega)]
    refine ⟨h.recordOpen_sd hfi he rfl rfl ?_, [], (List.append_nil _).symm, ?_⟩
    · rw [RteState.refcounts_setRefcount]
      exact h.accounts.join hnone hslot
    · have hcount := (h.accounts.shared e i hslot).1
      rw [← h.numOpen_eq] at hcount
      exact SdCallsMatch.none_of_pos (e := e) (by omega) (by rw [hself]; omega) (hothers _)
  | none =>
    rw [hi] at hslot
    cases hfree : (List.finRange maxConcurrentFiles).find?
      fun i => (s.rt.openFiles i).refcount = 0 with
    | none =>
      -- no slot is free: each belongs to an entry of its own
      have hfull : ∀ i, (s.rt.openFiles i).refcount ≠ 0 := fun i => by
        simpa using List.find?_eq_none.mp hfree i (List.mem_finRange i)
      exact Or.inl ⟨⟨hslot, h.accounts.owners hfull⟩, rteDvdOpenEntryNum_full hetp hi hfree⟩
    | some i =>
      -- the first open of the entry: it gets the free slot
      have hzero : (s.rt.openFiles i).refcount = 0 := by simpa using List.find?_some hfree
      obtain ⟨n, hopen⟩ := rteDvdOpenEntryNum_first hetp hi hfree (henv.sdOpen i etp.path)
      refine Or.inr ⟨fun hex => ?_, _, hopen, ?_⟩
      · obtain ⟨owner, -, howner⟩ := hex.2
        exact (h.accounts.shared _ i (howner i)).2.ne' hzero
      have hslots : ((((s.rt.setRefcount i 1).trace (.open i etp.path)).setFilesize i
          n).setEtpFileInfo e etp (some i)).slotOf = Function.update s.rt.slotOf e (some i) :=
        RteState.slotOf_setEtpFileInfo _ hetp _
      refine ⟨h.recordOpen_sd hfi he (static_setEtpFileInfo _ hetp _) rfl ?_,
        [.open i etp.path], rfl, ?_⟩
      · rw [RteState.slotOf_setFileInfo, hslots]
        simp only [RteState.refcounts_setFileInfo, RteState.refcounts_setEtpFileInfo,
          RteState.refcounts_setFilesize, RteState.refcounts_trace, RteState.refcounts_setRefcount]
        exact h.accounts.allocate hnone hslot hzero
      · have hopen₀ : s.numOpen e = 0 := by
          rw [h.numOpen_eq, h.accounts.idle e hslot]
          rfl
        refine SdCallsMatch.opened hopen₀ (by rw [hself, hopen₀]; rfl) ?_ hpath (hothers _)
        rw [Sys.recordOpen_rt, RteState.slotOf_setFileInfo, hslots, Function.update_self]

/-- **Closing an SD entry** keeps the invariant and closes the SD file if it is
the last close of the entry. -/
theorem Sys.Inv.closeEntry (h : s.Inv disc) (henv : env.Good layout) (hfi : s.use fi = .sd e) :
    ∃ rt, customCloseImpl layout env fi s.rt = .ok (1, rt) ∧
      StepOk layout disc s (s.recordClose rt fi) := by
  obtain ⟨haddr, he⟩ := h.sd fi e hfi
  obtain ⟨etp, hetp, -⟩ := h.etp he
  have hsome := holds_eq_some hfi
  obtain ⟨i, hslot⟩ := h.accounts.slot_of_holds hsome
  obtain ⟨hpos, hle⟩ := h.refcount_bounds hslot
  have hcount := (h.accounts.shared e i hslot).1
  rw [← h.numOpen_eq] at hcount
  have hothers : ∀ rt, ∀ e' ≠ e, (s.recordClose rt fi).numOpen e' = s.numOpen e' := by
    intro rt e' hee
    rw [Sys.numOpen, s.recordClose_closes rt fi hfi, Sys.recordClose_opens,
      Function.update_of_ne hee, Sys.numOpen]
  have hself : ∀ rt, (s.recordClose rt fi).numOpen e = s.numOpen e - 1 := by
    intro rt
    rw [Sys.numOpen, s.recordClose_closes rt fi hfi, Sys.recordClose_opens, Function.update_self,
      Sys.numOpen]
    omega
  refine ⟨_, customCloseImpl_sd haddr (disc.lt_pow he) hetp ((s.rt.slotOf_eq hetp).symm.trans hslot)
    hpos.ne' henv.sdClose, ?_⟩
  rw [s32_eq (by omega) (by omega)]
  by_cases hlast : s.rt.refcounts i - 1 = 0
  · -- the last close of the entry: its slot is free again
    rw [if_pos hlast]
    have hslots : (((s.rt.setRefcount i (s.rt.refcounts i - 1)).trace
        (.close (layout.fileStruct i))).setEtpFileInfo e etp none).slotOf =
        Function.update s.rt.slotOf e none := RteState.slotOf_setEtpFileInfo _ hetp _
    refine ⟨h.recordClose_sd hfi (static_setEtpFileInfo _ hetp _) rfl ?_,
      [.close (layout.fileStruct i)], rfl, ?_⟩
    · rw [hslots, RteState.refcounts_setEtpFileInfo, RteState.refcounts_trace,
        RteState.refcounts_setRefcount]
      exact h.accounts.drop hsome hslot hlast
    · exact SdCallsMatch.closed (e := e) (by omega) (by rw [hself]; omega) hslot (hothers _)
  · -- others have the entry open
    rw [if_neg hlast]
    refine ⟨h.recordClose_sd hfi rfl rfl ?_, [], (List.append_nil _).symm, ?_⟩
    · rw [RteState.refcounts_setRefcount]
      exact h.accounts.leave hsome hslot hlast
    · exact SdCallsMatch.none_of_pos (e := e) (by omega) (by rw [hself]; omega) (hothers _)

/-- A step without SD opens and closes that keeps the invariant and the log. -/
theorem StepOk.of_log {s' : Sys} (new : List SdCall) (hinv : s'.Inv disc)
    (hcalls : s'.rt.sdCalls = s.rt.sdCalls ++ new)
    (hnew : new.filter SdCall.isOpenOrClose = []) (hlog : ∀ e, s'.numOpen e = s.numOpen e) :
    StepOk layout disc s s' :=
  ⟨hinv, new, hcalls, hnew ▸ SdCallsMatch.none fun e => by rw [hlog e]; omega⟩

/-- **Reading** what is open works in every state with the invariant, and leaves the accounts as
they are. -/
theorem Sys.Inv.readPrio (h : s.Inv disc) (henv : env.Good layout) (hfi : s.use fi ≠ .closed)
    (length offset : ℤ) : ∃ res rt, customReadPrioImpl layout env fi length offset s.rt = .ok (res, rt) ∧
      StepOk layout disc s { s with rt := rt } := by
  cases huse : s.use fi with
  | closed => exact absurd huse hfi
  | disc =>
    refine ⟨_, s.rt, by rw [customReadPrioImpl, if_neg (h.disc fi huse)], ?_⟩
    exact StepOk.of_log [] h (List.append_nil _).symm rfl fun _ => rfl
  | sd e =>
    obtain ⟨haddr, he⟩ := h.sd fi e huse
    obtain ⟨etp, hetp, -⟩ := h.etp he
    obtain ⟨i, hslot⟩ := h.accounts.slot_of_holds (holds_eq_some huse)
    refine ⟨_, _, customReadPrioImpl_sd haddr (disc.lt_pow he) hetp
      ((s.rt.slotOf_eq hetp).symm.trans hslot) henv.sdSeek henv.sdRead, ?_⟩
    refine StepOk.of_log [.seek (layout.fileStruct i) offset, .read (layout.fileStruct i) length]
      ⟨h.static, h.accounts, h.sd, h.disc, h.log⟩ ?_ rfl fun _ => rfl
    simp [RteState.trace]

/-- An entry number of the game is that of a valid SD entry, or not special. -/
theorem entryNum_of_convert {env : Env} {filename : CStr} {entryNum : UInt32}
    (h : customConvertPathToEntryNumImpl env disc.toRrcRiivoDisc filename = .ok entryNum) :
    (∃ e, e < disc.sdFiles.length ∧ entryNum = specialOf e) ∨ ¬ IsSpecial entryNum := by
  rw [customConvertPathToEntryNumImpl] at h
  split at h
  · rename_i e he
    exact Or.inl ⟨e, disc.resolve_lt he, (Except.ok.inj h).symm⟩
  · simp only at h
    split at h
    · cases h
    · rename_i hs
      exact Or.inr (Except.ok.inj h ▸ hs)

/-- An open call that resolves to an SD entry opens it. -/
theorem Sys.step_open {path : CStr} (hres : rteDvdResolvePathToEntryNum s.rt.riivoDisc path = some e) :
    s.step layout env (.open path fi) = do
      return s.recordOpen (← rteDvdOpenEntryNum layout env e fi s.rt) fi (some e) 1 := by
  simp only [Sys.step, customOpenImpl, Call.target, hres]
  cases rteDvdOpenEntryNum layout env e fi s.rt <;> rfl

/-- So does a fast open call with its special entry number. -/
theorem Sys.step_fastOpen (he : e < 2 ^ 22) : s.step layout env (.fastOpen (specialOf e) fi) = do
      return s.recordOpen (← rteDvdOpenEntryNum layout env e fi s.rt) fi (some e) 1 := by
  simp only [Sys.step, customFastOpenImpl, Call.target, isSpecial_specialOf he, if_true,
    entryNumOf_specialOf he]
  cases rteDvdOpenEntryNum layout env e fi s.rt <;> rfl

/-- **One step of the game**: it runs out of slots, or it succeeds and keeps the
invariant. -/
theorem Sys.Inv.step (h : s.Inv disc) {call : Call} (hcall : Allowed disc s call)
    (henv : env.Good layout) :
    (∃ e, call.target disc.toRrcRiivoDisc = some e ∧ s.Exhausted e ∧
      s.step layout env call = .error .tooManyOpen) ∨
    ((∀ e, call.target disc.toRrcRiivoDisc = some e → ¬ s.Exhausted e) ∧
      ∃ s', s.step layout env call = .ok s' ∧ StepOk layout disc s s') := by
  cases call with
  | «open» path fi =>
    rw [Call.target, ← resolve_congr h.static]
    cases hres : rteDvdResolvePathToEntryNum s.rt.riivoDisc path with
    | none =>
      refine Or.inr ⟨by simp, _, by simp only [Sys.step, customOpenImpl, Call.target, hres]; rfl, ?_⟩
      exact StepOk.of_log [] (h.recordOpen_disc hcall (henv.discOpen path))
        (List.append_nil _).symm rfl fun _ => rfl
    | some e =>
      have he : e < disc.sdFiles.length := disc.resolve_lt ((resolve_congr h.static path) ▸ hres)
      rw [Sys.step_open hres]
      rcases h.openEntry henv hcall he 1 with ⟨hex, herr⟩ | ⟨hex, rt, hok, hstep⟩
      · exact Or.inl ⟨e, rfl, hex, by rw [herr]; rfl⟩
      · exact Or.inr ⟨fun e' he' => Option.some.inj he' ▸ hex, _, by rw [hok]; rfl, hstep⟩
  | fastOpen entryNum fi =>
    obtain ⟨hfi, env', filename, hconvert⟩ := hcall
    rcases entryNum_of_convert hconvert with ⟨e, he, rfl⟩ | hs
    · have hlt := disc.lt_pow he
      rw [Sys.step_fastOpen hlt, Call.target, if_pos (isSpecial_specialOf hlt),
        entryNumOf_specialOf hlt]
      rcases h.openEntry henv hfi he 1 with ⟨hex, herr⟩ | ⟨hex, rt, hok, hstep⟩
      · exact Or.inl ⟨e, rfl, hex, by rw [herr]; rfl⟩
      · exact Or.inr ⟨fun e' he' => Option.some.inj he' ▸ hex, _, by rw [hok]; rfl, hstep⟩
    · have hinfo := henv.discFastOpen entryNum
      simp only [Sys.step, customFastOpenImpl, Call.target, if_neg hs,
        RteState.fileInfos_setFileInfo, Function.update_self]
      rw [if_neg fun hbad => hinfo hbad.1 hbad.2]
      refine Or.inr ⟨by simp, _, rfl, ?_⟩
      exact StepOk.of_log [] (h.recordOpen_disc hfi fun hopen => hinfo hopen.2)
        (List.append_nil _).symm rfl fun _ => rfl
  | readPrio fi length offset =>
    obtain ⟨res, rt, hok, hstep⟩ := h.readPrio henv hcall length offset
    refine Or.inr ⟨by simp [Call.target], _, ?_, hstep⟩
    rw [Sys.step, hok]
    rfl
  | close fi =>
    refine Or.inr ⟨by simp [Call.target], ?_⟩
    rw [Sys.step]
    cases huse : s.use fi with
    | closed => exact absurd huse hcall
    | disc =>
      rw [customCloseImpl, if_neg (h.disc fi huse)]
      refine ⟨_, rfl, StepOk.of_log [] (h.recordClose_disc huse) (List.append_nil _).symm rfl
        fun e => ?_⟩
      simp only [Sys.numOpen, Sys.recordClose, huse]
    | sd e =>
      obtain ⟨rt, hok, hstep⟩ := h.closeEntry henv huse
      rw [hok]
      exact ⟨_, rfl, hstep⟩

/-- **Every run keeps the invariant**, by induction on its calls from the start. -/
theorem Reachable.inv (h : Reachable layout disc s) : s.Inv disc := by
  induction h with
  | init fileInfos => exact Sys.Inv.init disc fileInfos
  | step hs hcall henv hstep ih =>
    rcases ih.step hcall henv with ⟨e, -, -, herr⟩ | ⟨-, s', hok, hinv⟩
    · rw [herr] at hstep
      cases hstep
    · rw [hok] at hstep
      exact Except.ok.inj hstep ▸ hinv.inv

end Steps

section Slots

variable (fi fi' : FileInfoPtr)

end Slots

end RrLauncher
