/-
# What a call of the game does

`Sys.Effect` says of every call of the game that returns which SD functions it calls, which entry
gets or loses its slot, and what becomes of the `FileInfo`s and of the sizes in the slots.
Every call has such an effect (`Sys.Inv.effect`).
-/

import RrLauncher.Runtime.OpenFiles

namespace RrLauncher

open SharedSlots

/-- The sizes in the `FILE_STRUCT`s of `open_files`. -/
def RteState.filesizes (s : RteState) : OpenFilePtr → UInt32 := RteOpenFile.filesize ∘ s.openFiles

namespace RteState

variable (s : RteState)

/-- Setting a reference count leaves the sizes of the files in the pool. -/
@[simp] theorem filesizes_setRefcount (i : OpenFilePtr) (r : ℤ) :
    (s.setRefcount i r).filesizes = s.filesizes :=
  (Function.comp_update _ _ _ _).trans (Function.update_eq_self i s.filesizes)

/-- Noting the size of a file changes the size in its own slot alone. -/
@[simp] theorem filesizes_setFilesize (i : OpenFilePtr) (n : UInt32) :
    (s.setFilesize i n).filesizes = Function.update s.filesizes i n :=
  Function.comp_update _ _ _ _

/-- Filling the game's file info leaves the sizes of the files in the pool. -/
@[simp] theorem filesizes_setFileInfo (fi : FileInfoPtr) (info : FileInfo) :
    (s.setFileInfo fi info).filesizes = s.filesizes := rfl

/-- Attaching a slot to a file of the card leaves the sizes of the files in the pool. -/
@[simp] theorem filesizes_setEtpFileInfo (e : ℕ) (etp : RrcRiivoSdFile)
    (file : Option OpenFilePtr) : (s.setEtpFileInfo e etp file).filesizes = s.filesizes := rfl

/-- Calling a function of the card leaves the sizes of the files in the pool. -/
@[simp] theorem filesizes_trace (call : SdCall) : (s.trace call).filesizes = s.filesizes := rfl

end RteState

/-- The SD path of an entry. -/
def LoadedDisc.pathOf (disc : LoadedDisc) (e : ℕ) : Option CStr := (disc.sdFiles[e]?).map (·.path)

/-- Every `FileInfo` that is open on an SD entry then was so before, and is as it was. -/
def Sys.KeepsOpen (s s' : Sys) : Prop :=
  ∀ fi e, s'.use fi = .sd e → s.use fi = .sd e ∧ s'.rt.fileInfos fi = s.rt.fileInfos fi

/-- What a call does, with the SD functions that it calls. -/
inductive Sys.Effect (layout : Layout) (disc : LoadedDisc) (env : Env) (s s' : Sys) :
    Call → List SdCall → Prop
  | silent {call : Call} (hslots : s'.rt.slotOf = s.rt.slotOf)
      (hsizes : s'.rt.filesizes = s.rt.filesizes) (hopen : s.KeepsOpen s') :
      Sys.Effect layout disc env s s' call []
  | shared {call : Call} {fi : FileInfoPtr} {e : ℕ} {i : OpenFilePtr} (hslot : s.rt.slotOf e = some i)
      (hslots : s'.rt.slotOf = s.rt.slotOf) (hsizes : s'.rt.filesizes = s.rt.filesizes)
      (huse : s'.use = Function.update s.use fi (.sd e))
      (hinfos : s'.rt.fileInfos =
        Function.update s.rt.fileInfos fi ⟨specialOf e, s.rt.filesizes i⟩) :
      Sys.Effect layout disc env s s' call []
  | opened {call : Call} {fi : FileInfoPtr} {e : ℕ} {i : OpenFilePtr} {path : CStr}
      (hfree : ∀ e', s.rt.slotOf e' ≠ some i) (hpath : disc.pathOf e = some path)
      (hslots : s'.rt.slotOf = Function.update s.rt.slotOf e (some i))
      (hsizes : s'.rt.filesizes = Function.update s.rt.filesizes i (env.sdOpen i path).2)
      (huse : s'.use = Function.update s.use fi (.sd e))
      (hinfos : s'.rt.fileInfos =
        Function.update s.rt.fileInfos fi ⟨specialOf e, (env.sdOpen i path).2⟩) :
      Sys.Effect layout disc env s s' call [.open i path]
  | read {fi : FileInfoPtr} {e : ℕ} {i : OpenFilePtr} {length offset : ℤ} (hfi : s.use fi = .sd e)
      (hslot : s.rt.slotOf e = some i) (hslots : s'.rt.slotOf = s.rt.slotOf)
      (hsizes : s'.rt.filesizes = s.rt.filesizes) (hopen : s.KeepsOpen s') :
      Sys.Effect layout disc env s s' (.readPrio fi length offset)
        [.seek (layout.fileStruct i) offset, .read (layout.fileStruct i) length]
  | closed {call : Call} {e : ℕ} {i : OpenFilePtr} (hslot : s.rt.slotOf e = some i)
      (hslots : s'.rt.slotOf = Function.update s.rt.slotOf e none)
      (hsizes : s'.rt.filesizes = s.rt.filesizes) (hopen : s.KeepsOpen s') :
      Sys.Effect layout disc env s s' call [.close (layout.fileStruct i)]

section Effect

variable {layout : Layout} {disc : LoadedDisc} {env : Env} {s : Sys} {fi : FileInfoPtr} {e : ℕ}

/-- Closing one file info keeps what all of the others are open on, if the close itself left their
contents alone. -/
theorem Sys.KeepsOpen.recordClose (s : Sys) {rt : RteState} (fi : FileInfoPtr)
    (hinfos : rt.fileInfos = s.rt.fileInfos) : s.KeepsOpen (s.recordClose rt fi) := fun fi' e hu =>
  ⟨s.use_of_recordClose rt fi (by simp) hu, congrFun hinfos fi'⟩

/-- A `FileInfo` of a disc file is filled, and what the others are open on is kept. -/
theorem Sys.KeepsOpen.recordOpen_none (s : Sys) (fi : FileInfoPtr) (info : FileInfo) (res : ℤ) :
    s.KeepsOpen (s.recordOpen (s.rt.setFileInfo fi info) fi none res) := by
  intro fi' e hu
  rw [Sys.recordOpen_use_none] at hu
  by_cases hf : fi' = fi
  · subst hf
    rw [Function.update_self] at hu
    split at hu <;> cases hu
  · rw [Function.update_of_ne hf] at hu
    rw [Sys.recordOpen_rt, RteState.fileInfos_setFileInfo, Function.update_of_ne hf]
    exact ⟨hu, rfl⟩

/-- The first open of an entry stores the size that `SD_open` leaves. -/
theorem rteDvdOpenEntryNum_free {s : RteState} {etp : RrcRiivoSdFile} {i : OpenFilePtr}
    (h : s.riivoDisc.sdFiles[e]? = some etp) (hi : etp.fileInfo = none)
    (hfree : (List.finRange maxConcurrentFiles).find?
      (fun i => (s.openFiles i).refcount = 0) = some i)
    (hfd : (env.sdOpen i etp.path).1 = layout.fileStruct i) :
    rteDvdOpenEntryNum layout env e fi s =
      .ok (((((s.setRefcount i 1).trace (.open i etp.path)).setFilesize i
        (env.sdOpen i etp.path).2).setEtpFileInfo e etp (some i)).setFileInfo fi
          ⟨specialOf e, (env.sdOpen i etp.path).2⟩) := by
  have hne := layout.fileStruct_ne_neg_one i
  simp only [rteDvdOpenEntryNum, etpOf, h, bind, Except.bind, hi, rteDvdAllocOpenFile, hfree, hfd,
    if_neg hne]
  simp [RteState.setFilesize, RteState.setEtpFileInfo, pure, Except.pure]

/-- **Opening an SD entry** has the effect of an open: the file of the card is opened if it was not,
and a reference is counted if it was. -/
theorem Sys.Inv.effect_openEntry (h : s.Inv disc) (henv : env.Good layout)
    (he : e < disc.sdFiles.length) {rt : RteState} {res : ℤ} (call : Call)
    (hok : rteDvdOpenEntryNum layout env e fi s.rt = .ok rt) :
    ∃ calls, rt.sdCalls = s.rt.sdCalls ++ calls ∧
      Sys.Effect layout disc env s (s.recordOpen rt fi (some e) res) call calls := by
  obtain ⟨etp, hetp, hpath⟩ := h.etp he
  have hslot := s.rt.slotOf_eq hetp
  cases hi : etp.fileInfo with
  | some i =>
    rw [rteDvdOpenEntryNum_shared hetp hi, Except.ok.injEq] at hok
    subst hok
    refine ⟨[], (List.append_nil _).symm, .shared (hslot.trans hi) ?_ ?_ rfl ?_⟩
    · rw [Sys.recordOpen_rt, RteState.slotOf_setRefcount, RteState.slotOf_setFileInfo]
    · rw [Sys.recordOpen_rt, RteState.filesizes_setRefcount, RteState.filesizes_setFileInfo]
    · rw [Sys.recordOpen_rt]
      rfl
  | none =>
    cases hfree : (List.finRange maxConcurrentFiles).find?
      fun i => (s.rt.openFiles i).refcount = 0 with
    | none =>
      rw [rteDvdOpenEntryNum_full hetp hi hfree] at hok
      cases hok
    | some i =>
      have hzero : (s.rt.openFiles i).refcount = 0 := by simpa using List.find?_some hfree
      rw [rteDvdOpenEntryNum_free hetp hi hfree (henv.sdOpen i etp.path), Except.ok.injEq] at hok
      subst hok
      refine ⟨[.open i etp.path], rfl, .opened (fun e' he' => ?_) hpath ?_ ?_ rfl ?_⟩
      · exact (h.accounts.shared e' i he').2.ne' hzero
      · rw [Sys.recordOpen_rt, RteState.slotOf_setFileInfo]
        exact RteState.slotOf_setEtpFileInfo _ hetp _
      · rw [Sys.recordOpen_rt, RteState.filesizes_setFileInfo, RteState.filesizes_setEtpFileInfo,
          RteState.filesizes_setFilesize, RteState.filesizes_trace, RteState.filesizes_setRefcount]
      · rw [Sys.recordOpen_rt]
        rfl

/-- **Closing an SD entry** has the effect of a close: the file of the card is closed with its last
reference. -/
theorem Sys.Inv.effect_closeEntry (h : s.Inv disc) (henv : env.Good layout) (hfi : s.use fi = .sd e)
    {rt : RteState} {res : ℤ} (call : Call)
    (hok : customCloseImpl layout env fi s.rt = .ok (res, rt)) :
    ∃ calls, rt.sdCalls = s.rt.sdCalls ++ calls ∧
      Sys.Effect layout disc env s (s.recordClose rt fi) call calls := by
  obtain ⟨haddr, he⟩ := h.sd fi e hfi
  obtain ⟨etp, hetp, -⟩ := h.etp he
  obtain ⟨i, hslot⟩ := h.accounts.slot_of_holds (holds_eq_some hfi)
  obtain ⟨hpos, -⟩ := h.refcount_bounds hslot
  rw [customCloseImpl_sd haddr (disc.lt_pow he) hetp ((s.rt.slotOf_eq hetp).symm.trans hslot) hpos.ne'
    henv.sdClose, Except.ok.injEq, Prod.mk.injEq] at hok
  obtain ⟨-, hrt⟩ := hok
  split at hrt
  · subst hrt
    exact ⟨[.close (layout.fileStruct i)], rfl,
      .closed hslot (RteState.slotOf_setEtpFileInfo _ hetp _)
        (RteState.filesizes_setRefcount s.rt i _) (.recordClose s fi rfl)⟩
  · subst hrt
    exact ⟨[], (List.append_nil _).symm,
      .silent rfl (RteState.filesizes_setRefcount s.rt i _) (.recordClose s fi rfl)⟩

/-- **Reading from an SD entry** seeks and reads in its slot. -/
theorem Sys.Inv.step_readPrio (h : s.Inv disc) (henv : env.Good layout) (hfi : s.use fi = .sd e)
    {i : OpenFilePtr} (hslot : s.rt.slotOf e = some i) (length offset : ℤ) :
    s.step layout env (.readPrio fi length offset) =
      .ok { s with
        rt := (s.rt.trace (.seek (layout.fileStruct i) offset)).trace
          (.read (layout.fileStruct i) length) } := by
  obtain ⟨haddr, he⟩ := h.sd fi e hfi
  obtain ⟨etp, hetp, -⟩ := h.etp he
  rw [Sys.step, customReadPrioImpl_sd haddr (disc.lt_pow he) hetp
    ((s.rt.slotOf_eq hetp).symm.trans hslot) henv.sdSeek henv.sdRead]
  rfl

/-- **Every call has an effect** that its arguments and the state before determine, and all it does
with the card is what the effect says. -/
theorem Sys.Inv.effect (h : s.Inv disc) {call : Call} (hcall : Allowed disc s call)
    (henv : env.Good layout) {s' : Sys} (hstep : s.step layout env call = .ok s') :
    ∃ calls, s'.rt.sdCalls = s.rt.sdCalls ++ calls ∧ Sys.Effect layout disc env s s' call calls := by
  cases call with
  | «open» path fi =>
    cases hres : rteDvdResolvePathToEntryNum s.rt.riivoDisc path with
    | none =>
      simp only [Sys.step, customOpenImpl, Call.target, hres] at hstep
      cases hstep
      exact ⟨[], (List.append_nil _).symm, .silent rfl rfl (.recordOpen_none s fi _ _)⟩
    | some e =>
      have he : e < disc.sdFiles.length := disc.resolve_lt ((resolve_congr h.static path) ▸ hres)
      rw [Sys.step_open hres] at hstep
      cases hok : rteDvdOpenEntryNum layout env e fi s.rt with
      | error fatal =>
        rw [hok] at hstep
        cases hstep
      | ok rt =>
        rw [hok] at hstep
        cases hstep
        exact h.effect_openEntry henv he _ hok
  | fastOpen entryNum fi =>
    obtain ⟨hfi, env', filename, hconvert⟩ := hcall
    rcases entryNum_of_convert hconvert with ⟨e, he, rfl⟩ | hs
    · rw [Sys.step_fastOpen (disc.lt_pow he)] at hstep
      cases hok : rteDvdOpenEntryNum layout env e fi s.rt with
      | error fatal =>
        rw [hok] at hstep
        cases hstep
      | ok rt =>
        rw [hok] at hstep
        cases hstep
        exact h.effect_openEntry henv he _ hok
    · have hinfo := henv.discFastOpen entryNum
      simp only [Sys.step, customFastOpenImpl, Call.target, if_neg hs,
        RteState.fileInfos_setFileInfo, Function.update_self] at hstep
      rw [if_neg fun hbad => hinfo hbad.1 hbad.2] at hstep
      cases hstep
      exact ⟨[], (List.append_nil _).symm, .silent rfl rfl (.recordOpen_none s fi _ _)⟩
  | readPrio fi length offset =>
    cases huse : s.use fi with
    | closed => exact absurd huse hcall
    | disc =>
      rw [Sys.step, customReadPrioImpl, if_neg (h.disc fi huse)] at hstep
      cases hstep
      exact ⟨[], (List.append_nil _).symm, .silent rfl rfl fun _ _ hu => ⟨hu, rfl⟩⟩
    | sd e =>
      obtain ⟨i, hslot⟩ := h.accounts.slot_of_holds (holds_eq_some huse)
      rw [h.step_readPrio henv huse hslot] at hstep
      cases hstep
      refine ⟨[.seek (layout.fileStruct i) offset, .read (layout.fileStruct i) length], ?_,
        .read huse hslot rfl rfl fun _ _ hu => ⟨hu, rfl⟩⟩
      simp [RteState.trace]
  | close fi =>
    rw [Sys.step] at hstep
    cases huse : s.use fi with
    | closed => exact absurd huse hcall
    | disc =>
      rw [customCloseImpl, if_neg (h.disc fi huse)] at hstep
      cases hstep
      exact ⟨[], (List.append_nil _).symm, .silent rfl rfl (.recordClose s fi rfl)⟩
    | sd e =>
      cases hok : customCloseImpl layout env fi s.rt with
      | error fatal =>
        rw [hok] at hstep
        cases hstep
      | ok r =>
        rw [hok] at hstep
        cases hstep
        exact h.effect_closeEntry henv huse _ hok

/-- The `FileInfo` of a call. -/
def Call.fileInfo : Call → FileInfoPtr
  | .open _ fi | .fastOpen _ fi | .readPrio fi _ _ | .close fi => fi

/-- The call opens its `FileInfo`. -/
def Call.IsOpen : Call → Prop
  | .open .. | .fastOpen .. => True
  | .readPrio .. | .close .. => False

/-- What a call leaves the `FileInfo`s open on: an open sets its own, a close takes it away, and all
other calls change none. -/
theorem Sys.step_use {call : Call} {s' : Sys} (hstep : s.step layout env call = .ok s') :
    (call.IsOpen ∧ ∃ rt res, s' = s.recordOpen rt call.fileInfo (call.target s.rt.riivoDisc) res) ∨
      (call.target s.rt.riivoDisc = none ∧ s'.use = s.use) ∨
      call = .close call.fileInfo ∧ ∃ rt, s' = s.recordClose rt call.fileInfo := by
  cases call with
  | «open» path fi =>
    rw [Sys.step] at hstep
    cases hok : customOpenImpl layout env path fi s.rt with
    | error fatal =>
      rw [hok] at hstep
      cases hstep
    | ok r =>
      rw [hok] at hstep
      exact Or.inl ⟨trivial, r.2, r.1, (Except.ok.inj hstep).symm⟩
  | fastOpen entryNum fi =>
    rw [Sys.step] at hstep
    cases hok : customFastOpenImpl layout env entryNum fi s.rt with
    | error fatal =>
      rw [hok] at hstep
      cases hstep
    | ok r =>
      rw [hok] at hstep
      exact Or.inl ⟨trivial, r.2, r.1, (Except.ok.inj hstep).symm⟩
  | readPrio fi length offset =>
    rw [Sys.step] at hstep
    cases hok : customReadPrioImpl layout env fi length offset s.rt with
    | error fatal =>
      rw [hok] at hstep
      cases hstep
    | ok r =>
      rw [hok] at hstep
      rw [← Except.ok.inj hstep]
      exact Or.inr (Or.inl ⟨rfl, rfl⟩)
  | close fi =>
    rw [Sys.step] at hstep
    cases hok : customCloseImpl layout env fi s.rt with
    | error fatal =>
      rw [hok] at hstep
      cases hstep
    | ok r =>
      rw [hok] at hstep
      exact Or.inr (Or.inr ⟨rfl, r.2, (Except.ok.inj hstep).symm⟩)

/-- **A call that opens an SD entry** leaves the `FileInfo` open on it. -/
theorem Sys.use_of_target {call : Call} {s' : Sys} (hstep : s.step layout env call = .ok s')
    (htarget : call.target s.rt.riivoDisc = some e) : s'.use call.fileInfo = .sd e := by
  rcases Sys.step_use hstep with ⟨-, rt, res, rfl⟩ | ⟨hnone, -⟩ | ⟨hclose, -⟩
  · rw [htarget, Sys.recordOpen_use_some, Function.update_self]
  · rw [hnone] at htarget
    cases htarget
  · rw [hclose] at htarget
    cases htarget

/-- **It stays open** until it is closed: no other call, for whatever file info, changes what this
one is in use for. -/
theorem Sys.use_of_not_close {call : Call} {s' : Sys} (hcall : Allowed disc s call)
    (hstep : s.step layout env call = .ok s') (hfi : s.use fi = .sd e) (hne : call ≠ .close fi) :
    s'.use fi = .sd e := by
  rcases Sys.step_use hstep with ⟨hopens, rt, res, rfl⟩ | ⟨-, hsame⟩ | ⟨hclose, rt, rfl⟩
  · have hother : fi ≠ call.fileInfo := by
      rintro rfl
      cases call with
      | «open» path fi =>
        rw [Allowed] at hcall
        rw [Call.fileInfo, hcall] at hfi
        cases hfi
      | fastOpen entryNum fi =>
        rw [Call.fileInfo, hcall.1] at hfi
        cases hfi
      | readPrio fi length offset => exact hopens
      | close fi => exact hne rfl
    cases call.target s.rt.riivoDisc with
    | none => rwa [Sys.recordOpen_use_none, Function.update_of_ne hother]
    | some e' => rwa [Sys.recordOpen_use_some, Function.update_of_ne hother]
  · rwa [hsame]
  · have hother : fi ≠ call.fileInfo := fun heq => hne (heq ▸ hclose)
    rwa [Sys.recordClose_use, Function.update_of_ne hother]

end Effect

end RrLauncher
