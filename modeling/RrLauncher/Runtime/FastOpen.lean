/-
# Opening by path and by entry number

The game opens a file by its path, or asks for the entry number and opens that.  For a
replaced file both are the same operation, in every state of the runtime and whatever
the SD functions return (`fast_open_eq_open`): the entry number survives the packing
into the special bit pattern, as long as the SD entries are not more than the 22 bits
below it can number.
-/

import RrLauncher.Runtime.Game

namespace RrLauncher

/-- A disc record whose replacements point to SD entries, not more than 22 bits can
number. -/
structure NumberedDisc extends RrcRiivoDisc where
  entrynum : ∀ r ∈ filenameReplacements ++ replacements, r.entrynum < sdFiles.length
  few : sdFiles.length ≤ 2 ^ 22

/-- A loaded disc is one. -/
def LoadedDisc.numbered (disc : LoadedDisc) : NumberedDisc :=
  { disc with few := by have := disc.fits; omega }

/-- A call of one of the replaced functions. -/
def RteState.call (layout : Layout) (env : Env) (s : RteState) :
    Call → Except RteFatal (ℤ × RteState)
  | .open path fileInfo => customOpenImpl layout env path fileInfo s
  | .fastOpen entryNum fileInfo => customFastOpenImpl layout env entryNum fileInfo s
  | .readPrio fileInfo length offset => customReadPrioImpl layout env fileInfo length offset s
  | .close fileInfo => customCloseImpl layout env fileInfo s

/-- The states of the runtime: whatever is called, whatever the world does, and whatever
the game writes to its `FileInfo`s. -/
inductive RteReachable (layout : Layout) (disc : RrcRiivoDisc) : RteState → Prop
  | init (openFiles : OpenFilePtr → RteOpenFile) (fileInfos : FileInfoPtr → FileInfo) :
      RteReachable layout disc ⟨disc, openFiles, fileInfos, []⟩
  | call {s s' : RteState} {call : Call} {env : Env} {res : ℤ} (hs : RteReachable layout disc s)
      (hcall : s.call layout env call = .ok (res, s')) : RteReachable layout disc s'
  | write {s : RteState} (hs : RteReachable layout disc s) (fi : FileInfoPtr) (info : FileInfo) :
      RteReachable layout disc (s.setFileInfo fi info)

/-- A successful bind has two successful parts, so a run of the runtime can be taken apart step by
step. -/
theorem except_bind_ok {ε α β : Type} {x : Except ε α} {f : α → Except ε β} {b : β}
    (h : x >>= f = .ok b) : ∃ a, x = .ok a ∧ f a = .ok b := by
  cases x with
  | error e => cases h
  | ok a => exact ⟨a, rfl, h⟩

/-! ### What a call never changes -/

section Static

variable {layout : Layout} {env : Env} {s s' : RteState}

/-- An entry that the code looks up without a fault is that of the table. -/
theorem etpOf_ok {e : ℕ} {etp : RrcRiivoSdFile} (h : etpOf s e = .ok etp) :
    s.riivoDisc.sdFiles[e]? = some etp := by
  unfold etpOf at h
  split at h
  · rename_i hetp
    rw [hetp, Except.ok.inj h]
  · cases h

/-- **An open that succeeds** leaves all of the disc record but the slots as it was, the
entry with a slot, and the entry number and the length of that slot in the `FileInfo`. -/
theorem rteDvdOpenEntryNum_ok {e : ℕ} {fi : FileInfoPtr}
    (h : rteDvdOpenEntryNum layout env e fi s = .ok s') :
    s'.riivoDisc.static = s.riivoDisc.static ∧ ∃ i, s'.slotOf e = some i ∧
      s'.fileInfos fi = ⟨specialOf e, (s'.openFiles i).filesize⟩ := by
  obtain ⟨etp, hetp, h⟩ := except_bind_ok h
  have hget := etpOf_ok hetp
  split at h
  · rename_i i hi
    cases h
    refine ⟨rfl, i, (s.slotOf_eq hget).trans hi, ?_⟩
    simp [RteState.setRefcount, RteState.setFileInfo]
  · obtain ⟨⟨i, s₁⟩, halloc, h⟩ := except_bind_ok h
    unfold rteDvdAllocOpenFile at halloc
    split at halloc
    · cases halloc
      dsimp only at h
      split at h
      · cases h
      split at h
      · cases h
      cases h
      -- the state in which the entry gets its slot
      have hget₂ : (((s.setRefcount i 1).trace (.open i etp.path)).setFilesize i
        (env.sdOpen i etp.path).2).riivoDisc.sdFiles[e]? = some etp := hget
      refine ⟨static_setEtpFileInfo _ hget₂ (some i), i, ?_, ?_⟩
      · rw [RteState.slotOf_setFileInfo]
        exact (congrFun (RteState.slotOf_setEtpFileInfo _ hget₂ (some i)) e).trans
          (Function.update_self ..)
      · simp [RteState.setFileInfo]
    · cases halloc

/-- **No call changes** anything in the disc record but the slots. -/
theorem static_call {call : Call} {res : ℤ} (h : s.call layout env call = .ok (res, s')) :
    s'.riivoDisc.static = s.riivoDisc.static := by
  cases call with
  | «open» path fi =>
    change customOpenImpl layout env path fi s = _ at h
    unfold customOpenImpl at h
    split at h
    · obtain ⟨s₁, hopen, h⟩ := except_bind_ok h
      cases h
      exact (rteDvdOpenEntryNum_ok hopen).1
    · cases h
      rfl
  | fastOpen entryNum fi =>
    change customFastOpenImpl layout env entryNum fi s = _ at h
    unfold customFastOpenImpl at h
    split at h
    · obtain ⟨s₁, hopen, h⟩ := except_bind_ok h
      cases h
      exact (rteDvdOpenEntryNum_ok hopen).1
    · dsimp only at h
      split at h
      · cases h
      · cases h
        rfl
  | readPrio fi length offset =>
    change customReadPrioImpl layout env fi length offset s = _ at h
    unfold customReadPrioImpl at h
    split at h
    · obtain ⟨etp, -, h⟩ := except_bind_ok h
      dsimp only at h
      split at h
      · cases h
      obtain ⟨fd, -, h⟩ := except_bind_ok h
      split at h
      · cases h
      split at h
      · cases h
      · cases h
        rfl
    · cases h
      rfl
  | close fi =>
    change customCloseImpl layout env fi s = _ at h
    unfold customCloseImpl at h
    split at h
    · obtain ⟨etp, hetp, h⟩ := except_bind_ok h
      have hget := etpOf_ok hetp
      split at h
      · cases h
      rename_i i hi
      dsimp only at h
      split at h
      · cases h
      split at h
      · obtain ⟨fd, -, h⟩ := except_bind_ok h
        split at h
        · cases h
        · cases h
          exact static_setEtpFileInfo _ hget none
      · cases h
        rfl
    · cases h
      rfl

/-- In no state that the runtime can reach is anything of the table changed but the slots of its
files. -/
theorem RteReachable.static {disc : RrcRiivoDisc} (h : RteReachable layout disc s) :
    s.riivoDisc.static = disc.static := by
  induction h with
  | init => rfl
  | call hs hcall ih => exact (static_call hcall).trans ih
  | write hs fi info ih => exact ih

/-- **Reading and closing** go to the entry whose number is in the start address. -/
theorem read_close_entry {e : ℕ} (he : e < 2 ^ 22) {fi : FileInfoPtr} {i : OpenFilePtr}
    (haddr : (s.fileInfos fi).startAddr = specialOf e) (hi : s.slotOf e = some i) :
    (∀ length offset, (∀ fd offset, env.sdSeek fd offset ≠ -1) →
      (∀ fd length, env.sdRead fd length ≠ -1) →
      ∃ s', customReadPrioImpl layout env fi length offset s =
        .ok (env.sdRead (layout.fileStruct i) length, s')) ∧
    (s.refcounts i ≠ 0 → (∀ fd, env.sdClose fd ≠ -1) →
      ∃ s', customCloseImpl layout env fi s = .ok (1, s') ∧ s'.slotOf = Function.update s.slotOf e
        (if s32 (s.refcounts i - 1) = 0 then none else some i)) := by
  obtain ⟨etp, hget, hetp⟩ := Option.bind_eq_some_iff.mp hi
  constructor
  · intro length offset hseek hread
    exact ⟨_, customReadPrioImpl_sd haddr he hget hetp hseek hread⟩
  · intro hpos hclose
    refine ⟨_, customCloseImpl_sd haddr he hget hetp hpos hclose, ?_⟩
    split_ifs with hlast
    · exact RteState.slotOf_setEtpFileInfo _ hget none
    · rw [RteState.slotOf_setRefcount, ← hi, Function.update_eq_self]

/-- **Opening a replaced file by its path and by its entry number** is the same operation
in every state of the runtime.  The start address that it sets has the special bit pattern
with the entry number that the path resolves to, and reading and closing go to the slot of
that entry.  No two entries have the same start address. -/
theorem fast_open_eq_open {disc : NumberedDisc} (hs : RteReachable layout disc.toRrcRiivoDisc s)
    {path : CStr} {e : ℕ} (hres : rteDvdResolvePathToEntryNum s.riivoDisc path = some e)
    (fi : FileInfoPtr) :
    (do customFastOpenImpl layout env (← customConvertPathToEntryNumImpl env s.riivoDisc path) fi s) =
        customOpenImpl layout env path fi s ∧
      (∀ res s', customOpenImpl layout env path fi s = .ok (res, s') →
        IsSpecial (s'.fileInfos fi).startAddr ∧ entryNumOf (s'.fileInfos fi).startAddr = e ∧
        ∃ i, s'.slotOf e = some i ∧ (s'.fileInfos fi).length = (s'.openFiles i).filesize ∧
          ∀ env' : Env,
            (∀ length offset, (∀ fd offset, env'.sdSeek fd offset ≠ -1) →
              (∀ fd length, env'.sdRead fd length ≠ -1) →
              ∃ s'', customReadPrioImpl layout env' fi length offset s' =
                .ok (env'.sdRead (layout.fileStruct i) length, s'')) ∧
            (s'.refcounts i ≠ 0 → (∀ fd, env'.sdClose fd ≠ -1) →
              ∃ s'', customCloseImpl layout env' fi s' = .ok (1, s'') ∧
                s''.slotOf = Function.update s'.slotOf e
                  (if s32 (s'.refcounts i - 1) = 0 then none else some i))) ∧
      ∀ e₁ e₂, e₁ < disc.sdFiles.length → e₂ < disc.sdFiles.length →
        specialOf e₁ = specialOf e₂ → e₁ = e₂ := by
  have hlt : e < 2 ^ 22 := by
    rw [resolve_congr hs.static] at hres
    have := resolve_lt_sdFiles disc.entrynum hres
    have := disc.few
    omega
  refine ⟨?_, fun res s' hopen => ?_, fun e₁ e₂ h₁ h₂ heq => ?_⟩
  · unfold customConvertPathToEntryNumImpl customOpenImpl customFastOpenImpl
    simp only [hres, bind, Except.bind, if_pos (isSpecial_specialOf hlt), entryNumOf_specialOf hlt]
  · unfold customOpenImpl at hopen
    rw [hres] at hopen
    obtain ⟨s₁, hopen, h⟩ := except_bind_ok hopen
    cases h
    obtain ⟨-, i, hi, hinfo⟩ := rteDvdOpenEntryNum_ok hopen
    have haddr : (s'.fileInfos fi).startAddr = specialOf e := by rw [hinfo]
    rw [haddr]
    refine ⟨isSpecial_specialOf hlt, entryNumOf_specialOf hlt, i, hi, by rw [hinfo], fun env' => ?_⟩
    exact read_close_entry hlt haddr hi
  · have hfew := disc.few
    rw [← entryNumOf_specialOf (h₁.trans_le hfew), heq, entryNumOf_specialOf (h₂.trans_le hfew)]

end Static

/-- The disc record with one replaced course. -/
def courseDisc : NumberedDisc :=
  ⟨⟨[⟨CStr.lit "/a.szs", none⟩],
    [⟨CStr.lit "course.szs", rrcHashString (CStr.lit "course.szs"), 0⟩], []⟩, by decide, by decide⟩

/-- The name of the course is resolved to its entry. -/
theorem resolve_courseDisc :
    rteDvdResolvePathToEntryNum courseDisc.toRrcRiivoDisc (CStr.lit "course.szs") = some 0 := by
  decide +kernel

/-- A place for the pool somewhere in memory. -/
def courseLayout : Layout := ⟨0x80001000, by decide, by decide⟩

/-- SD functions that succeed, with a file of 32 bytes. -/
def courseEnv : Env :=
  { sdOpen := fun file _ => (courseLayout.fileStruct file, 32), sdSeek := fun _ _ => 0
    sdRead := fun _ _ => 0, sdClose := fun _ => 0, discConvert := fun _ => 0
    discOpen := fun _ => ⟨0, ⟨0, 0⟩⟩, discFastOpen := fun _ => ⟨-1, ⟨0, 0⟩⟩
    discReadPrio := fun _ _ => 0 }

/-- The runtime before a course is open. -/
def courseClosed : RteState :=
  ⟨courseDisc.toRrcRiivoDisc, fun _ => ⟨0, 0⟩, fun _ => ⟨0, 0⟩, []⟩

/-- The runtime when the course is open on the first `FileInfo`. -/
def courseOpened : RteState :=
  match customOpenImpl courseLayout courseEnv (CStr.lit "course.szs") 0 courseClosed with
  | .ok (_, s) => s
  | .error _ => courseClosed

/-- The state behind the open of the course is one that the runtime can reach. -/
theorem courseOpened_reachable : RteReachable courseLayout courseDisc.toRrcRiivoDisc courseOpened := by
  have hclosed : RteReachable courseLayout courseDisc.toRrcRiivoDisc courseClosed := .init _ _
  rw [courseOpened]
  split
  · rename_i res s hopen
    exact hclosed.call (show courseClosed.call courseLayout courseEnv (.open _ 0) = _ from hopen)
  · exact hclosed

/-- While the course is open it is opened alike on a second `FileInfo`, whose start address has its
entry number; closing this one leaves the slot to the first one. -/
theorem fast_open_eq_open_course :
    (do
      let entryNum ← customConvertPathToEntryNumImpl courseEnv courseOpened.riivoDisc
        (CStr.lit "course.szs")
      customFastOpenImpl courseLayout courseEnv entryNum 1 courseOpened) =
        customOpenImpl courseLayout courseEnv (CStr.lit "course.szs") 1 courseOpened ∧
    ∃ s' s'', customOpenImpl courseLayout courseEnv (CStr.lit "course.szs") 1 courseOpened =
        .ok (1, s') ∧
      entryNumOf (s'.fileInfos 1).startAddr = 0 ∧
      customCloseImpl courseLayout courseEnv 1 s' = .ok (1, s'') ∧ s''.slotOf 0 = some 0 := by
  have hres : rteDvdResolvePathToEntryNum courseOpened.riivoDisc (CStr.lit "course.szs") = some 0 := by
    decide +kernel
  have hcount : (customOpenImpl courseLayout courseEnv (CStr.lit "course.szs") 1
      courseOpened).toOption.map (fun r => (r.1, r.2.slotOf 0, r.2.refcounts 0)) =
        some (1, some 0, 2) := by
    decide +kernel
  obtain ⟨hsame, hopened, -⟩ :=
    @fast_open_eq_open courseLayout courseEnv _ _ courseOpened_reachable _ _ hres 1
  refine ⟨hsame, ?_⟩
  cases hopen : customOpenImpl courseLayout courseEnv (CStr.lit "course.szs") 1 courseOpened with
  | error fatal =>
    rw [hopen] at hcount
    cases hcount
  | ok r =>
    obtain ⟨res, s'⟩ := r
    obtain ⟨-, hentry, i, hi, -, hcalls⟩ := hopened res s' hopen
    rw [hopen] at hcount
    obtain ⟨hone, hslot, htwo⟩ : res = 1 ∧ s'.slotOf 0 = some 0 ∧ s'.refcounts 0 = 2 := by
      simpa [Except.toOption] using hcount
    obtain rfl : i = 0 := Option.some.inj (hi.symm.trans hslot)
    obtain ⟨s'', hclose, hslots⟩ := (hcalls courseEnv).2 (by rw [htwo]; decide)
      fun _ => by simp [courseEnv]
    refine ⟨s', s'', by rw [hone], hentry, hclose, ?_⟩
    rw [hslots, Function.update_self, htwo]
    decide

end RrLauncher
