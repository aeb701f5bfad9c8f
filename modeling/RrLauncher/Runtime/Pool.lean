/-
# The open files as a pool

The slots of `open_files` are a pool with reference counts, and the `file_info` of an
SD entry says which slot the entry has.  This is what the replaced functions do on an SD
entry, seen that way.
-/

import RrLauncher.Runtime.Dvd

namespace RrLauncher

/-! ### The two tables, seen as a pool -/

namespace RteState

/-- The slot of an SD entry: its `file_info`. -/
def slotOf (s : RteState) (e : ℕ) : Option OpenFilePtr :=
  (s.riivoDisc.sdFiles[e]?).bind (·.fileInfo)

/-- The reference counts of `open_files`. -/
def refcounts (s : RteState) : OpenFilePtr → ℤ := RteOpenFile.refcount ∘ s.openFiles

variable (s : RteState)

/-- Setting the reference count of a slot changes the counts at that slot alone. -/
@[simp] theorem refcounts_setRefcount (i : OpenFilePtr) (r : ℤ) :
    (s.setRefcount i r).refcounts = Function.update s.refcounts i r :=
  Function.comp_update _ _ _ _

/-- Noting the size of a file in its slot leaves the reference counts. -/
@[simp] theorem refcounts_setFilesize (i : OpenFilePtr) (n : UInt32) :
    (s.setFilesize i n).refcounts = s.refcounts :=
  (Function.comp_update _ _ _ _).trans (Function.update_eq_self i s.refcounts)

/-- Filling the game's file info leaves the reference counts of the pool. -/
@[simp] theorem refcounts_setFileInfo (fi : FileInfoPtr) (info : FileInfo) :
    (s.setFileInfo fi info).refcounts = s.refcounts := rfl

/-- Attaching a slot to a file of the card leaves the reference counts: the count is raised by a
store of its own. -/
@[simp] theorem refcounts_setEtpFileInfo (e : ℕ) (etp : RrcRiivoSdFile)
    (file : Option OpenFilePtr) : (s.setEtpFileInfo e etp file).refcounts = s.refcounts := rfl

/-- Calling a function of the card leaves the reference counts, as these are the runtime's own. -/
@[simp] theorem refcounts_trace (call : SdCall) : (s.trace call).refcounts = s.refcounts := rfl

/-- Setting a reference count changes no assignment of slots to files. -/
@[simp] theorem slotOf_setRefcount (i : OpenFilePtr) (r : ℤ) :
    (s.setRefcount i r).slotOf = s.slotOf := rfl

/-- Noting the size of a file changes no assignment of slots to files. -/
@[simp] theorem slotOf_setFilesize (i : OpenFilePtr) (n : UInt32) :
    (s.setFilesize i n).slotOf = s.slotOf := rfl

/-- Filling the game's file info changes no assignment of slots to files. -/
@[simp] theorem slotOf_setFileInfo (fi : FileInfoPtr) (info : FileInfo) :
    (s.setFileInfo fi info).slotOf = s.slotOf := rfl

/-- Calling a function of the card changes no assignment of slots to files. -/
@[simp] theorem slotOf_trace (call : SdCall) : (s.trace call).slotOf = s.slotOf := rfl

/-- Filling one file info of the game changes that one and no other, as the game owns them all. -/
@[simp] theorem fileInfos_setFileInfo (fi : FileInfoPtr) (info : FileInfo) :
    (s.setFileInfo fi info).fileInfos = Function.update s.fileInfos fi info := rfl

/-- The slot of a file is what its entry of the table says, where the table has the entry. -/
theorem slotOf_eq {e : ℕ} {etp : RrcRiivoSdFile} (h : s.riivoDisc.sdFiles[e]? = some etp) :
    s.slotOf e = etp.fileInfo := by
  rw [slotOf, h, Option.bind_some]

/-- Attaching a slot to a file of the table, or taking it away, changes the assignment at that file
alone. -/
theorem slotOf_setEtpFileInfo {e : ℕ} {etp : RrcRiivoSdFile}
    (h : s.riivoDisc.sdFiles[e]? = some etp) (file : Option OpenFilePtr) :
    (s.setEtpFileInfo e etp file).slotOf = Function.update s.slotOf e file := by
  obtain ⟨hlt, -⟩ := List.getElem?_eq_some_iff.mp h
  funext e'
  by_cases he : e' = e
  · subst he
    simp [slotOf, setEtpFileInfo, hlt]
  · simp [slotOf, setEtpFileInfo, he, Ne.symm he]

end RteState

/-- What the runtime never changes in the disc record: all but the slots. -/
def RrcRiivoDisc.static (d : RrcRiivoDisc) :
    List CStr × List RrcRiivoFileReplacement × List RrcRiivoFileReplacement :=
  (d.sdFiles.map (·.path), d.filenameReplacements, d.replacements)

/-- The slot is the only thing that the runtime changes of an entry: the paths, the names and the
order of the table stay as the loader published them. -/
theorem static_setEtpFileInfo (s : RteState) {e : ℕ} {etp : RrcRiivoSdFile}
    (h : s.riivoDisc.sdFiles[e]? = some etp) (file : Option OpenFilePtr) :
    (s.setEtpFileInfo e etp file).riivoDisc.static = s.riivoDisc.static := by
  obtain ⟨hlt, rfl⟩ := List.getElem?_eq_some_iff.mp h
  have hmap : e < (s.riivoDisc.sdFiles.map (·.path)).length := by rwa [List.length_map]
  have hself := List.set_getElem_self hmap
  rw [List.getElem_map] at hself
  rw [RteState.setEtpFileInfo, RrcRiivoDisc.static, RrcRiivoDisc.static, List.map_set, hself]

/-- Resolving a path uses only what never changes of the table, so it gives the same entry in all
states of a run. -/
theorem resolve_congr {d d' : RrcRiivoDisc} (h : d.static = d'.static) (path : CStr) :
    rteDvdResolvePathToEntryNum d path = rteDvdResolvePathToEntryNum d' path := by
  simp only [RrcRiivoDisc.static, Prod.mk.injEq] at h
  rw [rteDvdResolvePathToEntryNum, rteDvdResolvePathToEntryNum, h.2.1, h.2.2]

/-! ### The replaced functions on an SD entry -/

section Spec

variable {layout : Layout} {env : Env} {s : RteState} {e : ℕ} {etp : RrcRiivoSdFile}
  {fi : FileInfoPtr} {i : OpenFilePtr}

/-- Opening an entry that is open shares its slot: the count goes up by one, and the game is told
the size that was noted at the first open. -/
theorem rteDvdOpenEntryNum_shared (h : s.riivoDisc.sdFiles[e]? = some etp)
    (hi : etp.fileInfo = some i) :
    rteDvdOpenEntryNum layout env e fi s =
      .ok ((s.setFileInfo fi ⟨specialOf e, (s.openFiles i).filesize⟩).setRefcount i
        (s32 (s.refcounts i + 1))) := by
  simp only [rteDvdOpenEntryNum, etpOf, h, bind, Except.bind, hi]
  rfl

/-- Opening an entry that is not open allocates a slot and opens the SD file. -/
theorem rteDvdOpenEntryNum_first (h : s.riivoDisc.sdFiles[e]? = some etp)
    (hi : etp.fileInfo = none)
    (hfree : (List.finRange maxConcurrentFiles).find?
      (fun i => (s.openFiles i).refcount = 0) = some i)
    (hfd : (env.sdOpen i etp.path).1 = layout.fileStruct i) :
    ∃ n, rteDvdOpenEntryNum layout env e fi s =
      .ok (((((s.setRefcount i 1).trace (.open i etp.path)).setFilesize i n).setEtpFileInfo e etp
        (some i)).setFileInfo fi ⟨specialOf e, n⟩) := by
  refine ⟨(env.sdOpen i etp.path).2, ?_⟩
  have hne := layout.fileStruct_ne_neg_one i
  simp only [rteDvdOpenEntryNum, etpOf, h, bind, Except.bind, hi, rteDvdAllocOpenFile, hfree, hfd,
    if_neg hne]
  simp [RteState.setFilesize, RteState.setEtpFileInfo, pure, Except.pure]

/-- Opening an entry that is not open stops the runtime when every slot counts. -/
theorem rteDvdOpenEntryNum_full (h : s.riivoDisc.sdFiles[e]? = some etp)
    (hi : etp.fileInfo = none)
    (hfull : (List.finRange maxConcurrentFiles).find?
      (fun i => (s.openFiles i).refcount = 0) = none) :
    rteDvdOpenEntryNum layout env e fi s = .error .tooManyOpen := by
  simp only [rteDvdOpenEntryNum, etpOf, h, bind, Except.bind, hi, rteDvdAllocOpenFile, hfull]

/-- Reading from an open entry seeks and reads in its slot. -/
theorem customReadPrioImpl_sd {length offset : ℤ} (haddr : (s.fileInfos fi).startAddr = specialOf e)
    (he : e < 2 ^ 22) (h : s.riivoDisc.sdFiles[e]? = some etp) (hi : etp.fileInfo = some i)
    (hseek : ∀ fd offset, env.sdSeek fd offset ≠ -1) (hread : ∀ fd length, env.sdRead fd length ≠ -1) :
    customReadPrioImpl layout env fi length offset s =
      .ok (env.sdRead (layout.fileStruct i) length,
        (s.trace (.seek (layout.fileStruct i) offset)).trace
          (.read (layout.fileStruct i) length)) := by
  simp only [customReadPrioImpl, haddr, isSpecial_specialOf he, if_true, entryNumOf_specialOf he,
    etpOf, h, bind, Except.bind, hi, reduceCtorEq, if_false, rteRiivoSdFd, if_neg (hseek _ _),
    if_neg (hread _ _)]
  rfl

/-- Closing an open entry counts its slot down, and closes the SD file and
empties the entry when nothing is left. -/
theorem customCloseImpl_sd (haddr : (s.fileInfos fi).startAddr = specialOf e)
    (he : e < 2 ^ 22) (h : s.riivoDisc.sdFiles[e]? = some etp) (hi : etp.fileInfo = some i)
    (hpos : s.refcounts i ≠ 0) (hclose : ∀ fd, env.sdClose fd ≠ -1) :
    customCloseImpl layout env fi s =
      .ok (1, if s32 (s.refcounts i - 1) = 0 then
        ((s.setRefcount i (s32 (s.refcounts i - 1))).trace
          (.close (layout.fileStruct i))).setEtpFileInfo e etp none
      else s.setRefcount i (s32 (s.refcounts i - 1))) := by
  have hcount : ((s.setRefcount i (s32 (s.refcounts i - 1))).openFiles i).refcount =
      s32 (s.refcounts i - 1) := by simp [RteState.setRefcount]
  have hne : (s.openFiles i).refcount ≠ 0 := hpos
  simp only [customCloseImpl, haddr, isSpecial_specialOf he, if_true, entryNumOf_specialOf he,
    etpOf, h, bind, Except.bind, hi, if_neg hne, rteRiivoSdFd, if_neg (hclose _)]
  rw [show (s.openFiles i).refcount = s.refcounts i from rfl, hcount]
  split <;> rfl

end Spec

end RrLauncher
