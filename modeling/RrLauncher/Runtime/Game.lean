/-
# Runs of the game

A game that opens, reads and closes `FileInfo`s through the replaced DVD
functions, in any order.  `Sys` is the runtime's memory with what the game may
know: what each `FileInfo` is open on, and how often each SD entry was opened and
closed.  `Reachable` are the states of all runs in which the game reads and closes
only what is open, and takes its entry numbers from `DVDConvertPathToEntrynum`.
-/

import RrLauncher.Runtime.LastWins
import RrLauncher.Runtime.Pool

namespace RrLauncher

/-- The disc record as the loader hands it over: no entry is open, the entry
numbers in the replacements are valid, and the entries lie in MEM1, whose size is
24 MiB. -/
structure LoadedDisc extends RrcRiivoDisc where
  closed : ∀ f ∈ sdFiles, f.fileInfo = none
  entrynum : ∀ r ∈ filenameReplacements ++ replacements, r.entrynum < sdFiles.length
  fits : 8 * sdFiles.length ≤ 0x01800000

/-- **What the patch loader publishes is a loaded disc.** -/
def LoadedDisc.ofPublished {t : PatchTables} (h : t.Inv) {riivoDisc : RrcRiivoDisc}
    (hpub : Publishes t riivoDisc) (hfits : 8 * t.sdFiles.length ≤ 0x01800000) : LoadedDisc :=
  { riivoDisc with
    closed := fun f hf => h.closed f (hpub.sdFiles ▸ hf)
    entrynum := fun r hr => by
      rw [hpub.sdFiles]
      rcases List.mem_append.mp hr with hr | hr
      · exact h.filenames.entrynum r (hpub.filenameReplacements.mem_iff.mp hr)
      · exact h.replacements.entrynum r (hpub.replacements.mem_iff.mp hr)
    fits := by rwa [hpub.sdFiles] }

/-- The index of a file of a loaded disc fits into the bits that an encoded start address has for
it, since the loader caps the files below that. -/
theorem LoadedDisc.lt_pow (disc : LoadedDisc) {e : ℕ} (he : e < disc.sdFiles.length) :
    e < 2 ^ 22 := by
  have := disc.fits
  omega

/-- What the search stores is an entry number of the array it searches. -/
theorem exists_of_rteDvdSearchReplacement {hash : UInt32} {filename : CStr}
    {replacements : List RrcRiivoFileReplacement} {e : ℕ}
    (h : rteDvdSearchReplacement hash filename replacements = some e) :
    ∃ r ∈ replacements, r.entrynum = e := by
  rw [rteDvdSearchReplacement_eq] at h
  obtain ⟨r, hr, he⟩ := Option.map_eq_some_iff.mp h
  exact ⟨r, (SortedSearch.mem_of_searchRun hr).1, he⟩

/-- Where the entry numbers of the replacements are valid, a resolved one is. -/
theorem resolve_lt_sdFiles {d : RrcRiivoDisc}
    (hentry : ∀ r ∈ d.filenameReplacements ++ d.replacements, r.entrynum < d.sdFiles.length)
    {path : CStr} {e : ℕ} (h : rteDvdResolvePathToEntryNum d path = some e) :
    e < d.sdFiles.length := by
  rw [rteDvdResolvePathToEntryNum] at h
  split at h
  · rename_i entryNum hfile
    obtain ⟨r, hr, hre⟩ := exists_of_rteDvdSearchReplacement hfile
    rw [← Option.some.inj h, ← hre]
    exact hentry r (List.mem_append_left _ hr)
  · obtain ⟨r, hr, hre⟩ := exists_of_rteDvdSearchReplacement h
    rw [← hre]
    exact hentry r (List.mem_append_right _ hr)

/-- A resolved entry number of a loaded disc is valid. -/
theorem LoadedDisc.resolve_lt (disc : LoadedDisc) {path : CStr} {e : ℕ}
    (h : rteDvdResolvePathToEntryNum disc.toRrcRiivoDisc path = some e) :
    e < disc.sdFiles.length :=
  resolve_lt_sdFiles disc.entrynum h

/-- What the game has a `FileInfo` open on. -/
inductive Use
  | closed
  | disc
  | sd (entryNum : ℕ)
  deriving DecidableEq

/-- The result of an open call says that it did not fail. -/
def Opened (res : ℤ) : Prop := res ≠ 0 ∧ res ≠ -1

instance (res : ℤ) : Decidable (Opened res) := inferInstanceAs (Decidable (_ ∧ _))

/-- The SD entry of a use. -/
def Use.entry : Use → Option ℕ
  | .sd e => some e
  | .closed | .disc => none

/-- The runtime's memory and what the game did so far. -/
structure Sys where
  rt : RteState
  use : FileInfoPtr → Use
  opens : ℕ → ℕ
  closes : ℕ → ℕ

/-- A call of the game. -/
inductive Call
  | open (path : CStr) (fileInfo : FileInfoPtr)
  | fastOpen (entryNum : UInt32) (fileInfo : FileInfoPtr)
  | readPrio (fileInfo : FileInfoPtr) (length offset : ℤ)
  | close (fileInfo : FileInfoPtr)

namespace Sys

/-- The start of a run: zero-initialized slots, the game's memory as it is. -/
def init (disc : LoadedDisc) (fileInfos : FileInfoPtr → FileInfo) : Sys :=
  { rt := ⟨disc.toRrcRiivoDisc, fun _ => ⟨0, 0⟩, fileInfos, []⟩
    use := fun _ => .closed
    opens := fun _ => 0
    closes := fun _ => 0 }

/-- The SD entries that the `FileInfo`s are open on. -/
def holds (s : Sys) : FileInfoPtr → Option ℕ := Use.entry ∘ s.use

/-- The opens of an entry that were not closed. -/
def numOpen (s : Sys) (e : ℕ) : ℤ := s.opens e - s.closes e

/-- An open call returned `res`, for the SD entry `target` or for a disc file. -/
def recordOpen (s : Sys) (rt : RteState) (fileInfo : FileInfoPtr) (target : Option ℕ) (res : ℤ) :
    Sys :=
  match target with
  | some e =>
    { s with
      rt := rt
      use := Function.update s.use fileInfo (.sd e)
      opens := Function.update s.opens e (s.opens e + 1) }
  | none =>
    { s with
      rt := rt
      use := Function.update s.use fileInfo (if Opened res then .disc else .closed) }

section

variable (s : Sys) (rt : RteState) (fi : FileInfoPtr) (e : ℕ) (res : ℤ)

/-- Recording what an open did leaves the state of the runtime that the open itself made. -/
@[simp] theorem recordOpen_rt (target : Option ℕ) : (s.recordOpen rt fi target res).rt = rt := by
  cases target <;> rfl

/-- After an open that was served from the card, the file info is in use for that file. -/
@[simp] theorem recordOpen_use_some :
    (s.recordOpen rt fi (some e) res).use = Function.update s.use fi (.sd e) := rfl

/-- After an open that went to the disc, the file info is in use for the disc if the open succeeded,
and closed if it failed. -/
@[simp] theorem recordOpen_use_none : (s.recordOpen rt fi none res).use =
    Function.update s.use fi (if Opened res then .disc else .closed) := rfl

/-- An open that was served from the card counts as one more open of that file. -/
@[simp] theorem recordOpen_opens_some :
    (s.recordOpen rt fi (some e) res).opens = Function.update s.opens e (s.opens e + 1) := rfl

/-- An open changes no count of closes, whatever it was answered. -/
@[simp] theorem recordOpen_closes (target : Option ℕ) :
    (s.recordOpen rt fi target res).closes = s.closes := by
  cases target <;> rfl

/-- After an open from the card, the file info holds that file, and every other one holds what it
held. -/
theorem holds_recordOpen_some :
    (s.recordOpen rt fi (some e) res).holds = Function.update s.holds fi (some e) :=
  Function.comp_update _ _ _ _

end

/-- A close call returned: the file info is in use for nothing, and the close is counted. -/
def recordClose (s : Sys) (rt : RteState) (fileInfo : FileInfoPtr) : Sys :=
  { s with
    rt := rt
    use := Function.update s.use fileInfo .closed
    closes := match s.use fileInfo with
      | .sd e => Function.update s.closes e (s.closes e + 1)
      | .closed | .disc => s.closes }

section

variable (s : Sys) (rt : RteState) (fi : FileInfoPtr)

/-- Recording a close leaves the state of the runtime that the close itself made. -/
@[simp] theorem recordClose_rt : (s.recordClose rt fi).rt = rt := rfl

/-- After a close, the file info is in use for nothing. -/
@[simp] theorem recordClose_use :
    (s.recordClose rt fi).use = Function.update s.use fi .closed := rfl

/-- A close changes no count of opens, whatever was open. -/
@[simp] theorem recordClose_opens : (s.recordClose rt fi).opens = s.opens := rfl

/-- The close of a file info that was open on a file of the card counts as one more close of that
file. -/
theorem recordClose_closes {e : ℕ} (h : s.use fi = .sd e) :
    (s.recordClose rt fi).closes = Function.update s.closes e (s.closes e + 1) := by
  simp only [recordClose, h]

/-- After a close, the file info holds no file, and every other one holds what it held. -/
theorem holds_recordClose : (s.recordClose rt fi).holds = Function.update s.holds fi none :=
  Function.comp_update _ _ _ _

/-- What is open after a close was open before, and in use for the same. -/
theorem use_of_recordClose {fi' : FileInfoPtr} {u : Use} (hne : u ≠ .closed)
    (hu : (s.recordClose rt fi).use fi' = u) : s.use fi' = u := by
  rw [recordClose_use] at hu
  by_cases hf : fi' = fi
  · subst hf
    rw [Function.update_self] at hu
    exact absurd hu.symm hne
  · rwa [Function.update_of_ne hf] at hu

end

end Sys

/-- The SD entry that an open call is for. -/
def Call.target (riivoDisc : RrcRiivoDisc) : Call → Option ℕ
  | .open path _ => rteDvdResolvePathToEntryNum riivoDisc path
  | .fastOpen entryNum _ => if IsSpecial entryNum then some (entryNumOf entryNum) else none
  | .readPrio .. | .close _ => none

/-- One call of the game. -/
def Sys.step (layout : Layout) (env : Env) (s : Sys) (call : Call) : Except RteFatal Sys :=
  match call with
  | .open path fileInfo => do
    let (res, rt) ← customOpenImpl layout env path fileInfo s.rt
    return s.recordOpen rt fileInfo (call.target s.rt.riivoDisc) res
  | .fastOpen entryNum fileInfo => do
    let (res, rt) ← customFastOpenImpl layout env entryNum fileInfo s.rt
    return s.recordOpen rt fileInfo (call.target s.rt.riivoDisc) res
  | .readPrio fileInfo length offset => do
    let (_, rt) ← customReadPrioImpl layout env fileInfo length offset s.rt
    return { s with rt := rt }
  | .close fileInfo => do
    let (_, rt) ← customCloseImpl layout env fileInfo s.rt
    return s.recordClose rt fileInfo

/-- What the game does: it reads and closes only what is open, opens only what is
not, and has its entry numbers from `custom_convert_path_to_entry_num_impl`. -/
def Allowed (disc : LoadedDisc) (s : Sys) : Call → Prop
  | .open _ fileInfo => s.use fileInfo = .closed
  | .fastOpen entryNum fileInfo => s.use fileInfo = .closed ∧
      ∃ env filename, customConvertPathToEntryNumImpl env disc.toRrcRiivoDisc filename = .ok entryNum
  | .readPrio fileInfo _ _ => s.use fileInfo ≠ .closed
  | .close fileInfo => s.use fileInfo ≠ .closed

/-- What the world does during a call: the SD functions succeed, with the address
of the `FILE_STRUCT` for the descriptor, and the start addresses of disc files
never carry the special bit pattern.  `custom_fast_open_impl` takes every result
but `-1` for that of a disc file. -/
structure Env.Good (layout : Layout) (env : Env) : Prop where
  sdOpen : ∀ file path, (env.sdOpen file path).1 = layout.fileStruct file
  sdSeek : ∀ fd offset, env.sdSeek fd offset ≠ -1
  sdRead : ∀ fd length, env.sdRead fd length ≠ -1
  sdClose : ∀ fd, env.sdClose fd ≠ -1
  discOpen : ∀ path, Opened (env.discOpen path).res →
    ¬ IsSpecial (env.discOpen path).fileInfo.startAddr
  discFastOpen : ∀ entryNum, (env.discFastOpen entryNum).res ≠ -1 →
    ¬ IsSpecial (env.discFastOpen entryNum).fileInfo.startAddr

/-- The states of the runs of the game from a loaded disc. -/
inductive Reachable (layout : Layout) (disc : LoadedDisc) : Sys → Prop
  | init (fileInfos : FileInfoPtr → FileInfo) : Reachable layout disc (Sys.init disc fileInfos)
  | step {s s' : Sys} {call : Call} {env : Env} (hs : Reachable layout disc s)
      (hcall : Allowed disc s call) (henv : env.Good layout)
      (hstep : s.step layout env call = .ok s') : Reachable layout disc s'

end RrLauncher
