/-
# What the game reads

The game, the runtime extension, `libfat` and the card together.  A call of the game calls the SD
functions of its trace, and these are `FAT_open`, `FAT_seek`, `FAT_read` and `FAT_close` on
the `FILE_STRUCT`s in the slots of `open_files`, over one cache (`SdCall.onCard`).  A call returns only
with the answers that they give (`GameStep`).

From the call that opens a replaced file on, the game reads the bytes of the SD file until it closes
it, whatever else it opens, reads and closes, and whichever slots are shared or given out again
(`game_reads_replacement`).
-/

import RrLauncher.Libfat.FatOpen
import RrLauncher.Libfat.FileRuns
import RrLauncher.Runtime.Effects
import RrLauncher.Runtime.FastOpen

namespace RrLauncher

open Cells (slice patch)
open SharedSlots

/-! ### The SD functions on the card -/

/-- The slot whose `FILE_STRUCT` has the address. -/
def Layout.slot (layout : Layout) (fd : UInt32) : Option OpenFilePtr :=
  (List.finRange maxConcurrentFiles).find? fun i => layout.fileStruct i = fd

/-- The address of the file struct of a slot, which has 84 bytes, as a number: the pool does not
wrap. -/
theorem Layout.toNat_fileStruct (layout : Layout) (i : OpenFilePtr) :
    (layout.fileStruct i).toNat = layout.openFiles.toNat + 84 * i := by
  have hfits := layout.fits
  have hlt : i.val < 16 := i.isLt
  have hnat : (UInt32.ofNat i).toNat = i := UInt32.toNat_ofNat_of_lt' (show i.val < 2 ^ 32 by omega)
  rw [Layout.fileStruct, UInt32.toNat_add, UInt32.toNat_mul, hnat,
    show (84 : UInt32).toNat = 84 from rfl]
  omega

/-- **A descriptor** is that of one slot: the address of its file struct, and no two slots have the
same. -/
theorem Layout.slot_fileStruct (layout : Layout) (i : OpenFilePtr) :
    layout.slot (layout.fileStruct i) = some i := by
  have hinj : ∀ j, layout.fileStruct j = layout.fileStruct i → j = i := by
    intro j hj
    have hnat := congrArg UInt32.toNat hj
    rw [layout.toNat_fileStruct, layout.toNat_fileStruct] at hnat
    exact Fin.ext (by omega)
  have hsome : (layout.slot (layout.fileStruct i)).isSome := by
    rw [Layout.slot, List.find?_isSome]
    exact ⟨i, List.mem_finRange i, by simp⟩
  obtain ⟨j, hj⟩ := Option.isSome_iff_exists.mp hsome
  have heq : layout.fileStruct j = layout.fileStruct i := by simpa using List.find?_some hj
  rw [hj, hinj j heq]

/-- The card: which transfers fail, its partition, and where its paths lead. -/
structure SdCard where
  faults : Faults
  partition : Partition
  entryFromPath : CStr → StateM Cache (Option DirEntry)

/-- The `FILE_STRUCT`s of the slots, and the cache. -/
structure SdState where
  files : OpenFilePtr → FileStruct
  cache : Cache

/-- What an SD function returns: a descriptor with the size in the slot, or a number, and the
buffer of a read. -/
inductive SdReply where
  | opened (fd filesize : UInt32)
  | returned (ret : ℤ) (buffer : Option (ℕ → UInt8))

section Card

variable (card : SdCard) (layout : Layout) (buffer : ℕ → UInt8)

/-- A call of `FAT_seek` or `FAT_read` on a slot. -/
def SdState.call (sd : SdState) (call : FileCall OpenFilePtr) : SdReply × SdState :=
  let r := call.onFiles card.faults card.partition sd.files sd.cache
  (.returned r.1.1.ret r.1.1.buffer, ⟨r.1.2, r.2⟩)

/-- An SD function is called, where reads go to the buffer; there is no answer for a descriptor that
is none. -/
def SdCall.onCard (sd : SdState) : SdCall → Option (SdReply × SdState)
  | .open i path =>
    match fatOpen card.partition card.entryFromPath path sd.cache with
    | (.error _, cache) =>
      some (.opened (-1) (UInt32.ofNat (sd.files i).filesize), ⟨sd.files, cache⟩)
    | (.ok file, cache) =>
      some (.opened (layout.fileStruct i) (UInt32.ofNat file.filesize),
        ⟨Function.update sd.files i file, cache⟩)
  | .seek fd offset => (layout.slot fd).map fun i => sd.call card (.seek i offset .set)
  | .read fd length =>
    (layout.slot fd).map fun i => sd.call card (.read i buffer (length % 2 ^ 32).toNat)
  | .close fd => (layout.slot fd).map fun i =>
    let r := fatClose (sd.files i)
    (.returned r.1 none, ⟨Function.update sd.files i r.2, sd.cache⟩)

/-- The SD functions, one after the other. -/
def runSdCalls : List SdCall → SdState → Option (List SdReply × SdState)
  | [], sd => some ([], sd)
  | call :: calls, sd => do
    let (reply, sd) ← call.onCard card layout buffer sd
    let (replies, sd) ← runSdCalls calls sd
    some (reply :: replies, sd)

end Card

/-- The runtime saw the answer. -/
def Env.Answers (env : Env) : SdCall → SdReply → Prop
  | .open i path, .opened fd filesize => env.sdOpen i path = (fd, filesize)
  | .seek fd offset, .returned ret _ => env.sdSeek fd offset = ret
  | .read fd length, .returned ret _ => env.sdRead fd length = ret
  | .close fd, .returned ret _ => env.sdClose fd = ret
  | .open .., .returned .. | .seek .., .opened .. | .read .., .opened .. | .close .., .opened .. => False

/-! ### The game over the card -/

/-- The game and the runtime, and the card. -/
structure GameState where
  sys : Sys
  sd : SdState

/-- A read is one within 32 bits. -/
def Call.InRange (s : Sys) : Call → Prop
  | .readPrio fi length offset => 0 ≤ offset ∧ offset < 2 ^ 31 ∧ 0 ≤ length ∧ length < 2 ^ 31 ∧
      (s.rt.fileInfos fi).length.toNat + length < 2 ^ 32
  | .open .. | .fastOpen .. | .close _ => True

/-- One call of the game that returns, with the answers of the SD functions. -/
inductive GameStep (card : SdCard) (layout : Layout) (disc : LoadedDisc) (s : GameState) (call : Call)
    (buffer : ℕ → UInt8) (replies : List SdReply) (s' : GameState) : Prop
  | mk {env : Env} {calls : List SdCall} (hcall : Allowed disc s.sys call)
      (hrange : call.InRange s.sys) (henv : env.Good layout)
      (hstep : s.sys.step layout env call = .ok s'.sys)
      (hcalls : s'.sys.rt.sdCalls = s.sys.rt.sdCalls ++ calls)
      (hsd : runSdCalls card layout buffer calls s.sd = some (replies, s'.sd))
      (hanswers : List.Forall₂ env.Answers calls replies)

/-- A run of the game. -/
inductive GameRun (card : SdCard) (layout : Layout) (disc : LoadedDisc) (s : GameState) :
    List Call → GameState → Prop
  | nil : GameRun card layout disc s [] s
  | step {calls : List Call} {s' s'' : GameState} {call : Call} {buffer : ℕ → UInt8}
      {replies : List SdReply} (hrun : GameRun card layout disc s calls s')
      (hstep : GameStep card layout disc s' call buffer replies s'') :
      GameRun card layout disc s (calls ++ [call]) s''

/-- The start: a new cache over the card, and whatever is in the game's memory. -/
structure GameState.Start (disc : LoadedDisc) (bytes : ℕ → UInt8) (s : GameState) : Prop where
  sys : ∃ fileInfos, s.sys = Sys.init disc fileInfos
  cache : ∃ sectors time pages, 0 < pages.length ∧ sectors.bytes = bytes ∧
    s.sd.cache = cacheConstructor sectors time pages

/-- The files that the entries of the disc record lead to, with their clusters. -/
structure SdCard.Holds (card : SdCard) (disc : LoadedDisc) (bytes : ℕ → UInt8)
    (entries : CStr → DirEntry) (clusters : CStr → List ℕ) : Prop where
  reads : ∀ n, card.faults.read n = none
  partition : card.partition.Ok
  device : ∀ e path, disc.pathOf e = some path → (behindDevice path).strchr 58 = none
  found : ∀ e path, disc.pathOf e = some path →
    Sees card.faults card.partition bytes (card.entryFromPath (behindDevice path))
      (some (entries path))
  entry : ∀ e path, disc.pathOf e = some path →
    (entries path).OnCard card.partition bytes (clusters path)

/-! ### The invariant -/

/-- A slot holds the file of its entry, and every `FileInfo` has its size. -/
structure GameState.Inv (card : SdCard) (disc : LoadedDisc) (bytes : ℕ → UInt8)
    (entries : CStr → DirEntry) (clusters : CStr → List ℕ) (s : GameState) : Prop where
  sys : s.sys.Inv disc
  readable : s.sd.cache.Readable card.faults card.partition
  seen : s.sd.cache.view card.partition.toCacheGeometry = bytes
  files : ∀ e i path, s.sys.rt.slotOf e = some i → disc.pathOf e = some path →
    (s.sd.files i).Ok card.partition bytes (clusters path) ∧
      (s.sd.files i).filesize = (entries path).fileSize
  sizes : ∀ e i path, s.sys.rt.slotOf e = some i → disc.pathOf e = some path →
    s.sys.rt.filesizes i = UInt32.ofNat (entries path).fileSize
  lengths : ∀ fi e path, s.sys.use fi = .sd e → disc.pathOf e = some path →
    (s.sys.rt.fileInfos fi).length = UInt32.ofNat (entries path).fileSize

section Invariant

variable {card : SdCard} {layout : Layout} {disc : LoadedDisc} {bytes : ℕ → UInt8}
  {entries : CStr → DirEntry} {clusters : CStr → List ℕ}

/-- What a read of the game is answered with: from a file of that size, with those bytes. -/
def readReplies (buffer : ℕ → UInt8) (length offset : ℤ) (size : ℕ) (content : ℕ → UInt8) :
    List SdReply :=
  let m := min length.toNat (size - offset.toNat)
  [.returned offset none, .returned m (some (patch buffer 0 (slice content offset.toNat m)))]

/-- What calls leave when only the file in one slot is at another position. -/
structure SdState.Moved (card : SdCard) (bytes : ℕ → UInt8) (fileClusters : List ℕ) (i : OpenFilePtr)
    (sd sd' : SdState) : Prop where
  readable : sd'.cache.Readable card.faults card.partition
  seen : sd'.cache.view card.partition.toCacheGeometry = bytes
  file : (sd'.files i).Ok card.partition bytes fileClusters
  filesize : (sd'.files i).filesize = (sd.files i).filesize
  others : ∀ j ≠ i, sd'.files j = sd.files j

/-- The file in the slot is at another position, and the card and the other slots are as they were.
-/
theorem SdState.Moved.mk_moveTo {sd : SdState} {i : OpenFilePtr} {fileClusters : List ℕ} {cache : Cache}
    {position : ℕ} {rwPosition : FilePosition}
    (hreadable : cache.Readable card.faults card.partition)
    (hseen : cache.view card.partition.toCacheGeometry = bytes)
    (hok : ((sd.files i).moveTo position rwPosition).Ok card.partition bytes fileClusters) :
    sd.Moved card bytes fileClusters i
      ⟨Function.update sd.files i ((sd.files i).moveTo position rwPosition), cache⟩ := by
  refine ⟨hreadable, hseen, ?_, ?_, fun j hj => Function.update_of_ne hj _ _⟩
  · show (Function.update sd.files i _ i).Ok card.partition bytes fileClusters
    rwa [Function.update_self]
  · show (Function.update sd.files i _ i).filesize = _
    rw [Function.update_self]
    rfl

/-- One move of the position in a slot and then another are a move to where the second one ended. -/
theorem SdState.Moved.trans {sd sd' sd'' : SdState} {i : OpenFilePtr} {fileClusters : List ℕ}
    (h : sd.Moved card bytes fileClusters i sd') (h' : sd'.Moved card bytes fileClusters i sd'') :
    sd.Moved card bytes fileClusters i sd'' :=
  ⟨h'.readable, h'.seen, h'.file, h'.filesize.trans h.filesize,
    fun j hj => (h'.others j hj).trans (h.others j hj)⟩

section Slot

variable {sd : SdState} {i : OpenFilePtr} {fileClusters : List ℕ}

/-- **A seek** on a slot that holds a file answers with the new position, and the file of the slot
is there then. -/
theorem SdState.call_seek (h : card.Holds disc bytes entries clusters)
    (hreadable : sd.cache.Readable card.faults card.partition)
    (hseen : sd.cache.view card.partition.toCacheGeometry = bytes)
    (hfile : (sd.files i).Ok card.partition bytes fileClusters) {p : ℕ} (hp : p < 2 ^ 31) :
    ∃ sd', sd.call card (.seek i p .set) = (.returned p none, sd') ∧
      sd.Moved card bytes fileClusters i sd' ∧ (sd'.files i).currentPosition = p := by
  have hnew : newPosition (sd.files i).currentPosition (sd.files i).filesize p .set = .ok p := by
    simp only [newPosition]
    rw [if_neg (by omega), if_neg (by omega), Int.toNat_natCast]
  have hret : (p : ℤ).bmod (2 ^ 32) = p := Int.bmod_eq_of_le (by omega) (by omega)
  obtain ⟨rwPosition, hmoved, hsees⟩ := fatSeek_sees h.reads h.partition hfile hnew
  obtain ⟨hanswer, hreadable', hseen'⟩ := hsees _ hreadable hseen
  have hcall : sd.call card (.seek i p .set) =
      let r := fatSeek card.faults card.partition (sd.files i) p .set sd.cache
      (.returned r.1.ret none, ⟨Function.update sd.files i r.1.file, r.2⟩) := rfl
  rw [hcall]
  dsimp only
  rw [hanswer, hret]
  refine ⟨_, rfl, .mk_moveTo hreadable' hseen' hmoved, ?_⟩
  show (Function.update sd.files i _ i).currentPosition = p
  rw [Function.update_self]
  rfl

/-- **A read** from where the position is: the bytes of the file from there on come into the buffer,
and the position moves behind them. -/
theorem SdState.call_read (h : card.Holds disc bytes entries clusters)
    (hreadable : sd.cache.Readable card.faults card.partition)
    (hseen : sd.cache.view card.partition.toCacheGeometry = bytes)
    (hfile : (sd.files i).Ok card.partition bytes fileClusters) (buffer : ℕ → UInt8) {n m : ℕ}
    (hn : n < 2 ^ 31) (hfit : (sd.files i).filesize + n < 2 ^ 32)
    (hm : m = min n ((sd.files i).filesize - (sd.files i).currentPosition)) :
    ∃ sd', sd.call card (.read i buffer n) =
        (.returned m (some (patch buffer 0
          (slice (card.partition.fileByte bytes fileClusters) (sd.files i).currentPosition m))), sd') ∧
      sd.Moved card bytes fileClusters i sd' := by
  obtain ⟨rwPosition, hmoved, hsees⟩ := fatRead_sees h.reads h.partition hfile buffer hn hfit hm
  obtain ⟨hanswer, hreadable', hseen'⟩ := hsees _ hreadable hseen
  have hcall : sd.call card (.read i buffer n) =
      let r := fatRead card.faults card.partition (sd.files i) buffer n sd.cache
      (.returned r.1.ret (some r.1.buffer), ⟨Function.update sd.files i r.1.file, r.2⟩) := rfl
  rw [hcall]
  dsimp only
  rw [hanswer]
  exact ⟨_, rfl, .mk_moveTo hreadable' hseen' hmoved⟩

/-- **A read of the game** on a slot that holds a file. -/
theorem runSdCalls_read (layout : Layout) (h : card.Holds disc bytes entries clusters)
    (hreadable : sd.cache.Readable card.faults card.partition)
    (hseen : sd.cache.view card.partition.toCacheGeometry = bytes)
    (hfile : (sd.files i).Ok card.partition bytes fileClusters) (buffer : ℕ → UInt8)
    {length offset : ℤ} (hoffset : 0 ≤ offset ∧ offset < 2 ^ 31)
    (hlength : 0 ≤ length ∧ length < 2 ^ 31) (hfit : (sd.files i).filesize + length < 2 ^ 32) :
    ∃ sd', runSdCalls card layout buffer
        [.seek (layout.fileStruct i) offset, .read (layout.fileStruct i) length] sd =
        some (readReplies buffer length offset (sd.files i).filesize
          (card.partition.fileByte bytes fileClusters), sd') ∧
      sd.Moved card bytes fileClusters i sd' := by
  obtain ⟨p, rfl⟩ := Int.eq_ofNat_of_zero_le hoffset.1
  obtain ⟨n, rfl⟩ := Int.eq_ofNat_of_zero_le hlength.1
  obtain ⟨sd₁, hseek, hmoved₁, hposition⟩ := SdState.call_seek h hreadable hseen hfile
    (show p < 2 ^ 31 by omega)
  obtain ⟨sd₂, hread, hmoved₂⟩ := SdState.call_read h hmoved₁.readable hmoved₁.seen hmoved₁.file buffer
    (show n < 2 ^ 31 by omega) (by rw [hmoved₁.filesize]; omega) rfl
  have hmod : ((n : ℤ) % 2 ^ 32).toNat = n := by omega
  refine ⟨sd₂, ?_, hmoved₁.trans hmoved₂⟩
  simp only [runSdCalls, SdCall.onCard, layout.slot_fileStruct, Option.map_some, hseek, hmod, hread,
    Option.bind_eq_bind, Option.bind_some, readReplies, Int.toNat_natCast, hposition, hmoved₁.filesize]

/-- **`SD_open`** of the path of an entry: the slot has the file that the card has for that path,
with its position at the start. -/
theorem runSdCalls_open (layout : Layout) (h : card.Holds disc bytes entries clusters)
    (hreadable : sd.cache.Readable card.faults card.partition)
    (hseen : sd.cache.view card.partition.toCacheGeometry = bytes) (buffer : ℕ → UInt8) (i : OpenFilePtr)
    {e : ℕ} {path : CStr} (hpath : disc.pathOf e = some path) :
    ∃ cache : Cache, runSdCalls card layout buffer [.open i path] sd =
        some ([.opened (layout.fileStruct i) (UInt32.ofNat (entries path).fileSize)],
          ⟨Function.update sd.files i ((entries path).opened card.partition), cache⟩) ∧
      cache.Readable card.faults card.partition ∧
      cache.view card.partition.toCacheGeometry = bytes := by
  obtain ⟨hanswer, hreadable', hseen'⟩ := fatOpen_sees (h.device e path hpath)
    (h.entry e path hpath).notDirectory (h.found e path hpath) _ hreadable hseen
  refine ⟨_, ?_, hreadable', hseen'⟩
  rw [runSdCalls, SdCall.onCard]
  rcases hopen : fatOpen card.partition card.entryFromPath path sd.cache with ⟨opened, cache⟩
  rw [hopen] at hanswer
  dsimp only at hanswer
  rw [hanswer]
  rfl

/-- **`SD_close`** marks the file of the slot as not in use, and changes nothing else. -/
theorem runSdCalls_close (sd : SdState) (i : OpenFilePtr) (buffer : ℕ → UInt8) :
    runSdCalls card layout buffer [.close (layout.fileStruct i)] sd =
      some ([.returned (fatClose (sd.files i)).1 none],
        ⟨Function.update sd.files i (fatClose (sd.files i)).2, sd.cache⟩) := by
  simp only [runSdCalls, SdCall.onCard, layout.slot_fileStruct, Option.map_some, Option.bind_eq_bind,
    Option.bind_some]

end Slot

/-- At the start nothing is open, so the invariant holds. -/
theorem GameState.Start.inv {s : GameState} (h : s.Start disc bytes) :
    s.Inv card disc bytes entries clusters := by
  obtain ⟨fileInfos, hsys⟩ := h.sys
  obtain ⟨sectors, time, pages, hpages, rfl, hcache⟩ := h.cache
  obtain ⟨hreadable, hseen⟩ := cacheConstructor_readable card.faults card.partition sectors time hpages
  have hslots : s.sys.rt.slotOf = fun _ => none := hsys ▸ slotOf_init disc fileInfos
  constructor
  case sys => exact hsys ▸ Sys.Inv.init disc fileInfos
  case readable => exact hcache ▸ hreadable
  case seen => exact hcache ▸ hseen
  case files =>
    intro e i path he
    rw [hslots] at he
    cases he
  case sizes =>
    intro e i path he
    rw [hslots] at he
    cases he
  case lengths =>
    intro fi e path hfi
    rw [hsys] at hfi
    cases hfi

section Step

variable {s s' : GameState} {env : Env} {call : Call}

/-- Slots and `FileInfo`s are as they were, or are closed. -/
theorem GameState.Inv.of_keepsOpen (h : s.Inv card disc bytes entries clusters) (hsys : s'.sys.Inv disc)
    (hreadable : s'.sd.cache.Readable card.faults card.partition)
    (hseen : s'.sd.cache.view card.partition.toCacheGeometry = bytes)
    (hslots : ∀ e i, s'.sys.rt.slotOf e = some i → s.sys.rt.slotOf e = some i)
    (hfiles : ∀ e i path, s'.sys.rt.slotOf e = some i → disc.pathOf e = some path →
      (s'.sd.files i).Ok card.partition bytes (clusters path) ∧
        (s'.sd.files i).filesize = (s.sd.files i).filesize)
    (hsizes : s'.sys.rt.filesizes = s.sys.rt.filesizes) (hopen : s.sys.KeepsOpen s'.sys) :
    s'.Inv card disc bytes entries clusters where
  sys := hsys
  readable := hreadable
  seen := hseen
  files e i path he hpath :=
    ⟨(hfiles e i path he hpath).1,
      (hfiles e i path he hpath).2.trans (h.files e i path (hslots e i he) hpath).2⟩
  sizes e i path he hpath := by
    rw [hsizes]
    exact h.sizes e i path (hslots e i he) hpath
  lengths fi e path hfi hpath := by
    obtain ⟨hfi', hinfo⟩ := hopen fi e hfi
    rw [hinfo]
    exact h.lengths fi e path hfi' hpath

/-- A `FileInfo` gets the size of the file in its slot. -/
theorem GameState.Inv.lengths_open (h : s.Inv card disc bytes entries clusters) {fi : FileInfoPtr}
    {e : ℕ} {n : UInt32} (huse : s'.sys.use = Function.update s.sys.use fi (.sd e))
    (hinfos : s'.sys.rt.fileInfos = Function.update s.sys.rt.fileInfos fi ⟨specialOf e, n⟩)
    (hn : ∀ path, disc.pathOf e = some path → n = UInt32.ofNat (entries path).fileSize)
    (fi' : FileInfoPtr) (e' : ℕ) (path : CStr) (hfi : s'.sys.use fi' = .sd e')
    (hpath : disc.pathOf e' = some path) :
    (s'.sys.rt.fileInfos fi').length = UInt32.ofNat (entries path).fileSize := by
  rw [huse] at hfi
  rw [hinfos]
  by_cases hf : fi' = fi
  · subst hf
    rw [Function.update_self] at hfi ⊢
    cases hfi
    exact hn path hpath
  · rw [Function.update_of_ne hf] at hfi ⊢
    exact h.lengths fi' e' path hfi hpath

/-- The file of a read is as long as its `FileInfo` says. -/
theorem GameState.Inv.filesize_eq (h : s.Inv card disc bytes entries clusters) {fi : FileInfoPtr} {e : ℕ}
    {i : OpenFilePtr} {path : CStr} (hfi : s.sys.use fi = .sd e) (hslot : s.sys.rt.slotOf e = some i)
    (hpath : disc.pathOf e = some path) :
    (s.sd.files i).filesize = (s.sys.rt.fileInfos fi).length.toNat := by
  rw [(h.files e i path hslot hpath).2, h.lengths fi e path hfi hpath,
    UInt32.toNat_ofNat_of_lt' (entries path).fileSize_lt]

/-- An entry with a slot has a path, as it is one of the table. -/
theorem GameState.Inv.exists_pathOf (h : s.Inv card disc bytes entries clusters) {e : ℕ}
    {i : OpenFilePtr} (hslot : s.sys.rt.slotOf e = some i) : ∃ path, disc.pathOf e = some path := by
  obtain ⟨fi, hfi⟩ := Finset.card_pos.mp
    (by have hshared := h.sys.accounts.shared e i hslot; omega : 0 < (holders s.sys.holds e).card)
  rw [mem_holders, Sys.holds, Function.comp_apply] at hfi
  have huse : s.sys.use fi = .sd e := by
    cases hu : s.sys.use fi with
    | sd e' =>
      rw [hu] at hfi
      rw [Option.some.inj hfi]
    | closed =>
      rw [hu] at hfi
      cases hfi
    | disc =>
      rw [hu] at hfi
      cases hfi
  obtain ⟨etp, -, hpath⟩ := h.sys.etp (h.sys.sd fi e huse).2
  exact ⟨etp.path, hpath⟩

/-- **The calls of one step** to the card keep the invariant, if they are those of the effect of the
step. -/
theorem GameState.Inv.of_effect (hcard : card.Holds disc bytes entries clusters)
    (h : s.Inv card disc bytes entries clusters) (hsys : s'.sys.Inv disc) {calls : List SdCall}
    {buffer : ℕ → UInt8} {replies : List SdReply} (hrange : call.InRange s.sys)
    (heffect : Sys.Effect layout disc env s.sys s'.sys call calls)
    (hsd : runSdCalls card layout buffer calls s.sd = some (replies, s'.sd))
    (hanswers : List.Forall₂ env.Answers calls replies) :
    s'.Inv card disc bytes entries clusters := by
  cases heffect with
  | silent hslots hsizes hopen =>
    have hsame : s'.sd = s.sd := (Prod.mk.inj (Option.some.inj hsd)).2.symm
    refine h.of_keepsOpen hsys (hsame ▸ h.readable) (hsame ▸ h.seen) (fun e i he => hslots ▸ he)
      (fun e i path he hpath => ?_) hsizes hopen
    rw [hsame]
    exact ⟨(h.files e i path (hslots ▸ he) hpath).1, rfl⟩
  | shared hslot hslots hsizes huse hinfos =>
    have hsame : s'.sd = s.sd := (Prod.mk.inj (Option.some.inj hsd)).2.symm
    refine ⟨hsys, hsame ▸ h.readable, hsame ▸ h.seen, fun e i path he hpath => ?_,
      fun e i path he hpath => ?_,
      h.lengths_open huse hinfos fun path hpath => h.sizes _ _ path hslot hpath⟩
    · rw [hsame]
      exact h.files e i path (hslots ▸ he) hpath
    · rw [hsizes]
      exact h.sizes e i path (hslots ▸ he) hpath
  | @opened _ fi e i path hfree hpath hslots hsizes huse hinfos =>
    -- the slot had no entry, and has the one that is opened
    obtain ⟨cache, hrun, hreadable, hseen⟩ := runSdCalls_open layout hcard h.readable h.seen buffer i hpath
    rw [hrun, Option.some.injEq, Prod.mk.injEq] at hsd
    obtain ⟨rfl, hsd⟩ := hsd
    have hanswer : env.sdOpen i path = _ := (List.forall₂_cons.mp hanswers).1
    have hpathOf : ∀ path', disc.pathOf e = some path' → path' = path := fun path' hpath' =>
      Option.some.inj (hpath'.symm.trans hpath)
    have hslot : ∀ e' i', s'.sys.rt.slotOf e' = some i' →
        e' = e ∧ i' = i ∨ i' ≠ i ∧ s.sys.rt.slotOf e' = some i' := by
      intro e' i' he'
      rw [hslots] at he'
      by_cases hee : e' = e
      · subst hee
        rw [Function.update_self] at he'
        exact Or.inl ⟨rfl, (Option.some.inj he').symm⟩
      · rw [Function.update_of_ne hee] at he'
        exact Or.inr ⟨fun hi => hfree e' (hi ▸ he'), he'⟩
    have hfiles : s'.sd.files = Function.update s.sd.files i ((entries path).opened card.partition) :=
      congrArg SdState.files hsd.symm
    rw [hanswer] at hsizes hinfos
    refine ⟨hsys, hsd ▸ hreadable, hsd ▸ hseen, fun e' i' path' he' hpath' => ?_,
      fun e' i' path' he' hpath' => ?_,
      h.lengths_open huse hinfos fun path' hpath' => by rw [hpathOf path' hpath']⟩
    · rw [hfiles]
      rcases hslot e' i' he' with ⟨rfl, rfl⟩ | ⟨hne, hold⟩
      · rw [hpathOf path' hpath', Function.update_self]
        exact ⟨(hcard.entry e' path hpath).opened_ok hcard.partition, rfl⟩
      · rw [Function.update_of_ne hne]
        exact h.files e' i' path' hold hpath'
    · rw [hsizes]
      rcases hslot e' i' he' with ⟨rfl, rfl⟩ | ⟨hne, hold⟩
      · rw [hpathOf path' hpath', Function.update_self]
      · rw [Function.update_of_ne hne]
        exact h.sizes e' i' path' hold hpath'
  | @read fi e i length offset hfi hslot hslots hsizes hopen =>
    -- the file in the slot of the entry is at another position
    obtain ⟨path, hpath⟩ := h.exists_pathOf hslot
    obtain ⟨hfile, -⟩ := h.files e i path hslot hpath
    obtain ⟨hoffset, hoffset', hlength, hlength', hfit⟩ := hrange
    obtain ⟨sd', hrun, hmoved⟩ := runSdCalls_read layout hcard h.readable h.seen hfile buffer
      ⟨hoffset, hoffset'⟩ ⟨hlength, hlength'⟩ (by rw [h.filesize_eq hfi hslot hpath]; exact hfit)
    rw [hrun, Option.some.injEq, Prod.mk.injEq] at hsd
    obtain ⟨-, rfl⟩ := hsd
    refine h.of_keepsOpen hsys hmoved.readable hmoved.seen (fun e i he => hslots ▸ he)
      (fun e' i' path' he' hpath' => ?_) hsizes hopen
    rw [hslots] at he'
    by_cases hi : i' = i
    · subst hi
      obtain rfl := h.sys.accounts.inj e' e i' he' hslot
      rw [Option.some.inj (hpath'.symm.trans hpath)]
      exact ⟨hmoved.file, hmoved.filesize⟩
    · rw [hmoved.others i' hi]
      exact ⟨(h.files e' i' path' he' hpath').1, rfl⟩
  | @closed _ e i hslot hslots hsizes hopen =>
    -- no other entry has the slot
    rw [runSdCalls_close, Option.some.injEq, Prod.mk.injEq] at hsd
    obtain ⟨-, hsd⟩ := hsd
    have hothers : ∀ e' i', s'.sys.rt.slotOf e' = some i' → i' ≠ i ∧ s.sys.rt.slotOf e' = some i' := by
      intro e' i' he'
      rw [hslots] at he'
      by_cases hee : e' = e
      · subst hee
        rw [Function.update_self] at he'
        cases he'
      · rw [Function.update_of_ne hee] at he'
        refine ⟨?_, he'⟩
        rintro rfl
        exact hee (h.sys.accounts.inj e' e i' he' hslot)
    refine h.of_keepsOpen hsys (hsd ▸ h.readable) (hsd ▸ h.seen) (fun e i he => (hothers e i he).2)
      (fun e' i' path' he' hpath' => ?_) hsizes hopen
    obtain ⟨hne, hold⟩ := hothers e' i' he'
    have hfile : s'.sd.files i' = s.sd.files i' := by
      rw [← hsd]
      exact Function.update_of_ne hne _ _
    rw [hfile]
    exact ⟨(h.files e' i' path' hold hpath').1, rfl⟩

/-- **A step keeps the invariant**: what the game has open has its file in a slot, and what is seen
of the card through the cache is what it has. -/
theorem GameState.Inv.step (hcard : card.Holds disc bytes entries clusters)
    (h : s.Inv card disc bytes entries clusters) {buffer : ℕ → UInt8} {replies : List SdReply}
    (hstep : GameStep card layout disc s call buffer replies s') :
    s'.Inv card disc bytes entries clusters := by
  obtain ⟨hcall, hrange, henv, hok, hcalls, hsd, hanswers⟩ := hstep
  obtain ⟨calls, hcalls', heffect⟩ := h.sys.effect hcall henv hok
  obtain rfl := List.append_cancel_left (hcalls.symm.trans hcalls')
  have hsys : s'.sys.Inv disc := by
    rcases h.sys.step hcall henv with ⟨e, -, -, herr⟩ | ⟨-, s'', hok', hinv⟩
    · rw [herr] at hok
      cases hok
    · rw [hok] at hok'
      exact Except.ok.inj hok' ▸ hinv.inv
  exact h.of_effect hcard hsys hrange heffect hsd hanswers

end Step

/-- **A run keeps the invariant**, by induction on its steps. -/
theorem GameRun.inv (hcard : card.Holds disc bytes entries clusters) {s s' : GameState}
    {calls : List Call} (hrun : GameRun card layout disc s calls s')
    (h : s.Inv card disc bytes entries clusters) : s'.Inv card disc bytes entries clusters := by
  induction hrun with
  | nil => exact h
  | step _ hstep ih => exact ih.step hcard hstep

/-- **What is not closed stays open** through a run, whatever is opened, read and closed beside it.
-/
theorem GameRun.use {s s' : GameState} {calls : List Call} (hrun : GameRun card layout disc s calls s')
    {fi : FileInfoPtr} {e : ℕ} (hfi : s.sys.use fi = .sd e) (hkept : .close fi ∉ calls) :
    s'.sys.use fi = .sd e := by
  induction hrun with
  | nil => exact hfi
  | step _ hstep ih =>
    rw [List.mem_append, List.mem_singleton, not_or] at hkept
    obtain ⟨hcall, -, -, hok, -, -, -⟩ := hstep
    exact Sys.use_of_not_close hcall hok (ih hkept.1) (Ne.symm hkept.2)

/-- The runtime looks a path up in what never changes. -/
theorem Sys.Inv.target_eq {s : Sys} (h : s.Inv disc) (call : Call) :
    call.target s.rt.riivoDisc = call.target disc.toRrcRiivoDisc := by
  cases call with
  | «open» path fi => exact resolve_congr h.static path
  | fastOpen entryNum fi => rfl
  | readPrio fi length offset => rfl
  | close fi => rfl

/-- SD functions with these answers. -/
def Env.answering (layout : Layout) (filesize : UInt32) (offset ret : ℤ) : Env where
  sdOpen i _ := (layout.fileStruct i, filesize)
  sdSeek _ _ := offset
  sdRead _ _ := ret
  sdClose _ := 0
  discConvert _ := 0
  discOpen _ := ⟨0, ⟨0, 0⟩⟩
  discFastOpen _ := ⟨-1, ⟨0, 0⟩⟩
  discReadPrio _ _ := 0

/-- SD functions with these answers are good ones, if the position and the number of bytes that they
answer are not negative. -/
theorem Env.answering_good (layout : Layout) (filesize : UInt32) {offset ret : ℤ} (hoffset : 0 ≤ offset)
    (hret : 0 ≤ ret) : (Env.answering layout filesize offset ret).Good layout where
  sdOpen _ _ := rfl
  sdSeek _ _ := by show offset ≠ -1; omega
  sdRead _ _ := by show ret ≠ -1; omega
  sdClose _ := by show (0 : ℤ) ≠ -1; omega
  discOpen _ h := absurd rfl h.1
  discFastOpen _ h := absurd rfl h

/-- **Reading what is open** goes through, and the buffer has the bytes of the file from the offset
on, up to its end. -/
theorem GameState.Inv.reads (hcard : card.Holds disc bytes entries clusters) {s : GameState}
    (h : s.Inv card disc bytes entries clusters) {fi : FileInfoPtr} {e : ℕ} {path : CStr}
    (hfi : s.sys.use fi = .sd e) (hpath : disc.pathOf e = some path) {length offset : ℤ}
    (hrange : Call.InRange s.sys (.readPrio fi length offset)) (buffer : ℕ → UInt8) :
    (∃ s', GameStep card layout disc s (.readPrio fi length offset) buffer
      (readReplies buffer length offset (entries path).fileSize
        (card.partition.fileByte bytes (clusters path))) s') ∧
    ∀ replies s', GameStep card layout disc s (.readPrio fi length offset) buffer replies s' →
      replies = readReplies buffer length offset (entries path).fileSize
        (card.partition.fileByte bytes (clusters path)) := by
  obtain ⟨i, hslot⟩ := h.sys.accounts.slot_of_holds (holds_eq_some hfi)
  obtain ⟨hfile, hsize⟩ := h.files e i path hslot hpath
  have hrange' := hrange
  obtain ⟨hoffset, hoffset', hlength, hlength', hfit⟩ := hrange
  obtain ⟨sd', hrun, -⟩ := runSdCalls_read layout hcard h.readable h.seen hfile buffer
    ⟨hoffset, hoffset'⟩ ⟨hlength, hlength'⟩ (by rw [h.filesize_eq hfi hslot hpath]; exact hfit)
  rw [hsize] at hrun
  have hcall : Allowed disc s.sys (.readPrio fi length offset) := by
    rw [Allowed, hfi]
    exact Use.noConfusion
  constructor
  · have hgood := Env.answering_good layout 0 hoffset
      (Int.natCast_nonneg (min length.toNat ((entries path).fileSize - offset.toNat)))
    refine ⟨⟨_, sd'⟩, .mk hcall hrange' hgood (h.sys.step_readPrio hgood hfi hslot length offset) ?_ hrun
      ?_⟩
    · simp [RteState.trace]
    · exact .cons rfl (.cons rfl .nil)
  · rintro replies s' ⟨-, -, henv, hok, hcalls, hsd, -⟩
    rw [h.sys.step_readPrio henv hfi hslot, Except.ok.injEq] at hok
    rw [← hok] at hcalls
    have hcalls' := List.append_cancel_left ((List.append_assoc _ _ _).symm.trans hcalls)
    rw [← hcalls', List.singleton_append, hrun] at hsd
    exact (Prod.mk.inj (Option.some.inj hsd)).1.symm

/-- The size that the game is told for what it has open is that of the file on the card. -/
theorem GameState.Inv.length_eq {s : GameState} (h : s.Inv card disc bytes entries clusters)
    {fi : FileInfoPtr} {e : ℕ} {path : CStr} (hfi : s.sys.use fi = .sd e)
    (hpath : disc.pathOf e = some path) :
    (s.sys.rt.fileInfos fi).length.toNat = (entries path).fileSize := by
  rw [h.lengths _ e path hfi hpath, UInt32.toNat_ofNat_of_lt' (entries path).fileSize_lt]

/-- **What was opened is open** until it is closed, whatever the game calls in between. -/
theorem GameRun.opened (hcard : card.Holds disc bytes entries clusters)
    {start s s₁ s₂ : GameState} (hstart : start.Start disc bytes) {before after : List Call}
    (hbefore : GameRun card layout disc start before s) {call : Call} {buffer : ℕ → UInt8}
    {replies : List SdReply} (hopen : GameStep card layout disc s call buffer replies s₁) {e : ℕ}
    (htarget : call.target disc.toRrcRiivoDisc = some e)
    (hafter : GameRun card layout disc s₁ after s₂) (hkept : .close call.fileInfo ∉ after) :
    s₂.Inv card disc bytes entries clusters ∧ s₂.sys.use call.fileInfo = .sd e := by
  have hinv₀ : start.Inv card disc bytes entries clusters := hstart.inv
  have hinv := hbefore.inv hcard hinv₀
  have hinv₁ := hinv.step hcard hopen
  refine ⟨hafter.inv hcard hinv₁, hafter.use ?_ hkept⟩
  obtain ⟨-, -, -, hok, -, -, -⟩ := hopen
  exact Sys.use_of_target hok ((hinv.sys.target_eq call).trans htarget)

/-- **The game reads the replacement.**  In every run, from the call that opens an SD entry on until
its `FileInfo` is closed, the `FileInfo` has the size of the SD file, and a read within 32 bits
returns and puts the bytes of the file from its offset on into the buffer, up to the end of
the file. -/
theorem game_reads_replacement (hcard : card.Holds disc bytes entries clusters)
    {start s s₁ s₂ : GameState} (hstart : start.Start disc bytes) {before after : List Call}
    (hbefore : GameRun card layout disc start before s) {call : Call} {buffer : ℕ → UInt8}
    {replies : List SdReply} (hopen : GameStep card layout disc s call buffer replies s₁) {e : ℕ}
    {path : CStr} (htarget : call.target disc.toRrcRiivoDisc = some e)
    (hpath : disc.pathOf e = some path) (hafter : GameRun card layout disc s₁ after s₂)
    (hkept : .close call.fileInfo ∉ after) :
    (s₂.sys.rt.fileInfos call.fileInfo).length.toNat = (entries path).fileSize ∧
    ∀ length offset, Call.InRange s₂.sys (.readPrio call.fileInfo length offset) → ∀ buffer,
      (∃ s', GameStep card layout disc s₂ (.readPrio call.fileInfo length offset) buffer
        (readReplies buffer length offset (entries path).fileSize
          (card.partition.fileByte bytes (clusters path))) s') ∧
      ∀ replies s', GameStep card layout disc s₂ (.readPrio call.fileInfo length offset) buffer
          replies s' →
        replies = readReplies buffer length offset (entries path).fileSize
          (card.partition.fileByte bytes (clusters path)) := by
  obtain ⟨hinv, huse⟩ := hbefore.opened hcard hstart hopen htarget hafter hkept
  exact ⟨hinv.length_eq huse hpath, fun length offset hrange buffer =>
    hinv.reads hcard huse hpath hrange buffer⟩

end Invariant

/-! ### A course that is replaced -/

/-- One replaced course, as it is loaded. -/
def replacedCourse : LoadedDisc :=
  { courseDisc.toRrcRiivoDisc with
    closed := by decide
    entrynum := courseDisc.entrynum
    fits := by decide }

/-- The directory entry of a file of 2500 bytes from the second cluster on. -/
def courseEntry : DirEntry := ⟨List.replicate 26 0 ++ [2, 0, 0xC4, 0x09, 0, 0]⟩

/-- A card on which every path leads to it. -/
def courseCard : SdCard := ⟨noFaults, coursePartition, fun _ => pure (some courseEntry)⟩

/-- The game has not opened anything. -/
def courseStart : GameState :=
  ⟨Sys.init replacedCourse fun _ => ⟨0, 0⟩, ⟨fun _ => courseFile, cacheConstructor cardOfCourse 0 [fun _ => 0]⟩⟩

/-- The start of the witness is one as the theorem asks for: nothing is open, and the card has the
replaced course. -/
theorem courseStart_start : courseStart.Start replacedCourse cardOfCourse.bytes :=
  ⟨⟨_, rfl⟩, ⟨cardOfCourse, 0, [fun _ => 0], by simp, rfl, rfl⟩⟩

/-- The card of the witness holds the course in three clusters that do not lie in a row. -/
theorem courseCard_holds : courseCard.Holds replacedCourse cardOfCourse.bytes (fun _ => courseEntry)
    fun _ => [2, 4, 3] := by
  have hpath : ∀ e path, replacedCourse.pathOf e = some path → path = CStr.lit "/a.szs" := by
    intro e path h
    rw [LoadedDisc.pathOf] at h
    cases e with
    | zero => exact (Option.some.inj h).symm
    | succ e => cases h
  constructor
  case reads => exact fun _ => rfl
  case partition => exact coursePartition_ok
  case device =>
    intro e path h
    rw [hpath e path h]
    decide
  case found => exact fun _ _ _ => Observes.pure _
  case entry =>
    exact fun _ _ _ => ⟨by decide, Or.inr ⟨cardOfCourse_chain, by decide, by decide, by decide⟩⟩

/-- The game opens the course from the start of the witness, and is told its size. -/
theorem courseStart_opens : ∃ s₁, GameStep courseCard courseLayout replacedCourse courseStart
    (.open (CStr.lit "course.szs") 0) (fun _ => 0) [.opened (courseLayout.fileStruct 0) 2500] s₁ := by
  have hinv : courseStart.Inv courseCard replacedCourse cardOfCourse.bytes (fun _ => courseEntry)
      fun _ => [2, 4, 3] := courseStart_start.inv
  have hres : rteDvdResolvePathToEntryNum courseStart.sys.rt.riivoDisc (CStr.lit "course.szs") =
      some 0 := resolve_courseDisc
  have hpath : replacedCourse.pathOf 0 = some (CStr.lit "/a.szs") := rfl
  have hsize : UInt32.ofNat courseEntry.fileSize = 2500 := by decide
  have hgood := Env.answering_good courseLayout 2500 (Int.le_refl 0) (Int.le_refl 0)
  obtain ⟨cache, hrun, -⟩ := runSdCalls_open courseLayout courseCard_holds hinv.readable hinv.seen
    (fun _ => 0) 0 hpath
  rw [hsize] at hrun
  have hentry : courseStart.sys.rt.riivoDisc.sdFiles[0]? = some ⟨CStr.lit "/a.szs", none⟩ := rfl
  obtain ⟨sys, hstep, hcalls⟩ : ∃ sys, courseStart.sys.step courseLayout
      (Env.answering courseLayout 2500 0 0) (.open (CStr.lit "course.szs") 0) = .ok sys ∧
      sys.rt.sdCalls = courseStart.sys.rt.sdCalls ++ [.open 0 (CStr.lit "/a.szs")] := by
    rw [Sys.step_open hres, rteDvdOpenEntryNum_free (i := 0) hentry rfl rfl rfl]
    exact ⟨_, rfl, rfl⟩
  exact ⟨⟨sys, _⟩, .mk rfl trivial hgood hstep hcalls hrun (.cons rfl .nil)⟩

/-- A read across the clusters of the course is in range. -/
theorem inRange_course {s : GameState} (h : (s.sys.rt.fileInfos 0).length.toNat = courseEntry.fileSize) :
    Call.InRange s.sys (.readPrio 0 1400 1000) := by
  have hlength : (s.sys.rt.fileInfos 0).length.toNat = 2500 := h
  rw [Call.InRange, hlength]
  decide

/-- The game opens the course, and reads across its clusters. -/
theorem game_reads_replacement_course : ∃ s₁ s',
    GameStep courseCard courseLayout replacedCourse courseStart (.open (CStr.lit "course.szs") 0)
      (fun _ => 0) [.opened (courseLayout.fileStruct 0) 2500] s₁ ∧
    (s₁.sys.rt.fileInfos 0).length.toNat = courseEntry.fileSize ∧
    GameStep courseCard courseLayout replacedCourse s₁ (.readPrio 0 1400 1000) (fun _ => 0)
      (readReplies (fun _ => 0) 1400 1000 courseEntry.fileSize
        (coursePartition.fileByte cardOfCourse.bytes [2, 4, 3])) s' := by
  obtain ⟨s₁, hopen⟩ := courseStart_opens
  have htarget : Call.target replacedCourse.toRrcRiivoDisc (.open (CStr.lit "course.szs") 0) = some 0 :=
    resolve_courseDisc
  obtain ⟨hlength, hreads⟩ := game_reads_replacement courseCard_holds courseStart_start .nil hopen
    htarget rfl .nil List.not_mem_nil
  obtain ⟨⟨s', hread⟩, -⟩ := hreads 1400 1000 (inRange_course hlength) fun _ => 0
  exact ⟨_, s', hopen, hlength, hread⟩

end RrLauncher
