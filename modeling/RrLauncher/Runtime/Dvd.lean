/-
# The replaced DVD functions

The rest of `runtime-ext/source/dvd.c`: the game's `DVDOpen`, `DVDFastOpen`,
`DVDReadPrio` and `DVDClose`, which go to the SD card for a replaced file and to
the overwritten function for the others.  A replaced file is told apart by the
top ten bits of its entry number, and of the start address in the game's
`FileInfo`; an SD file that several `FileInfo`s have open is opened once, in a
slot of `open_files` with a reference count.

What happens outside is the argument `env`: the results of the SD functions and
of the game's own functions.  An `RTE_FATAL` is an error of `Except`, named by
its place in the source, and the calls of the SD functions are kept in a trace.
-/

import RrLauncher.Runtime.Resolve
import Mathlib.Data.Fintype.Basic
import Mathlib.Logic.Function.Basic

namespace RrLauncher

/-- `SPECIAL_ENTRYNUM`. -/
def specialEntrynum : UInt32 := (0b0111111101 : UInt32) <<< 22

/-- `SPECIAL_ENTRYNUM_MASK`. -/
def specialEntrynumMask : UInt32 := (0b1111111111 : UInt32) <<< 22

/-- The special bit pattern in an entry number or in a start address. -/
def IsSpecial (x : UInt32) : Prop := x &&& specialEntrynumMask = specialEntrynum

instance (x : UInt32) : Decidable (IsSpecial x) :=
  inferInstanceAs (Decidable (_ = _))

/-- `SPECIAL_ENTRYNUM | entry_num`. -/
def specialOf (entryNum : ℕ) : UInt32 := specialEntrynum ||| UInt32.ofNat entryNum

/-- `x & ~SPECIAL_ENTRYNUM_MASK`, as an index. -/
def entryNumOf (x : UInt32) : ℕ := (x &&& ~~~specialEntrynumMask).toNat

/-- A number below `2 ^ 22` has no bit in common with the mask. -/
theorem ofNat_and_mask {e : ℕ} (he : e < 2 ^ 22) : UInt32.ofNat e &&& specialEntrynumMask = 0 := by
  have hmask : specialEntrynumMask.toNat = (2 ^ 10 - 1) <<< 22 := by decide
  have hsize : e < UInt32.size := he.trans (by decide)
  rw [← UInt32.toNat_inj, UInt32.toNat_and, UInt32.toNat_ofNat_of_lt' hsize, hmask]
  refine Nat.eq_of_testBit_eq fun i => ?_
  rw [Nat.testBit_and, Nat.testBit_shiftLeft, UInt32.toNat_zero, Nat.zero_testBit]
  by_cases hi : 22 ≤ i
  · rw [Nat.testBit_lt_two_pow (he.trans_le (Nat.pow_le_pow_right Nat.two_pos hi)),
      Bool.false_and]
  · simp [hi]

/-- Such a number is kept by the complement of the mask. -/
theorem ofNat_and_not_mask {e : ℕ} (he : e < 2 ^ 22) :
    UInt32.ofNat e &&& ~~~specialEntrynumMask = UInt32.ofNat e := by
  have h := ofNat_and_mask he
  rw [← UInt32.toBitVec_inj] at h ⊢
  rw [UInt32.toBitVec_and] at h ⊢
  calc (UInt32.ofNat e).toBitVec &&& ~~~specialEntrynumMask.toBitVec
      = ((UInt32.ofNat e).toBitVec &&& specialEntrynumMask.toBitVec) |||
        ((UInt32.ofNat e).toBitVec &&& ~~~specialEntrynumMask.toBitVec) := by
        rw [h]; exact BitVec.zero_or.symm
    _ = (UInt32.ofNat e).toBitVec &&&
        (specialEntrynumMask.toBitVec ||| ~~~specialEntrynumMask.toBitVec) :=
        BitVec.and_or_distrib_left.symm
    _ = (UInt32.ofNat e).toBitVec := by
        rw [show specialEntrynumMask.toBitVec ||| ~~~specialEntrynumMask.toBitVec
          = BitVec.allOnes 32 by decide, BitVec.and_allOnes]

/-- Masking a marked entry number masks the mark and the number. -/
theorem specialOf_and (e : ℕ) (x : UInt32) :
    specialOf e &&& x = (specialEntrynum &&& x) ||| (UInt32.ofNat e &&& x) := by
  rw [specialOf, ← UInt32.toBitVec_inj]
  simp only [UInt32.toBitVec_and, UInt32.toBitVec_or, BitVec.and_comm _ x.toBitVec,
    BitVec.and_or_distrib_left]

/-- **An entry number below `2 ^ 22` is marked as special.** -/
theorem isSpecial_specialOf {e : ℕ} (he : e < 2 ^ 22) : IsSpecial (specialOf e) := by
  rw [IsSpecial, specialOf_and, ofNat_and_mask he]
  rfl

/-- **The mark comes off again**: an entry number that fits is read back from its start address. -/
theorem entryNumOf_specialOf {e : ℕ} (he : e < 2 ^ 22) : entryNumOf (specialOf e) = e := by
  have hclear : specialEntrynum &&& ~~~specialEntrynumMask = 0 := by decide
  rw [entryNumOf, specialOf_and, hclear, ofNat_and_not_mask he, UInt32.zero_or,
    UInt32.toNat_ofNat_of_lt' (he.trans (by decide))]

/-- A `FileInfo *` of the game, as the address over its alignment. -/
abbrev FileInfoPtr := Fin (2 ^ 30)

/-- The fields of `struct FileInfo` that the replaced functions use. -/
structure FileInfo where
  startAddr : UInt32
  length : UInt32

/-- `struct rte_open_file`, with the size its `FILE_STRUCT` starts with. -/
structure RteOpenFile where
  filesize : UInt32
  refcount : ℤ

/-- The address of `open_files`: aligned, and the whole array is in memory. -/
structure Layout where
  openFiles : UInt32
  aligned : openFiles.toNat % 4 = 0
  fits : openFiles.toNat + 84 * maxConcurrentFiles ≤ 2 ^ 32

/-- The address of the `FILE_STRUCT` of a slot, which is its file descriptor. -/
def Layout.fileStruct (layout : Layout) (file : OpenFilePtr) : UInt32 :=
  layout.openFiles + 84 * UInt32.ofNat file

/-- No descriptor is the error value of `SD_open`, so the test of the caller tells the two apart. -/
theorem Layout.fileStruct_ne_neg_one (layout : Layout) (file : OpenFilePtr) :
    layout.fileStruct file ≠ -1 := by
  intro h
  have haligned := layout.aligned
  have hlt : file.val < 16 := file.isLt
  have hfile : (UInt32.ofNat file).toNat = file :=
    UInt32.toNat_ofNat_of_lt' (hlt.trans (by decide))
  have hnat := congrArg UInt32.toNat h
  rw [Layout.fileStruct, UInt32.toNat_add, UInt32.toNat_mul, hfile,
    show (84 : UInt32).toNat = 84 from rfl, show (-1 : UInt32).toNat = 2 ^ 32 - 1 by decide] at hnat
  omega

/-- A call of an SD function. -/
inductive SdCall
  | open (file : OpenFilePtr) (path : CStr)
  | seek (fd : UInt32) (offset : ℤ)
  | read (fd : UInt32) (length : ℤ)
  | close (fd : UInt32)
  deriving DecidableEq

/-- The calls that open or close an SD file. -/
def SdCall.isOpenOrClose : SdCall → Bool
  | .open .. | .close .. => true
  | .seek .. | .read .. => false

/-- What an overwritten function of the game returns and leaves in the
`FileInfo`. -/
structure DiscReply where
  res : ℤ
  fileInfo : FileInfo

/-- The world during one call: results of the SD functions, where `sdOpen` gives
the descriptor and the file size, and of the overwritten functions. -/
structure Env where
  sdOpen : OpenFilePtr → CStr → UInt32 × UInt32
  sdSeek : UInt32 → ℤ → ℤ
  sdRead : UInt32 → ℤ → ℤ
  sdClose : UInt32 → ℤ
  discConvert : CStr → UInt32
  discOpen : CStr → DiscReply
  discFastOpen : UInt32 → DiscReply
  discReadPrio : ℤ → ℤ → ℤ

/-- The places where the runtime stops.  `outOfBounds` is none of them: it is the
access to `sd_files` that the source does not check. -/
inductive RteFatal
  | tooManyOpen
  | sdOpenFailed
  | fdNotFilePointer
  | convertSpecial
  | fastOpenSpecial
  | readBeforeOpen
  | fdOfClosed
  | seekFailed
  | readFailed
  | closeNotOpen
  | refcountZero
  | closeFailed
  | outOfBounds
  deriving DecidableEq

/-- The memory of the runtime and the game's `FileInfo`s, with the trace of SD
calls. -/
structure RteState where
  riivoDisc : RrcRiivoDisc
  openFiles : OpenFilePtr → RteOpenFile
  fileInfos : FileInfoPtr → FileInfo
  sdCalls : List SdCall

/-- The value of an `s32` after arithmetic. -/
def s32 (x : ℤ) : ℤ := x.bmod (2 ^ 32)

/-- A number in the range of 32 bits with a sign is not changed by the conversion. -/
theorem s32_eq {x : ℤ} (h₁ : -2 ^ 31 ≤ x) (h₂ : x < 2 ^ 31) : s32 x = x :=
  Int.bmod_eq_of_le (by omega) (by omega)

namespace RteState

/-- `opened_file->refcount = refcount`. -/
def setRefcount (s : RteState) (file : OpenFilePtr) (refcount : ℤ) : RteState :=
  { s with openFiles :=
      Function.update s.openFiles file { s.openFiles file with refcount := refcount } }

/-- `file->file_struct.filesize = filesize`. -/
def setFilesize (s : RteState) (file : OpenFilePtr) (filesize : UInt32) : RteState :=
  { s with openFiles :=
      Function.update s.openFiles file { s.openFiles file with filesize := filesize } }

/-- `*file_info = info`. -/
def setFileInfo (s : RteState) (fileInfo : FileInfoPtr) (info : FileInfo) : RteState :=
  { s with fileInfos := Function.update s.fileInfos fileInfo info }

/-- `riivo_disc.sd_files[entry_num].file_info = file`, for the entry `etp`. -/
def setEtpFileInfo (s : RteState) (entryNum : ℕ) (etp : RrcRiivoSdFile)
    (file : Option OpenFilePtr) : RteState :=
  { s with riivoDisc :=
      { s.riivoDisc with sdFiles := s.riivoDisc.sdFiles.set entryNum { etp with fileInfo := file } } }

/-- One more call of an SD function, in the order in which they are made. -/
def trace (s : RteState) (call : SdCall) : RteState := { s with sdCalls := s.sdCalls ++ [call] }

end RteState

/-- `rte_riivo_sd_fd`. -/
def rteRiivoSdFd (layout : Layout) (sdFile : RrcRiivoSdFile) : Except RteFatal UInt32 :=
  match sdFile.fileInfo with
  | none => .error .fdOfClosed
  | some file => .ok (layout.fileStruct file)

/-- `rte_dvd_alloc_open_file`. -/
def rteDvdAllocOpenFile (s : RteState) : Except RteFatal (OpenFilePtr × RteState) :=
  match (List.finRange maxConcurrentFiles).find? fun i => (s.openFiles i).refcount = 0 with
  | some i => .ok (i, s.setRefcount i 1)
  | none => .error .tooManyOpen

/-- `&riivo_disc.sd_files[entry_num]`. -/
def etpOf (s : RteState) (entryNum : ℕ) : Except RteFatal RrcRiivoSdFile :=
  match s.riivoDisc.sdFiles[entryNum]? with
  | some etp => .ok etp
  | none => .error .outOfBounds

/-- `rte_dvd_open_entry_num`. -/
def rteDvdOpenEntryNum (layout : Layout) (env : Env) (entryNum : ℕ) (fileInfo : FileInfoPtr)
    (s : RteState) : Except RteFatal RteState := do
  let etp ← etpOf s entryNum
  match etp.fileInfo with
  | some openedFile =>
    let s := s.setFileInfo fileInfo ⟨specialOf entryNum, (s.openFiles openedFile).filesize⟩
    return s.setRefcount openedFile (s32 ((s.openFiles openedFile).refcount + 1))
  | none =>
    let (file, s) ← rteDvdAllocOpenFile s
    let (fd, filesize) := env.sdOpen file etp.path
    let s := (s.trace (.open file etp.path)).setFilesize file filesize
    if fd = -1 then throw .sdOpenFailed
    if fd ≠ layout.fileStruct file then throw .fdNotFilePointer
    let s := s.setEtpFileInfo entryNum etp (some file)
    return s.setFileInfo fileInfo ⟨specialOf entryNum, (s.openFiles file).filesize⟩

/-- `custom_convert_path_to_entry_num_impl`. -/
def customConvertPathToEntryNumImpl (env : Env) (riivoDisc : RrcRiivoDisc) (filename : CStr) :
    Except RteFatal UInt32 :=
  match rteDvdResolvePathToEntryNum riivoDisc filename with
  | some entryNum => .ok (specialOf entryNum)
  | none =>
    let res := env.discConvert filename
    if IsSpecial res then .error .convertSpecial else .ok res

/-- `custom_open_impl`. -/
def customOpenImpl (layout : Layout) (env : Env) (path : CStr) (fileInfo : FileInfoPtr)
    (s : RteState) : Except RteFatal (ℤ × RteState) :=
  match rteDvdResolvePathToEntryNum s.riivoDisc path with
  | some entryNum => do return (1, ← rteDvdOpenEntryNum layout env entryNum fileInfo s)
  | none =>
    let reply := env.discOpen path
    .ok (reply.res, s.setFileInfo fileInfo reply.fileInfo)

/-- `custom_fast_open_impl`. -/
def customFastOpenImpl (layout : Layout) (env : Env) (entryNum : UInt32) (fileInfo : FileInfoPtr)
    (s : RteState) : Except RteFatal (ℤ × RteState) :=
  if IsSpecial entryNum then do
    return (1, ← rteDvdOpenEntryNum layout env (entryNumOf entryNum) fileInfo s)
  else
    let reply := env.discFastOpen entryNum
    let s := s.setFileInfo fileInfo reply.fileInfo
    if reply.res ≠ -1 ∧ IsSpecial (s.fileInfos fileInfo).startAddr then .error .fastOpenSpecial
    else .ok (reply.res, s)

/-- `custom_read_prio_impl`, without the bytes it puts into the buffer. -/
def customReadPrioImpl (layout : Layout) (env : Env) (fileInfo : FileInfoPtr) (length offset : ℤ)
    (s : RteState) : Except RteFatal (ℤ × RteState) :=
  if IsSpecial (s.fileInfos fileInfo).startAddr then do
    let etp ← etpOf s (entryNumOf (s.fileInfos fileInfo).startAddr)
    if etp.fileInfo = none then throw .readBeforeOpen
    let fd ← rteRiivoSdFd layout etp
    let s := s.trace (.seek fd offset)
    if env.sdSeek fd offset = -1 then throw .seekFailed
    let bytes := env.sdRead fd length
    let s := s.trace (.read fd length)
    if bytes = -1 then throw .readFailed
    return (bytes, s)
  else .ok (env.discReadPrio length offset, s)

/-- `custom_close_impl`.  `DVDCancel` leaves the start address alone. -/
def customCloseImpl (layout : Layout) (env : Env) (fileInfo : FileInfoPtr) (s : RteState) :
    Except RteFatal (ℤ × RteState) :=
  if IsSpecial (s.fileInfos fileInfo).startAddr then do
    let entrynum := entryNumOf (s.fileInfos fileInfo).startAddr
    let etp ← etpOf s entrynum
    match etp.fileInfo with
    | none => throw .closeNotOpen
    | some openedFile =>
      if (s.openFiles openedFile).refcount = 0 then throw .refcountZero
      let s := s.setRefcount openedFile (s32 ((s.openFiles openedFile).refcount - 1))
      if (s.openFiles openedFile).refcount = 0 then
        let fd ← rteRiivoSdFd layout etp
        let s := s.trace (.close fd)
        if env.sdClose fd = -1 then throw .closeFailed
        return (1, s.setEtpFileInfo entrynum etp none)
      else return (1, s)
  else .ok (1, s)

end RrLauncher
