/-
# Opening and closing a file for reading

`FAT_open` with `O_RDONLY`, and `FAT_close`.  Where a path leads is found by
`_FAT_directory_entryFromPath` (`directory.c`), which is a parameter here: it goes through the
cache as all other reads do.  What comes of `FAT_open` is a file at its start, which
`FAT_seek` and `FAT_read` can work on (`fatOpen_sees`).
-/

import RrLauncher.Lib.CText
import RrLauncher.Libfat.FileBytes
import RrLauncher.Libfat.FatSeek

namespace RrLauncher

/-- A directory entry as it is found on the card: `entryData` of `DIR_ENTRY`. -/
structure DirEntry where
  entryData : List UInt8

namespace DirEntry

/-- `u8array_to_u16` and `u8array_to_u32` at an offset. -/
def value (entry : DirEntry) (offset n : ℕ) : ℕ := u8arrayToValue ((entry.entryData.drop offset).take n)

/-- `_FAT_directory_isDirectory`. -/
def isDirectory (entry : DirEntry) : Bool := entry.entryData.getD 0x0B 0 &&& 0x10 ≠ 0

/-- The size in the entry. -/
def fileSize (entry : DirEntry) : ℕ := entry.value 0x1C 4

/-- `_FAT_directory_entryGetCluster`. -/
def cluster (P : Partition) (entry : DirEntry) : ℕ :=
  match P.filesysType with
  | .fat32 => entry.value 0x1A 2 + 2 ^ 16 * entry.value 0x14 2
  | _ => entry.value 0x1A 2

/-- The file at its start, open for reading. -/
def opened (P : Partition) (entry : DirEntry) : FileStruct :=
  ⟨entry.fileSize, entry.cluster P, 0, ⟨entry.cluster P, 0, 0⟩, true, true⟩

end DirEntry

/-- The path behind the name of the device. -/
def behindDevice (path : CStr) : CStr := ((path.strchr 58).map CStr.advance).getD path

/-- `FAT_open` with `O_RDONLY`, where finding the entry of a path is a parameter. -/
def fatOpen (P : Partition) (entryFromPath : CStr → StateM Cache (Option DirEntry)) (path : CStr) :
    StateM Cache (Except FatErrno FileStruct) :=
  if ((behindDevice path).strchr 58).isSome then pure (.error .einval)
  else do
    match ← entryFromPath (behindDevice path) with
    | none => pure (.error .enoent)
    | some entry => if entry.isDirectory then pure (.error .eisdir) else pure (.ok (entry.opened P))

/-- `FAT_close` of a file that is not open for writing: the result, and the file. -/
def fatClose (file : FileStruct) : ℤ × FileStruct :=
  if ¬ file.inUse then (-1, file) else (0, { file with inUse := false })

/-! ### The file that is opened -/

section Opened

variable {F : Faults} {P : Partition} {card : ℕ → UInt8} {clusters : List ℕ} {entry : DirEntry}

/-- The entry is one of a file that has the clusters. -/
structure DirEntry.OnCard (P : Partition) (card : ℕ → UInt8) (clusters : List ℕ) (entry : DirEntry) :
    Prop where
  notDirectory : entry.isDirectory = false
  content : (entry.cluster P = clusterFree ∧ entry.fileSize = 0) ∨
    P.Chain card clusters ∧ 0 < clusters.length ∧ clusters.getD 0 0 = entry.cluster P ∧
      entry.fileSize ≤ clusters.length * P.bytesPerCluster

/-- The value of so many bytes is below the power of two for their bits. -/
theorem u8arrayToValue_lt (buf : List UInt8) : u8arrayToValue buf < 2 ^ (8 * buf.length) := by
  induction buf with
  | nil => exact Nat.one_pos
  | cons b buf ih =>
    have hb : b.toNat < 2 ^ 8 := b.toNat_lt
    have hpow : 2 ^ (8 * (buf.length + 1)) = 2 ^ 8 * 2 ^ (8 * buf.length) := by
      rw [Nat.mul_succ, Nat.add_comm, Nat.pow_add]
    have hvalue : u8arrayToValue (b :: buf) = b.toNat + 2 ^ 8 * u8arrayToValue buf := rfl
    rw [List.length_cons, hpow, hvalue]
    omega

/-- The size in an entry of a directory has four bytes, so it is a number of 32 bits. -/
theorem DirEntry.fileSize_lt (entry : DirEntry) : entry.fileSize < 2 ^ 32 := by
  refine Nat.lt_of_lt_of_le (u8arrayToValue_lt _) (Nat.pow_le_pow_right Nat.two_pos ?_)
  rw [List.length_take]
  omega

/-- **A file that was opened** is one that can be read. -/
theorem DirEntry.OnCard.opened_ok (hP : P.Ok) (h : entry.OnCard P card clusters) :
    (entry.opened P).Ok P card clusters := by
  refine ⟨rfl, rfl, h.content.imp_right ?_⟩
  rintro ⟨hchain, hpos, hstart, hsize⟩
  refine ⟨hchain, hstart, hsize, fun _ => ⟨0, ⟨hpos, ?_, ?_, Nat.zero_le _, P.pos, fun _ => rfl⟩, ?_⟩⟩
  · rw [List.getD_eq_getElem?_getD, List.getElem?_eq_getElem hpos, Option.getD_some] at hstart
    exact hstart.symm
  · show 0 = 0 * P.bytesPerCluster + 0 * P.bytesPerSector + 0
    omega
  · intro hzero
    exact absurd hzero (Nat.ne_of_lt hP.cluster)

/-- **Opening** a file whose entry is found, on a path without another device in it: the file struct
has the size and the first cluster of the entry, and the position is at the start. -/
theorem fatOpen_sees {entryFromPath : CStr → StateM Cache (Option DirEntry)} {path : CStr}
    (hdevice : (behindDevice path).strchr 58 = none) (hentry : entry.isDirectory = false)
    (hfound : Sees F P card (entryFromPath (behindDevice path)) (some entry)) :
    Sees F P card (fatOpen P entryFromPath path) (.ok (entry.opened P)) := by
  rw [fatOpen, hdevice, if_neg (by simp)]
  refine Observes.bind hfound ?_
  dsimp only
  rw [hentry]
  exact Observes.pure _

end Opened

end RrLauncher
