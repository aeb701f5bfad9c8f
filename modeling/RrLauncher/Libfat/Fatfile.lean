/-
# Reading files

`FAT_seek` and `FAT_read` of `runtime-ext/vendor/libfat/fatfile.c`, on files that are open for
reading.  A file is a chain of clusters, and its position is kept twice: as the number of bytes
before it, and as the cluster, the sector and the byte in which it lies.  `FAT_read` finishes
the sector, then the cluster, reads whole clusters, as many at a time as lie next to each
other, and then the sectors and the bytes that are left.

Sizes and sector numbers are 32 bits wide, and so is `off_t`.
-/

import RrLauncher.Libfat.FileAllocationTable

namespace RrLauncher

open Cells (patch)

/-- The error codes that the functions leave in `errno`. -/
inductive FatErrno where
  | ebadf
  | einval
  | eoverflow
  | eio
  | enoent
  | eisdir
  deriving DecidableEq

/-- `FILE_POSITION`. -/
structure FilePosition where
  cluster : ℕ
  sector : ℕ
  byte : ℕ
  deriving DecidableEq

/-- What `FAT_seek` and `FAT_read` use of `FILE_STRUCT`. -/
structure FileStruct where
  filesize : ℕ
  startCluster : ℕ
  currentPosition : ℕ
  rwPosition : FilePosition
  read : Bool
  inUse : Bool

/-- A position in the file, for another one. -/
def FileStruct.moveTo (file : FileStruct) (currentPosition : ℕ) (rwPosition : FilePosition) :
    FileStruct :=
  { file with currentPosition := currentPosition, rwPosition := rwPosition }

section Read

variable (F : Faults) (P : Partition)

/-- The variables of `FAT_read`.  `ptr` counts from the start of the buffer. -/
structure ReadState where
  position : FilePosition
  remain : ℕ
  ptr : ℕ
  buffer : ℕ → UInt8
  noError : Bool
  errno : Option FatErrno

/-- `flagNoError = false; errno = EIO`. -/
def ReadState.fail (st : ReadState) : ReadState := { st with noError := false, errno := some .eio }

/-- The position is another one. -/
def ReadState.goTo (st : ReadState) (position : FilePosition) : ReadState :=
  { st with position := position }

/-- `remain -= size; ptr += size`, with what is in the buffer then. -/
def ReadState.advance (st : ReadState) (size : ℕ) (buffer : ℕ → UInt8) : ReadState :=
  { st with remain := st.remain - size, ptr := st.ptr + size, buffer := buffer }

/-- `_FAT_cache_readPartialSector` into the buffer.  Its result is not looked at. -/
def readPart (sector offset size : ℕ) (st : ReadState) : StateM Cache (ℕ → UInt8) := fun c =>
  let r := cacheReadPartialSector F P.toCacheGeometry c sector offset size
  (patch st.buffer st.ptr (r.1.getD []), r.2)

/-- `_FAT_cache_readSectors` into the buffer: whether it succeeds, and the variables then. -/
def readWhole (sector numSectors : ℕ) (st : ReadState) : StateM Cache (Bool × ReadState) := fun c =>
  let r := cacheReadSectors F P.toCacheGeometry c sector numSectors
  let buffer := patch st.buffer st.ptr r.2.1
  if r.1 then ((true, st.advance (numSectors * P.bytesPerSector) buffer), r.2.2)
  else ((false, { st with buffer := buffer }.fail), r.2.2)

/-- The sector of a position. -/
def Partition.sectorOf (P : Partition) (position : FilePosition) : ℕ :=
  (P.clusterToSector position.cluster + position.sector) % 2 ^ 32

/-- Some bytes of a sector were read. -/
def FilePosition.addBytes (position : FilePosition) (P : Partition) (size : ℕ) : FilePosition :=
  if position.byte + size ≥ P.bytesPerSector then ⟨position.cluster, position.sector + 1, 0⟩
  else ⟨position.cluster, position.sector, position.byte + size⟩

/-- The position behind some sectors that were read, in the same cluster. -/
def FilePosition.addSectors (position : FilePosition) (n : ℕ) : FilePosition :=
  ⟨position.cluster, position.sector + n, position.byte⟩

/-- "Align to sector": the rest of the sector that the position is in. -/
def alignSector (st : ReadState) : StateM Cache ReadState := do
  let tempVar := min (P.bytesPerSector - st.position.byte) st.remain
  if tempVar < P.bytesPerSector ∧ st.noError then
    let buffer ← readPart F P (P.sectorOf st.position) st.position.byte tempVar st
    pure ((st.advance tempVar buffer).goTo (st.position.addBytes P tempVar))
  else pure st

/-- "Align to cluster": the sectors up to the end of the cluster, as far as they are asked for. -/
def alignCluster (st : ReadState) : StateM Cache ReadState := do
  let left := P.sectorsPerCluster - st.position.sector
  let tempVar := if st.remain > left * P.bytesPerSector then left else st.remain / P.bytesPerSector
  if tempVar > 0 ∧ st.noError then
    let (ok, st) ← readWhole F P (P.sectorOf st.position) tempVar st
    pure (if ok then st.goTo (st.position.addSectors tempVar) else st)
  else pure st

/-- The position after a cluster was read to its end, when `next` is the one that follows. -/
def ReadState.toNext (st : ReadState) (P : Partition) (cluster next : ℕ) : ReadState :=
  if st.remain = 0 ∧ next = clusterEof then
    st.goTo ⟨cluster, P.sectorsPerCluster, st.position.byte⟩
  else if P.isValidCluster next then st.goTo ⟨next, 0, st.position.byte⟩
  else st.fail

/-- "Move onto next cluster", if the position is at the end of one and more remains. -/
def moveOntoNext (st : ReadState) : StateM Cache ReadState := do
  if st.position.sector ≥ P.sectorsPerCluster ∧ st.noError then
    let next ← nextCluster F P st.position.cluster
    pure (st.toNext P st.position.cluster next)
  else pure st

/-- The clusters that lie next to each other: the last one, the one that follows, and their size. -/
def contiguousChunk (remain : ℕ) : ℕ → ℕ → ℕ → StateM Cache (ℕ × ℕ × ℕ)
  | 0, chunkEnd, chunkSize => pure (chunkEnd, clusterError, chunkSize)
  | fuel + 1, chunkEnd, chunkSize => do
    let next ← nextCluster F P chunkEnd
    let chunkSize := (chunkSize + P.bytesPerCluster) % 2 ^ 32
    if next = (chunkEnd + 1) % 2 ^ 32 ∧ (chunkSize + P.bytesPerCluster) % 2 ^ 32 ≤ remain then
      contiguousChunk remain fuel next chunkSize
    else pure (chunkEnd, next, chunkSize)

/-- "Read in whole clusters, contiguous blocks at a time".  There are fewer than `2 ^ 32` clusters,
and sizes, so the loops run less often than that. -/
def wholeClusters : ℕ → ReadState → StateM Cache ReadState
  | 0, st => pure st
  | fuel + 1, st => do
    if st.remain ≥ P.bytesPerCluster ∧ st.noError then
      let (chunkEnd, next, chunkSize) ←
        contiguousChunk F P st.remain (2 ^ 32) st.position.cluster 0
      let (ok, st) ← readWhole F P (P.clusterToSector st.position.cluster)
        (chunkSize / P.bytesPerSector) st
      if ok then wholeClusters fuel (st.toNext P chunkEnd next) else pure st
    else pure st

/-- "Read remaining sectors", which are fewer than a cluster has. -/
def remainingSectors (st : ReadState) : StateM Cache ReadState := do
  let tempVar := st.remain / P.bytesPerSector
  if tempVar > 0 ∧ st.noError then
    let (ok, st) ← readWhole F P (P.clusterToSector st.position.cluster) tempVar st
    pure (if ok then st.goTo (st.position.addSectors tempVar) else st)
  else pure st

/-- "Last remaining sector", of which only a part is asked for. -/
def lastSector (st : ReadState) : StateM Cache ReadState := do
  if st.remain > 0 ∧ st.noError then
    let buffer ← readPart F P (P.sectorOf st.position) 0 st.remain st
    pure ((st.advance st.remain buffer).goTo
      ⟨st.position.cluster, st.position.sector, st.position.byte + st.remain⟩)
  else pure st

/-- What a call of `FAT_read` leaves. -/
structure ReadResult where
  ret : ℤ
  buffer : ℕ → UInt8
  errno : Option FatErrno
  file : FileStruct

/-- The variables at the start. -/
def FileStruct.startRead (file : FileStruct) (buffer : ℕ → UInt8) (len : ℕ) : ReadState :=
  if (len + file.currentPosition) % 2 ^ 32 > file.filesize then
    ⟨file.rwPosition, file.filesize - file.currentPosition, 0, buffer, true, some .eoverflow⟩
  else ⟨file.rwPosition, len, 0, buffer, true, none⟩

/-- The blocks of `FAT_read` that read. -/
def readBlocks (st : ReadState) : StateM Cache ReadState := do
  let st ← alignSector F P st
  let st ← alignCluster F P st
  let st ← moveOntoNext F P st
  let st ← wholeClusters F P (2 ^ 32) st
  let st ← remainingSectors F P st
  lastSector F P st

/-- `FAT_read`. -/
def fatRead (file : FileStruct) (buffer : ℕ → UInt8) (len : ℕ) : StateM Cache ReadResult := do
  if len = 0 then pure ⟨0, buffer, none, file⟩
  else if ¬ file.inUse ∨ ¬ file.read then pure ⟨-1, buffer, some .ebadf, file⟩
  else if file.currentPosition ≥ file.filesize ∨ file.startCluster = clusterFree then
    pure ⟨0, buffer, some .eoverflow, file⟩
  else
    let start := file.startRead buffer len
    let st ← readBlocks F P start
    let len := start.remain - st.remain
    pure ⟨(len : ℤ).bmod (2 ^ 32), st.buffer, st.errno,
      file.moveTo (file.currentPosition + len) st.position⟩

end Read

section Seek

variable (F : Faults) (P : Partition)

/-- `SEEK_SET`, `SEEK_CUR` and `SEEK_END`, or another value. -/
inductive Whence where
  | set
  | cur
  | end
  | other

/-- The position that is asked for, or the error. -/
def newPosition (currentPosition filesize : ℕ) (pos : ℤ) (dir : Whence) : Except FatErrno ℕ :=
  let new : Option ℤ := match dir with
    | .set => some pos
    | .cur => some (((currentPosition : ℤ).bmod (2 ^ 32) + pos).bmod (2 ^ 32))
    | .end => some (((filesize : ℤ).bmod (2 ^ 32) + pos).bmod (2 ^ 32))
    | .other => none
  match new with
  | none => .error .einval
  | some new =>
    if pos > 0 ∧ new < 0 then .error .eoverflow
    else if new < 0 then .error .einval
    else .ok new.toNat

/-- The loop of `FAT_seek`: the clusters that are still to follow, and the one it has come to. -/
def followChain : ℕ → ℤ → ℕ → ℕ → StateM Cache (ℤ × ℕ)
  | 0, clusCount, cluster, _ => pure (clusCount, cluster)
  | fuel + 1, clusCount, cluster, next => do
    if clusCount > 0 ∧ next ≠ clusterFree ∧ next ≠ clusterEof then
      let after ← nextCluster F P next
      followChain fuel (clusCount - 1) next after
    else pure (clusCount, cluster)

/-- Where `FAT_seek` starts: how many clusters are to follow, and from which one on. -/
def FileStruct.seekStart (file : FileStruct) (P : Partition) (position : ℕ) : ℤ × ℕ :=
  let clusCount : ℤ := (position / P.bytesPerCluster : ℕ)
  if position ≥ file.currentPosition then
    let currentCount : ℤ := (file.currentPosition / P.bytesPerCluster : ℕ)
    let currentCount :=
      if file.rwPosition.sector = P.sectorsPerCluster then currentCount - 1 else currentCount
    (clusCount - currentCount, file.rwPosition.cluster)
  else (clusCount, file.startCluster)

/-- What a call of `FAT_seek` leaves. -/
structure SeekResult where
  ret : ℤ
  errno : Option FatErrno
  file : FileStruct

/-- `FAT_seek`. -/
def fatSeek (file : FileStruct) (pos : ℤ) (dir : Whence) : StateM Cache SeekResult := do
  if ¬ file.inUse then pure ⟨-1, some .ebadf, file⟩
  else
    match newPosition file.currentPosition file.filesize pos dir with
    | .error e => pure ⟨-1, some e, file⟩
    | .ok position =>
      let done (file : FileStruct) : SeekResult := ⟨(position : ℤ).bmod (2 ^ 32), none, file⟩
      if position ≤ file.filesize ∧ file.startCluster ≠ clusterFree then
        let (clusCount, cluster) := file.seekStart P position
        let sector := position % P.bytesPerCluster / P.bytesPerSector
        let byte := position % P.bytesPerSector
        let next ← nextCluster F P cluster
        let (clusCount, last) ← followChain F P clusCount.toNat clusCount cluster next
        if clusCount > 0 then
          if clusCount = 1 ∧ file.filesize = position ∧ sector = 0 then
            -- the position is after the last cluster
            pure (done (file.moveTo position ⟨last, P.sectorsPerCluster, 0⟩))
          else
            pure ⟨-1, some .einval,
              file.moveTo file.currentPosition ⟨file.rwPosition.cluster, sector, byte⟩⟩
        else pure (done (file.moveTo position ⟨last, sector, byte⟩))
      else pure (done (file.moveTo position file.rwPosition))

end Seek

end RrLauncher
