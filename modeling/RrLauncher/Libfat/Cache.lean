/-
# The page cache of `libfat`

`runtime-ext/vendor/libfat/cache.c`, through which the runtime extension reads the SD card.
A page holds up to eight sectors that are aligned to eight; on a miss the page that was used
least recently is written back if it is dirty, and filled from the card.

The card is what its sectors are, and which of the transfers fail: `Faults` says for every
read and every write whether it does and which bytes it leaves behind.  Sector numbers are
32 bits wide.
-/

import Mathlib.Algebra.Group.Nat.Defs
import RrLauncher.Lib.Cells

namespace RrLauncher

open Cells (slice patch)

/-- Which transfers fail, and what is then in the bytes that were to be transferred. -/
structure Faults where
  read : ℕ → Option (ℕ → UInt8)
  write : ℕ → Option (ℕ → UInt8)

/-- The card: its bytes, and how many transfers there were. -/
structure Disc where
  bytes : ℕ → UInt8
  reads : ℕ
  writes : ℕ

/-- `SECTORS_PER_PAGE`. -/
def sectorsPerPage : ℕ := 8

/-- The fields of `CACHE` that never change.  The partition ends before the last sector numbers,
so that the end of a page is a sector number. -/
structure CacheGeometry where
  bytesPerSector : ℕ
  endOfPartition : ℕ
  pos : 0 < bytesPerSector
  fits : endOfPartition + sectorsPerPage ≤ 2 ^ 32

/-- `CACHE_ENTRY`. -/
structure CacheEntry where
  sector : ℕ
  count : ℕ
  lastAccess : ℕ
  dirty : Bool
  cache : ℕ → UInt8

/-- `CACHE`, with the card and the counter of `accessTime`. -/
structure Cache where
  disc : Disc
  cacheEntries : List CacheEntry
  accessCounter : ℕ

/-- `CACHE_FREE`. -/
def cacheFree : ℕ := 2 ^ 32 - 1

/-- An entry of a new cache. -/
def CacheEntry.free (data : ℕ → UInt8) : CacheEntry := ⟨cacheFree, 0, 0, false, data⟩

/-- `entry->dirty = false`. -/
def CacheEntry.clean (e : CacheEntry) : CacheEntry := { e with dirty := false }

/-- The entries of `_FAT_cache_constructor`, whose pages hold whatever was there. -/
def cacheConstructor (disc : Disc) (accessCounter : ℕ) (pages : List (ℕ → UInt8)) : Cache :=
  ⟨disc, pages.map CacheEntry.free, accessCounter⟩

/-- `&cacheEntries[i]`. -/
def Cache.entry (c : Cache) (i : ℕ) : CacheEntry := c.cacheEntries.getD i (.free fun _ => 0)

/-- Writing an entry of the array, in place of the one with that index. -/
def Cache.setEntry (c : Cache) (i : ℕ) (e : CacheEntry) : Cache :=
  { c with cacheEntries := c.cacheEntries.set i e }

/-- The card after a transfer. -/
def Cache.setDisc (c : Cache) (disc : Disc) : Cache := { c with disc := disc }

section Transfers

variable (F : Faults) (G : CacheGeometry)

/-- `_FAT_disc_readSectors`: whether it succeeds, and the buffer. -/
def discReadSectors (disc : Disc) (sector numSectors : ℕ) (buffer : ℕ → UInt8) :
    Bool × (ℕ → UInt8) × Disc :=
  let size := numSectors * G.bytesPerSector
  match F.read disc.reads with
  | none =>
    (true, patch buffer 0 (slice disc.bytes (sector * G.bytesPerSector) size),
      { disc with reads := disc.reads + 1 })
  | some junk => (false, patch buffer 0 (slice junk 0 size), { disc with reads := disc.reads + 1 })

/-- `_FAT_disc_writeSectors`. -/
def discWriteSectors (disc : Disc) (sector numSectors : ℕ) (buffer : ℕ → UInt8) : Bool × Disc :=
  let size := numSectors * G.bytesPerSector
  match F.write disc.writes with
  | none =>
    (true, { disc with
      bytes := patch disc.bytes (sector * G.bytesPerSector) (slice buffer 0 size)
      writes := disc.writes + 1 })
  | some junk =>
    (false, { disc with
      bytes := patch disc.bytes (sector * G.bytesPerSector) (slice junk 0 size)
      writes := disc.writes + 1 })

/-- `accessTime`: the next value of the counter. -/
def Cache.accessTime (c : Cache) : ℕ := (c.accessCounter + 1) % 2 ^ 32

/-- The entry is used, and the time is noted. -/
def Cache.touch (c : Cache) (i : ℕ) (e : CacheEntry) : Cache :=
  { c.setEntry i { e with lastAccess := c.accessTime } with accessCounter := c.accessTime }

/-- The sector is in the page. -/
def CacheEntry.hasSector (e : CacheEntry) (sector : ℕ) : Bool :=
  e.sector ≤ sector && sector < (e.sector + e.count) % 2 ^ 32

/-- The variables of the loop of `_FAT_cache_getPage`. -/
structure PageScan where
  foundFree : Bool
  oldUsed : ℕ
  oldAccess : ℕ

/-- The second half of the body of the loop. -/
def PageScan.next (scan : PageScan) (i : ℕ) (e : CacheEntry) : PageScan :=
  if !scan.foundFree && (e.sector == cacheFree || e.lastAccess < scan.oldAccess) then
    ⟨e.sector == cacheFree, i, e.lastAccess⟩
  else scan

/-- The loop: the entry that has the sector, or the one to replace. -/
def scanPages (sector : ℕ) : ℕ → List CacheEntry → PageScan → ℕ ⊕ PageScan
  | _, [], scan => .inr scan
  | i, e :: es, scan =>
    if e.hasSector sector then .inl i else scanPages sector (i + 1) es (scan.next i e)

/-- The page that is replaced is written back if it is dirty. -/
def evictPage (c : Cache) (foundFree : Bool) (oldUsed : ℕ) : Bool × Cache :=
  let e := c.entry oldUsed
  if !foundFree && e.dirty then
    let written := discWriteSectors F G c.disc e.sector e.count e.cache
    let c := c.setDisc written.2
    (written.1, if written.1 then c.setEntry oldUsed e.clean else c)
  else (true, c)

/-- It is filled with the sectors around the one that is looked for.  The entry is for these
sectors only when they are read. -/
def fillPage (c : Cache) (oldUsed sector : ℕ) : Bool × Cache :=
  let e := c.entry oldUsed
  let base := sector / sectorsPerPage * sectorsPerPage
  let nextPage := min ((base + sectorsPerPage) % 2 ^ 32) G.endOfPartition
  let count := (nextPage + (2 ^ 32 - base)) % 2 ^ 32
  let read := discReadSectors F G c.disc base count e.cache
  let c := c.setDisc read.2.2
  let e := { e with cache := read.2.1 }
  (read.1, if read.1 then c.touch oldUsed { e with sector := base, count := count }
    else c.setEntry oldUsed e)

/-- `_FAT_cache_getPage`: the index of the entry, or `none` for `NULL`. -/
def getPage (c : Cache) (sector : ℕ) : Option ℕ × Cache :=
  match scanPages sector 0 c.cacheEntries ⟨false, 0, 2 ^ 32 - 1⟩ with
  | .inl i => (some i, c.touch i (c.entry i))
  | .inr scan =>
    let evicted := evictPage F G c scan.foundFree scan.oldUsed
    if !evicted.1 then (none, evicted.2)
    else
      let filled := fillPage F G evicted.2 scan.oldUsed sector
      (if filled.1 then some scan.oldUsed else none, filled.2)

/-! ### Reading -/

/-- The loop of `_FAT_cache_readSectors`, with what is in the buffer. -/
def readSectorsLoop : ℕ → Cache → ℕ → ℕ → List UInt8 → Bool × List UInt8 × Cache
  | 0, c, _, _, dest => (false, dest, c)
  | fuel + 1, c, sector, numSectors, dest =>
    if numSectors = 0 then (true, dest, c)
    else
      match getPage F G c sector with
      | (none, c) => (false, dest, c)
      | (some i, c) =>
        let entry := c.entry i
        let sec := sector - entry.sector
        let secsToRead := min (entry.count - sec) numSectors
        let bytes := slice entry.cache (sec * G.bytesPerSector) (secsToRead * G.bytesPerSector)
        readSectorsLoop fuel c (sector + secsToRead) (numSectors - secsToRead) (dest ++ bytes)

/-- `_FAT_cache_readSectors`.  A page that has the sector has one at least, so the loop runs
`numSectors` times at most. -/
def cacheReadSectors (c : Cache) (sector numSectors : ℕ) : Bool × List UInt8 × Cache :=
  readSectorsLoop F G (numSectors + 1) c sector numSectors []

/-- `_FAT_cache_readPartialSector`, with the buffer if it is written. -/
def cacheReadPartialSector (c : Cache) (sector offset size : ℕ) : Option (List UInt8) × Cache :=
  if offset + size > G.bytesPerSector then (none, c)
  else
    match getPage F G c sector with
    | (none, c) => (none, c)
    | (some i, c) =>
      let entry := c.entry i
      let sec := sector - entry.sector
      (some (slice entry.cache (sec * G.bytesPerSector + offset) size), c)

/-- `u8array_to_u16` and `u8array_to_u32`: a value of some bytes, the lowest first. -/
def u8arrayToValue (buf : List UInt8) : ℕ := buf.foldr (fun b value => b.toNat + 2 ^ 8 * value) 0

/-- `_FAT_cache_readLittleEndianValue`, with the value if it is written. -/
def cacheReadLittleEndianValue (c : Cache) (sector offset numBytes : ℕ) : Option ℕ × Cache :=
  match cacheReadPartialSector F G c sector offset numBytes with
  | (none, c) => (none, c)
  | (some buf, c) =>
    if numBytes = 1 ∨ numBytes = 2 ∨ numBytes = 4 then (some (u8arrayToValue buf), c) else (none, c)

/-! ### Writing -/

/-- What is copied from the buffer, or zeros if it is `NULL`. -/
def bufferBytes (buffer : Option (List UInt8)) (size : ℕ) : List UInt8 :=
  match buffer with
  | some bytes => bytes.take size
  | none => List.replicate size 0

/-- The bytes are copied into the page, which is dirty then. -/
def CacheEntry.stored (e : CacheEntry) (offset : ℕ) (bytes : List UInt8) : CacheEntry :=
  { e with cache := patch e.cache offset bytes, dirty := true }

/-- They are copied into the page of an entry. -/
def Cache.store (c : Cache) (i offset : ℕ) (bytes : List UInt8) : Cache :=
  c.setEntry i ((c.entry i).stored offset bytes)

/-- `_FAT_cache_writePartialSector`. -/
def cacheWritePartialSector (c : Cache) (buffer : Option (List UInt8)) (sector offset size : ℕ) :
    Bool × Cache :=
  if offset + size > G.bytesPerSector then (false, c)
  else
    match getPage F G c sector with
    | (none, c) => (false, c)
    | (some i, c) =>
      let sec := sector - (c.entry i).sector
      (true, c.store i (sec * G.bytesPerSector + offset) (bufferBytes buffer size))

/-- The bytes of a value, the least significant first. -/
def littleEndian (numBytes value : ℕ) : List UInt8 :=
  (List.range numBytes).map fun i => UInt8.ofNat (value / 2 ^ (8 * i))

/-- `_FAT_cache_writeLittleEndianValue`. -/
def cacheWriteLittleEndianValue (c : Cache) (value sector offset size : ℕ) : Bool × Cache :=
  if size = 1 ∨ size = 2 ∨ size = 4 then
    cacheWritePartialSector F G c (some (littleEndian size value)) sector offset size
  else (false, c)

/-- `_FAT_cache_eraseWritePartialSector`. -/
def cacheEraseWritePartialSector (c : Cache) (buffer : Option (List UInt8))
    (sector offset size : ℕ) : Bool × Cache :=
  if offset + size > G.bytesPerSector then (false, c)
  else
    match getPage F G c sector with
    | (none, c) => (false, c)
    | (some i, c) =>
      let start := (sector - (c.entry i).sector) * G.bytesPerSector
      let c := c.store i start (List.replicate G.bytesPerSector 0)
      match buffer with
      | some bytes => (true, c.store i (start + offset) (bytes.take size))
      | none => (true, c)

/-- The loop of `_FAT_cache_writeSectors`, which takes the sectors of one page in each turn. -/
def writeSectorsLoop : ℕ → Cache → ℕ → ℕ → Option (List UInt8) → Bool × Cache
  | 0, c, _, _, _ => (false, c)
  | fuel + 1, c, sector, numSectors, src =>
    if numSectors = 0 then (true, c)
    else
      match getPage F G c sector with
      | (none, c) => (false, c)
      | (some i, c) =>
        let entry := c.entry i
        let sec := sector - entry.sector
        let secsToWrite := min (entry.count - sec) numSectors
        let size := secsToWrite * G.bytesPerSector
        let c := c.store i (sec * G.bytesPerSector) (bufferBytes src size)
        writeSectorsLoop fuel c (sector + secsToWrite) (numSectors - secsToWrite)
          (src.map (·.drop size))

/-- `_FAT_cache_writeSectors`. -/
def cacheWriteSectors (c : Cache) (sector numSectors : ℕ) (buffer : Option (List UInt8)) :
    Bool × Cache :=
  writeSectorsLoop F G (numSectors + 1) c sector numSectors buffer

/-! ### Flushing -/

/-- The loop of `_FAT_cache_flush` over the `n` entries from `i` on. -/
def flushLoop : ℕ → ℕ → Cache → Bool × Cache
  | 0, _, c => (true, c)
  | n + 1, i, c =>
    let e := c.entry i
    let written :=
      if e.dirty then discWriteSectors F G c.disc e.sector e.count e.cache else (true, c.disc)
    let c := c.setDisc written.2
    if !written.1 then (false, c) else flushLoop n (i + 1) (c.setEntry i e.clean)

/-- `_FAT_cache_flush`. -/
def cacheFlush (c : Cache) : Bool × Cache := flushLoop F G c.cacheEntries.length 0 c

end Transfers

end RrLauncher
