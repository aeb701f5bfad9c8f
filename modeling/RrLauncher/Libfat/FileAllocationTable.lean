/-
# The file allocation table

`_FAT_fat_nextCluster` of `runtime-ext/vendor/libfat/file_allocation_table.c`, for the three
widths of entries.  Entries of twelve bits share bytes, and may lie across two sectors.  What
it answers is the `link` that is seen in the table (`nextCluster_observes`).
-/

import RrLauncher.Lib.Observes
import RrLauncher.Libfat.CacheOps

namespace RrLauncher

open Cells (slice slice_add)

/-- `FS_TYPE`. -/
inductive FsType where
  | unknown
  | fat12
  | fat16
  | fat32

/-- What stays of `PARTITION` and its `FAT` as long as it is mounted.  The sizes of the cache are
those of the partition. -/
structure Partition extends CacheGeometry where
  filesysType : FsType
  fatStart : ℕ
  lastCluster : ℕ
  rootDirStart : ℕ
  dataStart : ℕ
  sectorsPerCluster : ℕ

/-- `partition->bytesPerCluster`. -/
def Partition.bytesPerCluster (P : Partition) : ℕ := P.bytesPerSector * P.sectorsPerCluster

/-- `CLUSTER_EOF`. -/
def clusterEof : ℕ := 0x0FFFFFFF

/-- `CLUSTER_FREE`. -/
def clusterFree : ℕ := 0

/-- `CLUSTER_FIRST`. -/
def clusterFirst : ℕ := 2

/-- `CLUSTER_ERROR`. -/
def clusterError : ℕ := 0xFFFFFFFF

/-- `_FAT_fat_clusterToSector`. -/
def Partition.clusterToSector (P : Partition) (cluster : ℕ) : ℕ :=
  if cluster ≥ clusterFirst then
    ((cluster - clusterFirst) * P.sectorsPerCluster + P.dataStart) % 2 ^ 32
  else P.rootDirStart

/-- `_FAT_fat_isValidCluster`. -/
def Partition.isValidCluster (P : Partition) (cluster : ℕ) : Bool :=
  cluster ≥ clusterFirst && cluster ≤ P.lastCluster

section NextCluster

variable (F : Faults) (P : Partition)

/-- A value of the table, which is 0 before it is read. -/
def readFatValue (sector offset numBytes : ℕ) : StateM Cache ℕ := fun c =>
  let r := cacheReadLittleEndianValue F P.toCacheGeometry c sector offset numBytes
  (r.1.getD 0, r.2)

/-- The byte after the one at `offset`, which may be in the next sector. -/
def readNextFatByte (sector offset : ℕ) : StateM Cache ℕ :=
  if offset + 1 ≥ P.bytesPerSector then readFatValue F P ((sector + 1) % 2 ^ 32) 0 1
  else readFatValue F P sector (offset + 1) 1

/-- The last cluster of a chain has one of the values from `limit` on. -/
def endOfChain (limit value : ℕ) : ℕ := if value ≥ limit then clusterEof else value

/-- `_FAT_fat_nextCluster`. -/
def nextCluster (cluster : ℕ) : StateM Cache ℕ :=
  if cluster = clusterFree then pure clusterFree
  else
    match P.filesysType with
    | .unknown => pure clusterError
    | .fat12 => do
      let byte := cluster * 3 % 2 ^ 32 / 2
      let sector := (P.fatStart + byte / P.bytesPerSector) % 2 ^ 32
      let offset := byte % P.bytesPerSector
      let low ← readFatValue F P sector offset 1
      let high ← readNextFatByte F P sector offset
      let value := low + 2 ^ 8 * high
      pure (endOfChain 0x0FF7 (if cluster % 2 = 1 then value / 2 ^ 4 else value % 2 ^ 12))
    | .fat16 => do
      let sector := (P.fatStart + cluster * 2 % 2 ^ 32 / P.bytesPerSector) % 2 ^ 32
      let offset := cluster % (P.bytesPerSector / 2) * 2
      let value ← readFatValue F P sector offset 2
      pure (endOfChain 0xFFF7 value)
    | .fat32 => do
      let sector := (P.fatStart + cluster * 4 % 2 ^ 32 / P.bytesPerSector) % 2 ^ 32
      let offset := cluster % (P.bytesPerSector / 4) * 4
      let value ← readFatValue F P sector offset 4
      pure (endOfChain 0x0FFFFFF7 value)

end NextCluster

/-! ### What is seen in the table -/

/-- The byte at which the entry of a cluster begins. -/
def Partition.entryByte (P : Partition) (cluster : ℕ) : ℕ :=
  match P.filesysType with
  | .unknown => 0
  | .fat12 => cluster * 3 / 2
  | .fat16 => cluster * 2
  | .fat32 => cluster * 4

/-- The bytes that have to do with an entry. -/
def Partition.entrySize (P : Partition) : ℕ :=
  match P.filesysType with
  | .unknown => 0
  | .fat12 => 2
  | .fat16 => 2
  | .fat32 => 4

/-- The bytes of an entry, as they are seen. -/
def Partition.entryValue (P : Partition) (card : ℕ → UInt8) (cluster : ℕ) : ℕ :=
  u8arrayToValue (slice card (P.fatStart * P.bytesPerSector + P.entryByte cluster) P.entrySize)

/-- The cluster that follows, as it is seen. -/
def Partition.link (P : Partition) (card : ℕ → UInt8) (cluster : ℕ) : ℕ :=
  match P.filesysType with
  | .unknown => clusterError
  | .fat12 =>
    let value := P.entryValue card cluster
    endOfChain 0x0FF7 (if cluster % 2 = 1 then value / 2 ^ 4 else value % 2 ^ 12)
  | .fat16 => endOfChain 0xFFF7 (P.entryValue card cluster)
  | .fat32 => endOfChain 0x0FFFFFF7 (P.entryValue card cluster)

/-- The partition has the clusters and the table that it says. -/
structure Partition.Ok (P : Partition) : Prop where
  sectors : P.bytesPerSector % 4 = 0
  cluster : 0 < P.sectorsPerCluster
  size : P.bytesPerCluster ≤ 2 ^ 31
  last : P.lastCluster < 0x0FFFFFF7
  known : P.filesysType ≠ .unknown
  table : ∀ cluster ≤ P.lastCluster,
    P.fatStart * P.bytesPerSector + P.entryByte cluster + P.entrySize ≤
      P.endOfPartition * P.bytesPerSector
  data : P.dataStart + (P.lastCluster - 1) * P.sectorsPerCluster ≤ P.endOfPartition

/-- The cache can be read: pages can be written back, or do not have to be. -/
structure Cache.Readable (F : Faults) (P : Partition) (c : Cache) : Prop where
  inv : c.Inv P.toCacheGeometry
  ok : (∀ n, F.write n = none) ∨ c.Clean

/-- What a computation answers that reads through the cache. -/
def Sees {α : Type} (F : Faults) (P : Partition) (card : ℕ → UInt8) (m : StateM Cache α) (a : α) : Prop :=
  Observes (Cache.Readable F P) (Cache.view P.toCacheGeometry) card m a

section Reading

variable {F : Faults} {P : Partition} {card : ℕ → UInt8} {c : Cache}

/-- A cache that can be read stays one: an operation that reads keeps the invariant, and clean pages
clean. -/
theorem Cache.Kept.readable {ok : Prop} {c' : Cache} (h : c.Kept F P.toCacheGeometry ok c')
    (hc : c.Readable F P) : c'.Readable F P :=
  ⟨h.inv, hc.ok.imp_right h.clean⟩

/-- An operation on a cache that can be read succeeds. -/
theorem Cache.Readable.succeeds {ok : Prop} {c' : Cache} (hc : c.Readable F P)
    (h : c.Kept F P.toCacheGeometry ok c') : ok :=
  h.ok (hc.ok.imp_left fun hwrites n _ _ => hwrites n)

/-- A value of the table is read as it is seen on the card, and what the cache does for it cannot be
told from outside. -/
theorem readFatValue_observes (hreads : ∀ n, F.read n = none) {sector offset numBytes : ℕ}
    (hsector : sector < P.endOfPartition) (hsize : offset + numBytes ≤ P.bytesPerSector)
    (hbytes : numBytes = 1 ∨ numBytes = 2 ∨ numBytes = 4) :
    Sees F P card (readFatValue F P sector offset numBytes)
      (u8arrayToValue (slice card (sector * P.bytesPerSector + offset) numBytes)) := by
  intro c hc hview
  have hspec := cacheReadLittleEndianValue_spec hreads hc.inv hsector hsize hbytes
  obtain ⟨value, hvalue⟩ := hc.succeeds hspec.2
  refine ⟨?_, hspec.2.readable hc, hspec.2.view.trans hview⟩
  rw [readFatValue, hvalue, hspec.1 value hvalue, hview]
  rfl

/-- The sector of a byte of the table is in the partition, and the addition of its number does not
wrap around. -/
theorem Partition.fatSector (byte : ℕ)
    (h : P.fatStart * P.bytesPerSector + byte < P.endOfPartition * P.bytesPerSector) :
    (P.fatStart + byte / P.bytesPerSector) % 2 ^ 32 = P.fatStart + byte / P.bytesPerSector ∧
      P.fatStart + byte / P.bytesPerSector < P.endOfPartition ∧
      (P.fatStart + byte / P.bytesPerSector) * P.bytesPerSector + byte % P.bytesPerSector =
        P.fatStart * P.bytesPerSector + byte := by
  have hbyte : (P.fatStart + byte / P.bytesPerSector) * P.bytesPerSector + byte % P.bytesPerSector =
      P.fatStart * P.bytesPerSector + byte := by
    rw [Nat.add_mul, Nat.add_assoc, Nat.mul_comm (byte / _), Nat.div_add_mod]
  have hlt : P.fatStart + byte / P.bytesPerSector < P.endOfPartition :=
    Nat.lt_of_mul_lt_mul_right (a := P.bytesPerSector) (by omega)
  have hfits := P.fits
  exact ⟨Nat.mod_eq_of_lt (by omega), hlt, hbyte⟩

/-- The value of one byte is that byte, which is how an entry of FAT12 is read in two steps. -/
theorem u8arrayToValue_slice_one (f : ℕ → UInt8) (a : ℕ) :
    u8arrayToValue (slice f a 1) = (f a).toNat := rfl

/-- The value of two bytes has the second one above the first. -/
theorem u8arrayToValue_slice_two (f : ℕ → UInt8) (a : ℕ) :
    u8arrayToValue (slice f a 2) = (f a).toNat + 2 ^ 8 * (f (a + 1)).toNat := rfl

/-- An entry whose size divides that of a sector does not lie across two of them. -/
theorem entry_fits (cluster : ℕ) {k : ℕ} (hk : P.bytesPerSector % k = 0) :
    cluster % (P.bytesPerSector / k) * k = cluster * k % P.bytesPerSector ∧
      cluster * k % P.bytesPerSector + k ≤ P.bytesPerSector := by
  have hdiv : P.bytesPerSector / k * k = P.bytesPerSector :=
    Nat.div_mul_cancel (Nat.dvd_of_mod_eq_zero hk)
  have hmod : cluster % (P.bytesPerSector / k) * k = cluster * k % P.bytesPerSector := by
    conv_rhs => rw [← hdiv]
    exact (Nat.mul_mod_mul_right k cluster (P.bytesPerSector / k)).symm
  refine ⟨hmod, ?_⟩
  have hlt : cluster % (P.bytesPerSector / k) < P.bytesPerSector / k := by
    refine Nat.mod_lt _ (Nat.pos_of_ne_zero fun hzero => ?_)
    rw [hzero, Nat.zero_mul] at hdiv
    exact absurd hdiv.symm (Nat.ne_of_gt P.pos)
  calc cluster * k % P.bytesPerSector + k = (cluster % (P.bytesPerSector / k) + 1) * k := by
        rw [← hmod, Nat.add_mul, Nat.one_mul]
    _ ≤ P.bytesPerSector / k * k := Nat.mul_le_mul_right k hlt
    _ = P.bytesPerSector := hdiv

/-- **An entry of two or four bytes** is read out of one sector of the table, as it does not go over
the end of one. -/
theorem readEntry_observes (hreads : ∀ n, F.read n = none) {cluster k : ℕ} (hk : k = 2 ∨ k = 4)
    (hsectors : P.bytesPerSector % 4 = 0) (hlast : cluster < 2 ^ 28)
    (htable : P.fatStart * P.bytesPerSector + cluster * k + k ≤
      P.endOfPartition * P.bytesPerSector) :
    Sees F P card
      (readFatValue F P ((P.fatStart + cluster * k % 2 ^ 32 / P.bytesPerSector) % 2 ^ 32)
        (cluster % (P.bytesPerSector / k) * k) k)
      (u8arrayToValue (slice card (P.fatStart * P.bytesPerSector + cluster * k) k)) := by
  have hmod : P.bytesPerSector % k = 0 := by
    rcases hk with rfl | rfl
    · omega
    · exact hsectors
  have hsmall : cluster * k < 2 ^ 32 := by
    rcases hk with rfl | rfl
    · omega
    · omega
  obtain ⟨hoffset, hend⟩ := entry_fits cluster hmod
  obtain ⟨hsector, hlt, hbyte⟩ := Partition.fatSector (P := P) (cluster * k) (by omega)
  rw [Nat.mod_eq_of_lt hsmall, hsector, hoffset, ← hbyte]
  exact readFatValue_observes hreads hlt hend (by omega)

/-- **A byte of the table** is read in its sector. Entries of twelve bits take two of these, which
may be in different sectors. -/
theorem readFatByte_observes (card : ℕ → UInt8) (hreads : ∀ n, F.read n = none) (byte : ℕ)
    (hbyte : P.fatStart * P.bytesPerSector + byte < P.endOfPartition * P.bytesPerSector) :
    Sees F P card
      (readFatValue F P ((P.fatStart + byte / P.bytesPerSector) % 2 ^ 32) (byte % P.bytesPerSector) 1)
      (card (P.fatStart * P.bytesPerSector + byte)).toNat := by
  obtain ⟨hsector, hlt, hplace⟩ := Partition.fatSector byte hbyte
  rw [hsector, ← hplace, ← u8arrayToValue_slice_one]
  exact readFatValue_observes hreads hlt (Nat.mod_lt _ P.pos) (Or.inl rfl)

/-- The byte after it, which is the first of its sector or is in the same one. -/
theorem readNextFatByte_observes (card : ℕ → UInt8) (hreads : ∀ n, F.read n = none) (byte : ℕ)
    (hbyte : P.fatStart * P.bytesPerSector + (byte + 1) < P.endOfPartition * P.bytesPerSector) :
    Sees F P card
      (readNextFatByte F P ((P.fatStart + byte / P.bytesPerSector) % 2 ^ 32) (byte % P.bytesPerSector))
      (card (P.fatStart * P.bytesPerSector + (byte + 1))).toNat := by
  obtain ⟨hsector, -, hplace⟩ := Partition.fatSector (P := P) byte (by omega)
  have hmod := Nat.mod_lt byte P.pos
  rw [hsector, readNextFatByte]
  split
  · rename_i hcross
    have hnext : (P.fatStart + byte / P.bytesPerSector + 1) * P.bytesPerSector =
        P.fatStart * P.bytesPerSector + (byte + 1) := by
      rw [Nat.add_mul, Nat.one_mul]
      omega
    have hlt : P.fatStart + byte / P.bytesPerSector + 1 < P.endOfPartition :=
      Nat.lt_of_mul_lt_mul_right (a := P.bytesPerSector) (by omega)
    have hfits := P.fits
    rw [Nat.mod_eq_of_lt (by omega), ← hnext, ← u8arrayToValue_slice_one]
    exact readFatValue_observes hreads hlt P.pos (Or.inl rfl)
  · have hlt : P.fatStart + byte / P.bytesPerSector < P.endOfPartition :=
      Nat.lt_of_mul_lt_mul_right (a := P.bytesPerSector) (by omega)
    have hnext : P.fatStart * P.bytesPerSector + (byte + 1) =
        (P.fatStart + byte / P.bytesPerSector) * P.bytesPerSector + (byte % P.bytesPerSector + 1) := by
      omega
    rw [hnext, ← u8arrayToValue_slice_one]
    exact readFatValue_observes hreads hlt (by omega) (Or.inl rfl)

/-- **The cluster that follows** is the one that is seen in the table. -/
theorem nextCluster_observes (card : ℕ → UInt8) (hreads : ∀ n, F.read n = none) (hP : P.Ok)
    {cluster : ℕ} (hcluster : P.isValidCluster cluster = true) :
    Sees F P card (nextCluster F P cluster) (P.link card cluster) := by
  rw [Partition.isValidCluster, Bool.and_eq_true, decide_eq_true_iff, decide_eq_true_iff] at hcluster
  have hfirst : clusterFirst = 2 := rfl
  have hfree : clusterFree = 0 := rfl
  have hlast := hP.last
  have htable := hP.table cluster hcluster.2
  have hknown := hP.known
  rw [nextCluster, if_neg (by omega)]
  rw [Partition.entryByte, Partition.entrySize] at htable
  rw [Partition.link]
  simp only [Partition.entryValue, Partition.entryByte, Partition.entrySize]
  cases hsys : P.filesysType with
  | unknown => exact absurd hsys hknown
  | fat12 =>
    simp only [hsys] at htable ⊢
    rw [Nat.mod_eq_of_lt (by omega : cluster * 3 < 2 ^ 32), u8arrayToValue_slice_two, Nat.add_assoc]
    have hlow := readFatByte_observes (P := P) card hreads (cluster * 3 / 2) (by omega)
    have hhigh := readNextFatByte_observes (P := P) card hreads (cluster * 3 / 2)
      (by omega)
    exact hlow.bind (hhigh.bind (Observes.pure _))
  | fat16 =>
    simp only [hsys] at htable ⊢
    exact (readEntry_observes hreads (Or.inl rfl) hP.sectors (by omega) htable).bind (Observes.pure _)
  | fat32 =>
    simp only [hsys] at htable ⊢
    exact (readEntry_observes hreads (Or.inr rfl) hP.sectors (by omega) htable).bind (Observes.pure _)

end Reading

end RrLauncher
