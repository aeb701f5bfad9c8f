/-
# What `FAT_read` reads

On a file whose clusters form a chain, the blocks of `FAT_read` fill the buffer with the bytes of the
file from the position on, whatever the sizes and however the clusters lie on the card
(`readBlocks_sees`).  `Filled` is what they keep: the buffer has the bytes up to `ptr`, and `remain`
are still to be read.
-/

import RrLauncher.Libfat.FileBytes

namespace RrLauncher

open Cells (slice slice_add patch patch_append)

section Transfers

variable {F : Faults} {P : Partition} {card : ℕ → UInt8} {st : ReadState}

/-- The part of a sector that is read comes into the buffer at its place, as it is seen on the card.
-/
theorem readPart_sees (card : ℕ → UInt8) (st : ReadState) (hreads : ∀ n, F.read n = none)
    {sector : ℕ} (offset size : ℕ)
    (hsector : sector < P.endOfPartition) (hsize : offset + size ≤ P.bytesPerSector) :
    Sees F P card (readPart F P sector offset size st)
      (patch st.buffer st.ptr (slice card (sector * P.bytesPerSector + offset) size)) := by
  intro c hc hview
  have hspec := cacheReadPartialSector_spec hreads hc.inv hsector hsize
  obtain ⟨bytes, hbytes⟩ := hc.succeeds hspec.2
  refine ⟨?_, hspec.2.readable hc, hspec.2.view.trans hview⟩
  rw [readPart, hbytes, hspec.1 bytes hbytes, hview]
  rfl

/-- Sectors that follow each other come into the buffer as they are seen, and the read goes on
behind them. -/
theorem readWhole_sees (card : ℕ → UInt8) (st : ReadState) (hreads : ∀ n, F.read n = none)
    {sector : ℕ} (numSectors : ℕ)
    (hend : sector + numSectors ≤ P.endOfPartition) :
    Sees F P card (readWhole F P sector numSectors st)
      (true, st.advance (numSectors * P.bytesPerSector)
        (patch st.buffer st.ptr
          (slice card (sector * P.bytesPerSector) (numSectors * P.bytesPerSector)))) := by
  intro c hc hview
  have hspec := cacheReadSectors_spec hreads hc.inv hend
  have hok := hc.succeeds hspec.2
  rw [readWhole, if_pos hok, hspec.1 hok, hview]
  exact ⟨rfl, hspec.2.readable hc, hspec.2.view.trans hview⟩

end Transfers

/-- `size` bytes more of the file that is read from `p` on, and the position after them. -/
def ReadState.more (st : ReadState) (file : ℕ → UInt8) (p size : ℕ) (position : FilePosition) :
    ReadState :=
  (st.advance size (patch st.buffer st.ptr (slice file (p + st.ptr) size))).goTo position

/-- The buffer has the bytes of the file from `p` on, up to `ptr`; of `n` bytes `remain` are still to
be read. -/
structure Filled (file : ℕ → UInt8) (buffer : ℕ → UInt8) (e : Option FatErrno) (p n : ℕ)
    (st : ReadState) : Prop where
  total : st.ptr + st.remain = n
  buffer : st.buffer = patch buffer 0 (slice file p st.ptr)
  ok : st.noError = true
  errno : st.errno = e

/-- **More bytes of the file** behind those that the buffer has: the pointer goes on by their
number, and as many fewer remain. -/
theorem Filled.more {file buffer : ℕ → UInt8} {e : Option FatErrno} {p n : ℕ} {st : ReadState}
    (h : Filled file buffer e p n st) {size : ℕ} (hsize : size ≤ st.remain)
    (position : FilePosition) : Filled file buffer e p n (st.more file p size position) where
  total := by
    have htotal := h.total
    show st.ptr + size + (st.remain - size) = n
    omega
  buffer := by
    show patch st.buffer st.ptr _ = patch buffer 0 (slice _ p (st.ptr + size))
    rw [slice_add, patch_append, Cells.length_slice, Nat.zero_add, ← h.buffer]
  ok := h.ok
  errno := h.errno

/-! ### Positions -/

section Positions

variable {P : Partition} {card : ℕ → UInt8} {clusters : List ℕ} {position : FilePosition} {i q : ℕ}

/-- The sector of a position in the file lies in its cluster, and in the partition. The sum does not
wrap around. -/
theorem Partition.At.sectorOf (hP : P.Ok) (hchain : P.Chain card clusters)
    (h : P.At clusters position i q) :
    P.sectorOf position = P.clusterToSector position.cluster + position.sector ∧
      P.clusterToSector position.cluster + P.sectorsPerCluster ≤ P.endOfPartition := by
  have hlt := h.lt
  have hcluster := hP.clusterToSector (hchain.valid _ (List.getElem_mem hlt))
  have hsector := h.sector
  have hfits := P.fits
  have hpage : sectorsPerPage = 8 := rfl
  rw [Partition.sectorOf, h.cluster, Nat.mod_eq_of_lt (by omega)]
  exact ⟨rfl, hcluster.2⟩

/-- The bytes from the position on, as far as they lie in its cluster, are in a row on the card. -/
theorem Partition.At.slice_eq (card : ℕ → UInt8) (hP : P.Ok) (h : P.At clusters position i q) (size : ℕ)
    (hsize : position.sector * P.bytesPerSector + position.byte + size ≤ P.bytesPerCluster) :
    slice card ((P.clusterToSector position.cluster + position.sector) * P.bytesPerSector +
        position.byte) size =
      slice (P.fileByte card clusters) q size := by
  have hlt := h.lt
  have hbytes := slice_cluster card hP hlt hsize
  rw [← Nat.add_assoc, ← h.place] at hbytes
  rw [hbytes, h.cluster, Nat.add_mul, Nat.add_assoc]

/-- Sectors that begin and end before the end of a cluster do so as bytes, too. -/
theorem sectors_le {P : Partition} (sector : ℕ) {n : ℕ} (h : sector + n ≤ P.sectorsPerCluster) :
    sector * P.bytesPerSector + n * P.bytesPerSector ≤ P.bytesPerCluster := by
  rw [← Nat.add_mul, Partition.bytesPerCluster, Nat.mul_comm P.bytesPerSector]
  exact Nat.mul_le_mul_right _ h

/-- Going on by some bytes in a sector goes on by as many in the file, if they end in this sector or
at its end. -/
theorem Partition.At.addBytes (h : P.At clusters position i q) (hlt : position.sector < P.sectorsPerCluster)
    {size : ℕ} (hsize : position.byte + size ≤ P.bytesPerSector) :
    P.At clusters (position.addBytes P size) i (q + size) := by
  have hplace := h.place
  rw [FilePosition.addBytes]
  split
  · refine ⟨h.lt, h.cluster, ?_, hlt, P.pos, fun _ => rfl⟩
    show q + size = i * P.bytesPerCluster + (position.sector + 1) * P.bytesPerSector + 0
    rw [Nat.succ_mul]
    omega
  · refine ⟨h.lt, h.cluster, ?_, h.sector, Nat.lt_of_not_le ‹_›, fun hlast => ?_⟩
    · show q + size = i * P.bytesPerCluster + position.sector * P.bytesPerSector + (position.byte + size)
      omega
    · exact absurd hlast (Nat.ne_of_lt hlt)

/-- Going on by whole sectors of a cluster goes on by their bytes in the file, where the position is
at the beginning of a sector. -/
theorem Partition.At.addSectors (h : P.At clusters position i q) {k : ℕ}
    (hk : position.sector + k ≤ P.sectorsPerCluster) (hbyte : position.byte = 0) :
    P.At clusters (position.addSectors k) i (q + k * P.bytesPerSector) := by
  have hplace := h.place
  refine ⟨h.lt, h.cluster, ?_, hk, h.byte, fun _ => hbyte⟩
  show q + k * P.bytesPerSector =
    i * P.bytesPerCluster + (position.sector + k) * P.bytesPerSector + position.byte
  rw [Nat.add_mul]
  omega

end Positions

/-! ### The blocks -/

section Blocks

variable {F : Faults} {P : Partition} {card : ℕ → UInt8} {clusters : List ℕ} {buffer : ℕ → UInt8}
  {e : Option FatErrno} {p n i : ℕ} {st : ReadState}

/-- **The rest of the sector** is read first, if the position is inside of one: behind it the
position is at the begin of a sector, or nothing remains. -/
theorem alignSector_sees (hreads : ∀ n, F.read n = none) (hP : P.Ok) (hchain : P.Chain card clusters)
    (h : Filled (P.fileByte card clusters) buffer e p n st)
    (hat : P.At clusters st.position i (p + st.ptr))
    (hlt : st.position.sector < P.sectorsPerCluster) :
    ∃ st', Sees F P card (alignSector F P st) st' ∧
      Filled (P.fileByte card clusters) buffer e p n st' ∧
      P.At clusters st'.position i (p + st'.ptr) ∧ (st'.remain = 0 ∨ st'.position.byte = 0) := by
  have hbyte := hat.byte
  rw [alignSector]
  generalize hsize : min (P.bytesPerSector - st.position.byte) st.remain = size
  by_cases hpart : size < P.bytesPerSector
  · have hwhole := sectors_le (P := P) st.position.sector (n := 1) hlt
    rw [Nat.one_mul] at hwhole
    obtain ⟨hsectorOf, hend⟩ := hat.sectorOf hP hchain
    have hread := readPart_sees card st hreads _ _
      (show P.sectorOf st.position < P.endOfPartition by omega)
      (show st.position.byte + size ≤ _ by omega)
    have hslice := hat.slice_eq card hP _
      (show st.position.sector * P.bytesPerSector + st.position.byte + size ≤ _ by omega)
    have hafter := hat.addBytes hlt (show st.position.byte + size ≤ _ by omega)
    rw [Nat.add_assoc] at hafter
    rw [if_pos ⟨hpart, h.ok⟩]
    refine ⟨st.more (P.fileByte card clusters) p size (st.position.addBytes P size), ?_,
      h.more (by omega) _, hafter, ?_⟩
    · rw [ReadState.more, ← hslice, ← hsectorOf]
      exact hread.bind (Observes.pure _)
    · show st.remain - size = 0 ∨ (st.position.addBytes P size).byte = 0
      rw [FilePosition.addBytes]
      split
      · exact Or.inr rfl
      · exact Or.inl (by omega)
  · rw [if_neg fun hc => hpart hc.1]
    exact ⟨st, Observes.pure _, h, hat, Or.inr (by omega)⟩

/-- Whole sectors in the cluster are read at once, from the position on to the sector behind them.
-/
theorem readWhole_at (hreads : ∀ n, F.read n = none) (hP : P.Ok) (hchain : P.Chain card clusters)
    (h : Filled (P.fileByte card clusters) buffer e p n st)
    (hat : P.At clusters st.position i (p + st.ptr)) (hbyte : st.position.byte = 0) {k : ℕ}
    (hk : st.position.sector + k ≤ P.sectorsPerCluster) (hremain : k * P.bytesPerSector ≤ st.remain) :
    ∃ st', Sees F P card (readWhole F P (P.sectorOf st.position) k st) (true, st') ∧
      Filled (P.fileByte card clusters) buffer e p n (st'.goTo (st'.position.addSectors k)) ∧
      P.At clusters (st'.position.addSectors k) i (p + st'.ptr) ∧
      st'.position = st.position ∧ st'.remain = st.remain - k * P.bytesPerSector := by
  obtain ⟨hsectorOf, hend⟩ := hat.sectorOf hP hchain
  have hread := readWhole_sees card st hreads k
    (show P.sectorOf st.position + k ≤ P.endOfPartition by omega)
  have hslice := hat.slice_eq card hP (k * P.bytesPerSector)
    (by rw [hbyte]; exact sectors_le _ hk)
  rw [hbyte, Nat.add_zero, ← hsectorOf] at hslice
  rw [hslice] at hread
  have hafter := hat.addSectors hk hbyte
  rw [Nat.add_assoc] at hafter
  exact ⟨_, hread, h.more hremain _, hafter, rfl, rfl⟩

/-- **The rest of the cluster** is read next, as far as whole sectors of it are asked for: behind it
the position is at the end of a cluster, or less than a sector remains. -/
theorem alignCluster_sees (hreads : ∀ n, F.read n = none) (hP : P.Ok) (hchain : P.Chain card clusters)
    (h : Filled (P.fileByte card clusters) buffer e p n st)
    (hat : P.At clusters st.position i (p + st.ptr)) (hbyte : st.remain = 0 ∨ st.position.byte = 0) :
    ∃ st', Sees F P card (alignCluster F P st) st' ∧
      Filled (P.fileByte card clusters) buffer e p n st' ∧
      P.At clusters st'.position i (p + st'.ptr) ∧ (st'.remain = 0 ∨ st'.position.byte = 0) ∧
      (st'.position.sector = P.sectorsPerCluster ∨ st'.remain < P.bytesPerSector) := by
  have hsector := hat.sector
  have hdiv := Nat.div_mul_le_self st.remain P.bytesPerSector
  have hmod := Nat.lt_div_mul_add (a := st.remain) P.pos
  rw [alignCluster]
  generalize hk : (if st.remain > (P.sectorsPerCluster - st.position.sector) * P.bytesPerSector then
    P.sectorsPerCluster - st.position.sector else st.remain / P.bytesPerSector) = k
  have hk' : st.position.sector + k ≤ P.sectorsPerCluster ∧ k * P.bytesPerSector ≤ st.remain ∧
      (st.position.sector + k = P.sectorsPerCluster ∨
        st.remain < k * P.bytesPerSector + P.bytesPerSector) := by
    split at hk
    · subst hk
      exact ⟨by omega, by omega, Or.inl (by omega)⟩
    · rename_i hle
      subst hk
      have hle' : st.remain / P.bytesPerSector ≤ P.sectorsPerCluster - st.position.sector :=
        (Nat.div_le_iff_le_mul_add_pred P.pos).mpr (by rw [Nat.mul_comm]; omega)
      exact ⟨by omega, hdiv, Or.inr hmod⟩
  obtain ⟨hin, hsize, hend⟩ := hk'
  by_cases hpos : k > 0
  · have hremain : st.remain ≠ 0 := fun hzero => by
      rw [hzero] at hsize
      exact absurd (Nat.mul_pos hpos P.pos) (by omega)
    have hzero := hbyte.resolve_left hremain
    obtain ⟨st', hread, hfilled, hafter, hsame, hleft⟩ :=
      readWhole_at hreads hP hchain h hat hzero hin hsize
    rw [if_pos ⟨hpos, h.ok⟩]
    refine ⟨_, hread.bind (Observes.pure _), hfilled, hafter, Or.inr (hsame ▸ hzero), ?_⟩
    show st'.position.sector + k = _ ∨ st'.remain < _
    rw [hsame, hleft]
    omega
  · rw [if_neg fun hc => hpos hc.1]
    have hzero : k = 0 := Nat.eq_zero_of_not_pos hpos
    rw [hzero, Nat.zero_mul] at hend
    exact ⟨st, Observes.pure _, h, hat, hbyte, by omega⟩

/-! ### From cluster to cluster -/

/-- What is between the blocks: the position is not at the end of a cluster that has another one after
it, and what is read next starts a sector, or a cluster. -/
structure Between (P : Partition) (card : ℕ → UInt8) (clusters : List ℕ) (buffer : ℕ → UInt8)
    (e : Option FatErrno) (p n : ℕ) (st : ReadState) : Prop where
  filled : Filled (P.fileByte card clusters) buffer e p n st
  settled : ∃ i, P.Settled clusters st.position i (p + st.ptr)
  byte : st.remain = 0 ∨ st.position.byte = 0
  sector : st.remain < P.bytesPerSector ∨ st.position.sector = 0

/-- A cluster of a chain is one of the partition, so its number is below the mark for the end of a
chain, and so is the number behind it. -/
theorem Partition.Chain.valid_lt (hP : P.Ok) (hchain : P.Chain card clusters) (hi : i < clusters.length) :
    2 ≤ clusters[i] ∧ clusters[i] + 1 < clusterEof := by
  have hv := hchain.valid _ (List.getElem_mem hi)
  rw [Partition.isValidCluster, Bool.and_eq_true, decide_eq_true_iff, decide_eq_true_iff] at hv
  have hlast := hP.last
  have heof : clusterEof = 0x0FFFFFFF := rfl
  exact ⟨hv.1, by omega⟩

/-- The cluster after one, if it is not the last. -/
theorem getD_next (hi : i + 1 < clusters.length) :
    clusters.getD (i + 1) clusterEof = clusters[i + 1] := by
  rw [List.getD_eq_getElem?_getD, List.getElem?_eq_getElem hi, Option.getD_some]

/-- **A cluster was read to its end**: the buffer is as it has to be for the next one, whose first
byte follows in the file. -/
theorem Filled.toNext (hP : P.Ok) (hchain : P.Chain card clusters)
    (hn : p + n ≤ clusters.length * P.bytesPerCluster)
    (h : Filled (P.fileByte card clusters) buffer e p n st) (hi : i < clusters.length)
    (hend : p + st.ptr = (i + 1) * P.bytesPerCluster) (hbyte : st.position.byte = 0) :
    Between P card clusters buffer e p n
      (st.toNext P clusters[i] (clusters.getD (i + 1) clusterEof)) := by
  have htotal := h.total
  have hpos := hP.bytesPerCluster_pos
  have hsector := P.pos
  rw [ReadState.toNext]
  by_cases hnext : i + 1 < clusters.length
  · -- there is another cluster
    obtain ⟨-, heof⟩ := Partition.Chain.valid_lt hP hchain hnext
    rw [getD_next hnext, if_neg fun hc => absurd hc.2 (by omega),
      if_pos (hchain.valid _ (List.getElem_mem hnext))]
    refine ⟨⟨h.total, h.buffer, h.ok, h.errno⟩, ⟨i + 1, ⟨⟨hnext, rfl, ?_, Nat.zero_le _, ?_, fun _ => hbyte⟩,
      fun hlast => ?_⟩⟩, Or.inr hbyte, Or.inr rfl⟩
    · show p + st.ptr = (i + 1) * P.bytesPerCluster + 0 * P.bytesPerSector + st.position.byte
      rw [hend, hbyte, Nat.zero_mul]
      rfl
    · show st.position.byte < P.bytesPerSector
      rw [hbyte]
      exact P.pos
    · exact absurd hlast (Nat.ne_of_lt hP.cluster)
  · -- the file ends here
    have hlen : i + 1 = clusters.length := by omega
    rw [← hlen] at hn
    have hzero : st.remain = 0 := by omega
    have heof : clusters.getD (i + 1) clusterEof = clusterEof := by
      rw [List.getD_eq_getElem?_getD, List.getElem?_eq_none (by omega), Option.getD_none]
    rw [if_pos ⟨hzero, heof⟩]
    refine ⟨⟨h.total, h.buffer, h.ok, h.errno⟩, ⟨i, ⟨⟨hi, rfl, ?_, Nat.le_refl _, ?_, fun _ => hbyte⟩,
      fun _ => hlen⟩⟩, Or.inr hbyte, Or.inl (by show st.remain < _; omega)⟩
    · show p + st.ptr = i * P.bytesPerCluster + P.sectorsPerCluster * P.bytesPerSector + st.position.byte
      rw [hend, hbyte, Nat.succ_mul, Nat.mul_comm P.sectorsPerCluster]
      rfl
    · show st.position.byte < P.bytesPerSector
      rw [hbyte]
      exact P.pos

/-- **On to the next cluster** of the chain, where the position is at the end of one and more
remains. The chain is long enough, as the file has its size in clusters. -/
theorem moveOntoNext_sees (hreads : ∀ n, F.read n = none) (hP : P.Ok) (hchain : P.Chain card clusters)
    (hn : p + n ≤ clusters.length * P.bytesPerCluster)
    (h : Filled (P.fileByte card clusters) buffer e p n st)
    (hat : P.At clusters st.position i (p + st.ptr)) (hbyte : st.remain = 0 ∨ st.position.byte = 0)
    (hsector : st.position.sector = P.sectorsPerCluster ∨ st.remain < P.bytesPerSector) :
    ∃ st', Sees F P card (moveOntoNext F P st) st' ∧ Between P card clusters buffer e p n st' := by
  have hle := hat.sector
  rw [moveOntoNext]
  by_cases hend : st.position.sector ≥ P.sectorsPerCluster
  · have hlast : st.position.sector = P.sectorsPerCluster := by omega
    have hzero := hat.last hlast
    have hi := hat.lt
    have hplace := hat.place
    have hq : p + st.ptr = (i + 1) * P.bytesPerCluster := by
      rw [hplace, hlast, hzero, Nat.succ_mul, Nat.mul_comm P.sectorsPerCluster]
      rfl
    have hnext := nextCluster_observes card hreads hP (hchain.valid _ (List.getElem_mem hi))
    rw [hchain.next i hi] at hnext
    rw [if_pos ⟨hend, h.ok⟩, hat.cluster]
    exact ⟨_, hnext.bind (Observes.pure _), h.toNext hP hchain hn hi hq hzero⟩
  · rw [if_neg fun hc => hend hc.1]
    exact ⟨st, Observes.pure _, h, ⟨i, hat, fun hlast => absurd hlast (by omega)⟩, hbyte,
      Or.inl (by omega)⟩

/-! ### Whole clusters -/

/-- **The clusters that lie next to each other** are counted along the chain, as long as each is the
number behind the one before and a whole cluster of it is asked for. -/
theorem contiguousChunk_sees (hreads : ∀ n, F.read n = none) (hP : P.Ok)
    (hchain : P.Chain card clusters) (remain fuel : ℕ) {k : ℕ} (hi : i < clusters.length)
    (hk : i + k < clusters.length) (hfollow : ∀ j (_ : j ≤ k), clusters.getD (i + j) 0 = clusters[i] + j)
    (hsize : (k + 1) * P.bytesPerCluster ≤ remain) (hsmall : remain + P.bytesPerCluster < 2 ^ 32)
    (hfuel : remain < fuel + k) :
    ∃ k', ∃ hk' : i + k' < clusters.length,
      Sees F P card (contiguousChunk F P remain fuel clusters[i + k] (k * P.bytesPerCluster))
        (clusters[i + k'], clusters.getD (i + k' + 1) clusterEof, (k' + 1) * P.bytesPerCluster) ∧
      (∀ j (_ : j ≤ k'), clusters.getD (i + j) 0 = clusters[i] + j) ∧
      (k' + 1) * P.bytesPerCluster ≤ remain := by
  have hpos := hP.bytesPerCluster_pos
  induction fuel generalizing k with
  | zero =>
    have hle : k + 1 ≤ (k + 1) * P.bytesPerCluster := Nat.le_mul_of_pos_right _ hpos
    omega
  | succ fuel ih =>
    obtain ⟨-, hlast⟩ := Partition.Chain.valid_lt hP hchain hk
    have hnext := nextCluster_observes card hreads hP (hchain.valid _ (List.getElem_mem hk))
    rw [hchain.next _ hk] at hnext
    have hchunk : (k * P.bytesPerCluster + P.bytesPerCluster) % 2 ^ 32 = (k + 1) * P.bytesPerCluster := by
      rw [← Nat.add_one_mul, Nat.mod_eq_of_lt (by omega)]
    have hmore : ((k + 1) * P.bytesPerCluster + P.bytesPerCluster) % 2 ^ 32 =
        (k + 1 + 1) * P.bytesPerCluster := by
      rw [← Nat.add_one_mul, Nat.mod_eq_of_lt (by rw [Nat.add_one_mul]; omega)]
    have heof : clusterEof = 0x0FFFFFFF := rfl
    rw [contiguousChunk]
    by_cases hgo : clusters.getD (i + k + 1) clusterEof = (clusters[i + k] + 1) % 2 ^ 32 ∧
        (k + 1 + 1) * P.bytesPerCluster ≤ remain
    · -- one more
      rw [Nat.mod_eq_of_lt (by omega)] at hgo
      have hlt : i + (k + 1) < clusters.length := by
        by_contra hge
        rw [List.getD_eq_getElem?_getD, List.getElem?_eq_none (by omega), Option.getD_none] at hgo
        omega
      have hcluster : clusters.getD (i + k + 1) clusterEof = clusters[i + (k + 1)] := getD_next hlt
      have hfollow' : ∀ j (_ : j ≤ k + 1), clusters.getD (i + j) 0 = clusters[i] + j := by
        intro j hj
        by_cases hjk : j ≤ k
        · exact hfollow j hjk
        · have hj' : j = k + 1 := by omega
          have hthis := hfollow k (Nat.le_refl k)
          rw [List.getD_eq_getElem?_getD, List.getElem?_eq_getElem hk, Option.getD_some] at hthis
          rw [hj', List.getD_eq_getElem?_getD, List.getElem?_eq_getElem hlt, Option.getD_some,
            ← hcluster, hgo.1, hthis, Nat.add_assoc]
      obtain ⟨k', hk', hsees, hrest⟩ := ih hlt hfollow' hgo.2 (by omega)
      refine ⟨k', hk', hnext.bind ?_, hrest⟩
      dsimp only
      rw [hchunk, hmore, if_pos ⟨by rw [hgo.1, Nat.mod_eq_of_lt (by omega)], hgo.2⟩, hcluster]
      exact hsees
    · refine ⟨k, hk, hnext.bind ?_, hfollow, hsize⟩
      dsimp only
      rw [hchunk, hmore, if_neg hgo]
      exact Observes.pure _

/-- Going to the next cluster does not change how many bytes are still to be read. -/
theorem ReadState.toNext_remain (st : ReadState) (P : Partition) (cluster next : ℕ) :
    (st.toNext P cluster next).remain = st.remain := by
  rw [ReadState.toNext]
  split
  · rfl
  · split
    · rfl
    · rfl

/-- Clusters that lie in a row on the card are read at once, with one transfer for all of them. -/
theorem readChunk_sees (hreads : ∀ n, F.read n = none) (hP : P.Ok) (hchain : P.Chain card clusters)
    (h : Filled (P.fileByte card clusters) buffer e p n st) (hi : i < clusters.length) {k : ℕ}
    (hk : i + k < clusters.length) (hfollow : ∀ j (_ : j ≤ k), clusters.getD (i + j) 0 = clusters[i] + j)
    (hsize : (k + 1) * P.bytesPerCluster ≤ st.remain) (hq : p + st.ptr = i * P.bytesPerCluster) :
    Sees F P card
        (readWhole F P (P.clusterToSector clusters[i])
          ((k + 1) * P.bytesPerCluster / P.bytesPerSector) st)
        (true, st.more (P.fileByte card clusters) p ((k + 1) * P.bytesPerCluster) st.position) ∧
      Filled (P.fileByte card clusters) buffer e p n
        (st.more (P.fileByte card clusters) p ((k + 1) * P.bytesPerCluster) st.position) := by
  have hsectors : (k + 1) * P.bytesPerCluster = (k + 1) * P.sectorsPerCluster * P.bytesPerSector := by
    rw [Partition.bytesPerCluster, Nat.mul_comm P.bytesPerSector, Nat.mul_assoc]
  have hlast : clusters[i + k] = clusters[i] + k := by
    rw [← hfollow k (Nat.le_refl k), List.getD_eq_getElem?_getD, List.getElem?_eq_getElem hk,
      Option.getD_some]
  have hvalid := hchain.valid _ (List.getElem_mem hk)
  have hend := (hP.clusterToSector hvalid).2
  rw [hlast, hP.clusterToSector_add (hchain.valid _ (List.getElem_mem hi)) (hlast ▸ hvalid)] at hend
  have hread := readWhole_sees card st hreads ((k + 1) * P.sectorsPerCluster)
    (show P.clusterToSector clusters[i] + (k + 1) * P.sectorsPerCluster ≤ P.endOfPartition by
      rw [Nat.succ_mul]
      omega)
  have hslice := slice_clusters card hP hchain.valid (k := k + 1) hi (by omega)
    fun j hj => hfollow j (by omega)
  rw [← hsectors, ← hslice, ← hq] at hread
  refine ⟨?_, h.more hsize _⟩
  rw [hsectors, Nat.mul_div_cancel _ P.pos, ← hsectors]
  exact hread

/-- **Whole clusters**, as many at a time as lie next to each other. -/
theorem wholeClusters_sees (hreads : ∀ n, F.read n = none) (hP : P.Ok) (hchain : P.Chain card clusters)
    (hn : p + n ≤ clusters.length * P.bytesPerCluster) (hsmall : n + P.bytesPerCluster < 2 ^ 32)
    (fuel : ℕ) (hfuel : st.remain < fuel) (h : Between P card clusters buffer e p n st) :
    ∃ st', Sees F P card (wholeClusters F P fuel st) st' ∧ Between P card clusters buffer e p n st' ∧
      st'.remain < P.bytesPerCluster := by
  induction fuel generalizing st with
  | zero => exact absurd hfuel (Nat.not_lt_zero _)
  | succ fuel ih =>
    have hpos := hP.bytesPerCluster_pos
    rw [wholeClusters]
    by_cases hmore : st.remain ≥ P.bytesPerCluster
    · have htotal := h.filled.total
      have hbps : P.bytesPerSector ≤ P.bytesPerCluster := Nat.le_mul_of_pos_right _ hP.cluster
      have hbyte : st.position.byte = 0 := h.byte.resolve_left (by omega)
      have hsector : st.position.sector = 0 := h.sector.resolve_left (by omega)
      obtain ⟨i, hsettled⟩ := h.settled
      have hi := hsettled.lt
      have hq : p + st.ptr = i * P.bytesPerCluster := by
        rw [hsettled.place, hsector, hbyte, Nat.zero_mul]
        rfl
      obtain ⟨k, hk, hchunk, hfollow, hsize⟩ := contiguousChunk_sees (k := 0)
        hreads hP hchain st.remain (2 ^ 32) hi hi
        (fun j hj => by
          rw [Nat.le_zero.mp hj, Nat.add_zero, Nat.add_zero, List.getD_eq_getElem?_getD,
            List.getElem?_eq_getElem hi, Option.getD_some])
        (by omega) (by omega) (by omega)
      simp only [Nat.add_zero, Nat.zero_mul] at hchunk
      rw [← hsettled.cluster] at hchunk
      obtain ⟨hread, hfilled⟩ := readChunk_sees hreads hP hchain h.filled hi hk hfollow hsize hq
      rw [← hsettled.cluster] at hread
      have hnext := hfilled.toNext hP hchain hn hk
        (by
          show p + (st.ptr + (k + 1) * P.bytesPerCluster) = _
          rw [← Nat.add_assoc, hq, ← Nat.add_mul, Nat.add_assoc])
        hbyte
      obtain ⟨st', hsees, hbetween, hlt⟩ := ih (by
        rw [ReadState.toNext_remain]
        show st.remain - (k + 1) * P.bytesPerCluster < fuel
        have hle : P.bytesPerCluster ≤ (k + 1) * P.bytesPerCluster := Nat.le_mul_of_pos_left _ (by omega)
        omega) hnext
      refine ⟨st', ?_, hbetween, hlt⟩
      rw [if_pos ⟨hmore, h.filled.ok⟩]
      exact hchunk.bind (hread.bind hsees)
    · rw [if_neg fun hc => hmore hc.1]
      exact ⟨st, Observes.pure _, h, Nat.lt_of_not_le hmore⟩

/-! ### The end of the read -/

/-- **The sectors that are left** in the last cluster that is read are read whole. Less than a
sector remains behind them. -/
theorem remainingSectors_sees (hreads : ∀ n, F.read n = none) (hP : P.Ok)
    (hchain : P.Chain card clusters) (h : Between P card clusters buffer e p n st)
    (hlt : st.remain < P.bytesPerCluster) :
    ∃ st', Sees F P card (remainingSectors F P st) st' ∧
      Filled (P.fileByte card clusters) buffer e p n st' ∧ st'.remain < P.bytesPerSector ∧
      (∃ i, P.Settled clusters st'.position i (p + st'.ptr)) ∧
      (st'.remain = 0 ∨ st'.position.byte = 0) := by
  have hdiv := Nat.div_mul_le_self st.remain P.bytesPerSector
  have hmod := Nat.lt_div_mul_add (a := st.remain) P.pos
  have hpos := P.pos
  rw [remainingSectors]
  generalize st.remain / P.bytesPerSector = k at hdiv hmod ⊢
  by_cases hk : k > 0
  · have hle : P.bytesPerSector ≤ k * P.bytesPerSector := Nat.le_mul_of_pos_left _ hk
    have hbyte : st.position.byte = 0 := h.byte.resolve_left (by omega)
    have hsector : st.position.sector = 0 := h.sector.resolve_left (by omega)
    obtain ⟨i, hsettled⟩ := h.settled
    have hfew : k < P.sectorsPerCluster := by
      refine Nat.lt_of_mul_lt_mul_right (a := P.bytesPerSector) (Nat.lt_of_le_of_lt hdiv ?_)
      rwa [Nat.mul_comm]
    obtain ⟨st', hread, hfilled, hafter, hsame, hleft⟩ := readWhole_at hreads hP hchain h.filled
      hsettled.toAt hbyte (show st.position.sector + k ≤ P.sectorsPerCluster by omega) hdiv
    have hsectorOf : P.sectorOf st.position = P.clusterToSector st.position.cluster := by
      rw [(hsettled.sectorOf hP hchain).1, hsector, Nat.add_zero]
    rw [hsectorOf] at hread
    rw [if_pos ⟨hk, h.filled.ok⟩]
    refine ⟨_, hread.bind (Observes.pure _), hfilled, ?_, ⟨i, hafter, fun hlast => ?_⟩,
      Or.inr (hsame ▸ hbyte)⟩
    · show st'.remain < P.bytesPerSector
      omega
    · have hlast' : st'.position.sector + k = P.sectorsPerCluster := hlast
      rw [hsame] at hlast'
      omega
  · have hzero : k = 0 := Nat.eq_zero_of_not_pos hk
    rw [hzero, Nat.zero_mul] at hmod
    rw [if_neg fun hc => hk hc.1]
    exact ⟨st, Observes.pure _, h.filled, by omega, h.settled, h.byte⟩

/-- **The bytes that are left** are read out of the last sector, and nothing remains: the buffer has
all bytes that were asked for. -/
theorem lastSector_sees (hreads : ∀ n, F.read n = none) (hP : P.Ok) (hchain : P.Chain card clusters)
    (hn : p + n ≤ clusters.length * P.bytesPerCluster)
    (h : Filled (P.fileByte card clusters) buffer e p n st) (hlt : st.remain < P.bytesPerSector)
    (hsettled : P.Settled clusters st.position i (p + st.ptr))
    (hbyte : st.remain = 0 ∨ st.position.byte = 0) :
    ∃ st', Sees F P card (lastSector F P st) st' ∧
      Filled (P.fileByte card clusters) buffer e p n st' ∧ st'.remain = 0 ∧
      P.Settled clusters st'.position i (p + st'.ptr) := by
  have htotal := h.total
  rw [lastSector]
  by_cases hremain : st.remain > 0
  · have hzero : st.position.byte = 0 := hbyte.resolve_left (by omega)
    have hplace := hsettled.place
    have hsector := hsettled.sector
    have hin : st.position.sector < P.sectorsPerCluster := by
      -- at the end of the last cluster nothing would be left
      rcases Nat.lt_or_ge st.position.sector P.sectorsPerCluster with hlt | hge
      · exact hlt
      · have hend : st.position.sector = P.sectorsPerCluster := by omega
        have hlen := hsettled.settled hend
        rw [← hlen, Nat.succ_mul] at hn
        rw [hend, hzero, Nat.mul_comm P.sectorsPerCluster] at hplace
        rw [Partition.bytesPerCluster] at hn hplace
        omega
    obtain ⟨hsectorOf, hend⟩ := hsettled.sectorOf hP hchain
    have hwhole := sectors_le (P := P) st.position.sector (n := 1) hin
    rw [Nat.one_mul] at hwhole
    have hread := readPart_sees card st hreads 0 st.remain
      (show P.sectorOf st.position < P.endOfPartition by omega) (by omega)
    have hslice := hsettled.slice_eq card hP st.remain (by omega)
    rw [hzero, ← hsectorOf] at hslice
    rw [hslice] at hread
    rw [if_pos ⟨hremain, h.ok⟩]
    refine ⟨_, hread.bind (Observes.pure _), h.more (Nat.le_refl _) _, Nat.sub_self _,
      ⟨hsettled.lt, hsettled.cluster, ?_, hsector, ?_, fun hlast => absurd hlast (Nat.ne_of_lt hin)⟩,
      hsettled.settled⟩
    · show p + (st.ptr + st.remain) = i * P.bytesPerCluster + st.position.sector * P.bytesPerSector +
        (st.position.byte + st.remain)
      omega
    · show st.position.byte + st.remain < P.bytesPerSector
      omega
  · rw [if_neg fun hc => hremain hc.1]
    exact ⟨st, Observes.pure _, h, Nat.eq_zero_of_not_pos hremain, hsettled⟩

/-- **All blocks.**  Every byte that is asked for is in the buffer then. -/
theorem readBlocks_sees (hreads : ∀ n, F.read n = none) (hP : P.Ok) (hchain : P.Chain card clusters)
    (hn : p + n ≤ clusters.length * P.bytesPerCluster) (hsmall : n + P.bytesPerCluster < 2 ^ 32)
    (h : Filled (P.fileByte card clusters) buffer e p n st)
    (hat : P.At clusters st.position i (p + st.ptr))
    (hlt : st.position.sector < P.sectorsPerCluster) :
    ∃ st', Sees F P card (readBlocks F P st) st' ∧
      Filled (P.fileByte card clusters) buffer e p n st' ∧ st'.remain = 0 ∧
      ∃ i, P.Settled clusters st'.position i (p + n) := by
  obtain ⟨st₁, hsees₁, hfilled₁, hat₁, hbyte₁⟩ := alignSector_sees hreads hP hchain h hat hlt
  obtain ⟨st₂, hsees₂, hfilled₂, hat₂, hbyte₂, hsector₂⟩ :=
    alignCluster_sees hreads hP hchain hfilled₁ hat₁ hbyte₁
  obtain ⟨st₃, hsees₃, hbetween₃⟩ := moveOntoNext_sees hreads hP hchain hn hfilled₂ hat₂ hbyte₂ hsector₂
  have htotal₃ := hbetween₃.filled.total
  obtain ⟨st₄, hsees₄, hbetween₄, hlt₄⟩ := wholeClusters_sees hreads hP hchain hn hsmall (2 ^ 32)
    (by omega) hbetween₃
  obtain ⟨st₅, hsees₅, hfilled₅, hlt₅, ⟨i₅, hsettled₅⟩, hbyte₅⟩ :=
    remainingSectors_sees hreads hP hchain hbetween₄ hlt₄
  obtain ⟨st₆, hsees₆, hfilled₆, hzero₆, hsettled₆⟩ :=
    lastSector_sees hreads hP hchain hn hfilled₅ hlt₅ hsettled₅ hbyte₅
  have htotal₆ := hfilled₆.total
  rw [hzero₆, Nat.add_zero] at htotal₆
  rw [htotal₆] at hsettled₆
  exact ⟨st₆, hsees₁.bind (hsees₂.bind (hsees₃.bind (hsees₄.bind (hsees₅.bind hsees₆)))), hfilled₆, hzero₆,
    i₅, hsettled₆⟩

end Blocks

end RrLauncher
