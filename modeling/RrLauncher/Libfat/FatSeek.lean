/-
# Where `FAT_seek` goes

`FileStruct.Ok` is what `FAT_seek` and `FAT_read` keep of a file: as long as its position is not after
its end, the position in its clusters denotes it.  `FAT_seek` goes there from the cluster it is in,
or from the first one (`fatSeek_sees`); `FAT_read` reads from there on (`fatRead_sees`).
-/

import RrLauncher.Libfat.FatRead

namespace RrLauncher

open Cells (slice patch)

/-- The file has the clusters, and its position is in them. -/
structure FileStruct.InChain (P : Partition) (card : ℕ → UInt8) (clusters : List ℕ)
    (file : FileStruct) : Prop where
  chain : P.Chain card clusters
  start : clusters.getD 0 0 = file.startCluster
  size : file.filesize ≤ clusters.length * P.bytesPerCluster
  position : file.currentPosition ≤ file.filesize →
    ∃ i, P.Settled clusters file.rwPosition i file.currentPosition

/-- The file is open for reading.  An empty one may have no cluster. -/
structure FileStruct.Ok (P : Partition) (card : ℕ → UInt8) (clusters : List ℕ) (file : FileStruct) :
    Prop where
  inUse : file.inUse = true
  read : file.read = true
  content : (file.startCluster = clusterFree ∧ file.filesize = 0) ∨ file.InChain P card clusters

section Seek

variable {F : Faults} {P : Partition} {card : ℕ → UInt8} {clusters : List ℕ} {file : FileStruct}

/-- A file whose first cluster is in a chain has one: zero is the number for a file without
clusters. -/
theorem FileStruct.InChain.startCluster_ne (hP : P.Ok) (h : file.InChain P card clusters) :
    file.startCluster ≠ clusterFree := by
  have hlt := h.chain.nonempty
  have hstart := h.start
  rw [List.getD_eq_getElem?_getD, List.getElem?_eq_getElem hlt, Option.getD_some] at hstart
  obtain ⟨htwo, -⟩ := Partition.Chain.valid_lt hP h.chain hlt
  have hfree : clusterFree = 0 := rfl
  omega

/-- The cluster of a settled position: its own one, or the next one in the chain, where the position
is at the end of a cluster. -/
theorem Partition.Settled.div_eq (hP : P.Ok) {position : FilePosition} {i q : ℕ}
    (h : P.Settled clusters position i q) :
    q / P.bytesPerCluster = if position.sector = P.sectorsPerCluster then i + 1 else i := by
  have hpos := hP.bytesPerCluster_pos
  have hplace := h.place
  have hbyte := h.byte
  split
  · rename_i hlast
    have hq : q = (i + 1) * P.bytesPerCluster := by
      rw [hplace, hlast, h.last hlast, Nat.succ_mul, Nat.mul_comm P.sectorsPerCluster]
      rfl
    rw [hq, Nat.mul_div_cancel _ hpos]
  · rename_i hnot
    have hin := sectors_le (P := P) position.sector (n := 1)
      (Nat.lt_of_le_of_ne h.sector hnot)
    rw [Nat.one_mul] at hin
    have hq : q = (position.sector * P.bytesPerSector + position.byte) + i * P.bytesPerCluster := by
      omega
    rw [hq, Nat.add_mul_div_right _ _ hpos, Nat.div_eq_of_lt (by omega), Nat.zero_add]

/-- **Where the search starts**: in a cluster of the file that is not after the one looked for. -/
theorem FileStruct.InChain.seekStart (hP : P.Ok) (h : file.InChain P card clusters) {position : ℕ}
    (hposition : position ≤ file.filesize) :
    ∃ j, ∃ hj : j < clusters.length, ∃ k : ℕ, position / P.bytesPerCluster = j + k ∧
      file.seekStart P position = ((k : ℤ), clusters[j]) := by
  rw [FileStruct.seekStart]
  by_cases hafter : position ≥ file.currentPosition
  · obtain ⟨i, hsettled⟩ := h.position (by omega)
    have hdiv := hsettled.div_eq hP
    have hle : file.currentPosition / P.bytesPerCluster ≤ position / P.bytesPerCluster :=
      Nat.div_le_div_right hafter
    refine ⟨i, hsettled.lt, position / P.bytesPerCluster - i, ?_, ?_⟩
    · split at hdiv <;> omega
    · rw [if_pos hafter, hsettled.cluster]
      refine Prod.ext ?_ rfl
      show (position / P.bytesPerCluster : ℕ) - (if _ then _ else _ : ℤ) = _
      split at hdiv
      · rw [if_pos ‹_›]
        omega
      · rw [if_neg ‹_›]
        omega
  · refine ⟨0, h.chain.nonempty, position / P.bytesPerCluster, (Nat.zero_add _).symm, ?_⟩
    have hstart := h.start
    rw [List.getD_eq_getElem?_getD, List.getElem?_eq_getElem h.chain.nonempty, Option.getD_some] at hstart
    rw [if_neg hafter, hstart]

/-- **The clusters that follow** in the chain are gone along, as many as are asked for, or up to the
last one. -/
theorem followChain_sees (hreads : ∀ n, F.read n = none) (hP : P.Ok) (hchain : P.Chain card clusters)
    {j k : ℕ} (hj : j < clusters.length) :
    ∃ i, ∃ hi : i < clusters.length, j ≤ i ∧ i ≤ j + k ∧ (i = j + k ∨ i + 1 = clusters.length) ∧
      Sees F P card (followChain F P k k clusters[j] (clusters.getD (j + 1) clusterEof))
        (((j + k - i : ℕ) : ℤ), clusters[i]) := by
  induction k generalizing j with
  | zero =>
    refine ⟨j, hj, Nat.le_refl _, Nat.le_refl _, Or.inl rfl, ?_⟩
    rw [show j + 0 - j = 0 by omega]
    exact Observes.pure _
  | succ k ih =>
    rw [followChain]
    by_cases hnext : j + 1 < clusters.length
    · obtain ⟨htwo, heof⟩ := Partition.Chain.valid_lt hP hchain hnext
      have hlink := nextCluster_observes card hreads hP (hchain.valid _ (List.getElem_mem hnext))
      rw [hchain.next _ hnext] at hlink
      obtain ⟨i, hi, hle, hup, hend, hsees⟩ := ih hnext
      have hfree : clusterFree = 0 := rfl
      have hcount : ((k + 1 : ℕ) : ℤ) - 1 = k := by omega
      refine ⟨i, hi, by omega, by omega, by omega, ?_⟩
      rw [getD_next hnext, if_pos ⟨by omega, by omega, by omega⟩, hcount,
        show j + (k + 1) - i = j + 1 + k - i by omega]
      exact hlink.bind hsees
    · have heof : clusters.getD (j + 1) clusterEof = clusterEof := by
        rw [List.getD_eq_getElem?_getD, List.getElem?_eq_none (by omega), Option.getD_none]
      refine ⟨j, hj, Nat.le_refl _, Nat.le_add_right _ _, Or.inr (by omega), ?_⟩
      rw [heof, if_neg fun hc => hc.2.2 rfl, show j + (k + 1) - j = k + 1 by omega]
      exact Observes.pure _

/-- The sector and the byte of a position in its cluster. -/
theorem Partition.settled_of_lt (hP : P.Ok) {position : ℕ}
    (h : position / P.bytesPerCluster < clusters.length) :
    P.Settled clusters ⟨clusters[position / P.bytesPerCluster],
      position % P.bytesPerCluster / P.bytesPerSector, position % P.bytesPerSector⟩
      (position / P.bytesPerCluster) position := by
  have hlt : position % P.bytesPerCluster / P.bytesPerSector < P.sectorsPerCluster :=
    Nat.div_lt_of_lt_mul (Nat.mod_lt _ hP.bytesPerCluster_pos)
  have hmod : position % P.bytesPerCluster % P.bytesPerSector = position % P.bytesPerSector :=
    Nat.mod_mod_of_dvd _ (Nat.dvd_mul_right _ _)
  refine ⟨⟨h, rfl, ?_, Nat.le_of_lt hlt, Nat.mod_lt _ P.pos, fun hlast => ?_⟩, fun hlast => ?_⟩
  · have hcluster := Nat.div_add_mod' position P.bytesPerCluster
    have hsector := Nat.div_add_mod' (position % P.bytesPerCluster) P.bytesPerSector
    rw [hmod] at hsector
    show position = position / P.bytesPerCluster * P.bytesPerCluster +
      position % P.bytesPerCluster / P.bytesPerSector * P.bytesPerSector + position % P.bytesPerSector
    omega
  · exact absurd hlast (Nat.ne_of_lt hlt)
  · exact absurd hlast (Nat.ne_of_lt hlt)

/-- The end of the last cluster is a settled position, since a file whose size fills its clusters
ends there. -/
theorem Partition.settled_end (h : 0 < clusters.length) :
    P.Settled clusters ⟨clusters[clusters.length - 1], P.sectorsPerCluster, 0⟩ (clusters.length - 1)
      (clusters.length * P.bytesPerCluster) := by
  refine ⟨⟨by omega, rfl, ?_, Nat.le_refl _, P.pos, fun _ => rfl⟩, fun _ => by omega⟩
  have hlast : clusters.length = clusters.length - 1 + 1 := by omega
  conv_lhs => rw [hlast, Nat.add_one_mul]
  rw [Partition.bytesPerCluster, Nat.mul_comm P.bytesPerSector P.sectorsPerCluster]
  rfl

/-- **`FAT_seek`** goes to the position that is asked for, from whichever place that is counted, and
the file stays one with a proper position. -/
theorem fatSeek_sees (hreads : ∀ n, F.read n = none) (hP : P.Ok) (h : file.Ok P card clusters) {pos : ℤ}
    {dir : Whence} {position : ℕ}
    (hnew : newPosition file.currentPosition file.filesize pos dir = .ok position) :
    ∃ rwPosition, (file.moveTo position rwPosition).Ok P card clusters ∧
      Sees F P card (fatSeek F P file pos dir)
        ⟨(position : ℤ).bmod (2 ^ 32), none, file.moveTo position rwPosition⟩ := by
  have hopen : ¬ ¬ file.inUse = true := fun hc => hc h.inUse
  rw [fatSeek, if_neg hopen, hnew]
  dsimp only
  rcases h.content with hempty | hin
  · -- an empty file without a cluster
    rw [if_neg fun hc => hc.2 hempty.1]
    exact ⟨file.rwPosition, ⟨h.inUse, h.read, Or.inl hempty⟩, Observes.pure _⟩
  by_cases hposition : position ≤ file.filesize
  · have hsize := hin.size
    have hpos := hP.bytesPerCluster_pos
    obtain ⟨j, hj, k, hk, hstart⟩ := hin.seekStart hP hposition
    obtain ⟨i, hi, hle, hup, hend, hfollow⟩ := followChain_sees (k := k) hreads hP
      hin.chain hj
    have hlink := nextCluster_observes card hreads hP (hin.chain.valid _ (List.getElem_mem hj))
    rw [hin.chain.next j hj] at hlink
    rw [if_pos ⟨hposition, hin.startCluster_ne hP⟩, hstart]
    dsimp only
    rw [Int.toNat_natCast]
    by_cases hlt : position / P.bytesPerCluster < clusters.length
    · -- in one of the clusters
      have hi' : i = position / P.bytesPerCluster := by omega
      subst hi'
      refine ⟨_, ⟨h.inUse, h.read, Or.inr ⟨hin.chain, hin.start, hin.size,
        fun _ => ⟨_, Partition.settled_of_lt hP hlt⟩⟩⟩, hlink.bind (hfollow.bind ?_)⟩
      dsimp only
      rw [if_neg (by omega)]
      exact Observes.pure _
    · -- after the last one, where the file ends
      have hfull : position = clusters.length * P.bytesPerCluster := by
        have hdiv := Nat.div_mul_le_self position P.bytesPerCluster
        have hmul := Nat.mul_le_mul_right P.bytesPerCluster (Nat.le_of_not_lt hlt)
        omega
      have hquot : position / P.bytesPerCluster = clusters.length := by
        rw [hfull, Nat.mul_div_cancel _ hpos]
      have hzero : position % P.bytesPerCluster / P.bytesPerSector = 0 := by
        rw [hfull, Nat.mul_mod_left, Nat.zero_div]
      have hi' : i = clusters.length - 1 := by omega
      subst hi'
      have hsettled := Partition.settled_end (P := P) hin.chain.nonempty
      rw [← hfull] at hsettled
      refine ⟨_, ⟨h.inUse, h.read, Or.inr ⟨hin.chain, hin.start, hin.size, fun _ => ⟨_, hsettled⟩⟩⟩,
        hlink.bind (hfollow.bind ?_)⟩
      dsimp only
      rw [if_pos (by omega), if_pos ⟨by omega, by omega, hzero⟩]
      exact Observes.pure _
  · -- after the end of the file
    rw [if_neg fun hc => hposition hc.1]
    refine ⟨file.rwPosition, ⟨h.inUse, h.read, Or.inr ⟨hin.chain, hin.start, hin.size, fun hle => ?_⟩⟩,
      Observes.pure _⟩
    exact absurd hle hposition

end Seek

/-! ### Reading from the position on -/

section Read

variable {F : Faults} {P : Partition} {card : ℕ → UInt8} {clusters : List ℕ} {file : FileStruct}

/-- The variables at the start of a read: nothing is in the buffer yet, and as much remains as was
asked for, or up to the end of the file, with an error noted where that is less. -/
theorem FileStruct.startRead_filled (content buffer : ℕ → UInt8) {len m : ℕ}
    (hfit : file.filesize + len < 2 ^ 32) (hlt : file.currentPosition < file.filesize)
    (hm : m = min len (file.filesize - file.currentPosition)) :
    Filled content buffer (if m < len then some .eoverflow else none) file.currentPosition m
        (file.startRead buffer len) ∧
      (file.startRead buffer len).position = file.rwPosition ∧
      (file.startRead buffer len).ptr = 0 ∧ (file.startRead buffer len).remain = m := by
  have hbuffer : buffer = patch buffer 0 (slice content file.currentPosition 0) := by
    rw [Cells.slice_zero, Cells.patch_nil]
  rw [FileStruct.startRead, Nat.mod_eq_of_lt (by omega)]
  by_cases hcut : len + file.currentPosition > file.filesize
  · have hm' : m = file.filesize - file.currentPosition := by omega
    rw [if_pos hcut, if_pos (show m < len by omega), hm']
    exact ⟨⟨Nat.zero_add _, hbuffer, rfl, rfl⟩, rfl, rfl, rfl⟩
  · have hm' : m = len := by omega
    rw [if_neg hcut, if_neg (show ¬ m < len by omega), hm']
    exact ⟨⟨Nat.zero_add _, hbuffer, rfl, rfl⟩, rfl, rfl, rfl⟩

/-- **`FAT_read`** reads the bytes from the position on, up to the end of the file. -/
theorem fatRead_sees (hreads : ∀ n, F.read n = none) (hP : P.Ok) (h : file.Ok P card clusters)
    (buffer : ℕ → UInt8) {len m : ℕ} (hlen : len < 2 ^ 31) (hfit : file.filesize + len < 2 ^ 32)
    (hm : m = min len (file.filesize - file.currentPosition)) :
    ∃ rwPosition, (file.moveTo (file.currentPosition + m) rwPosition).Ok P card clusters ∧
      Sees F P card (fatRead F P file buffer len)
        ⟨m, patch buffer 0 (slice (P.fileByte card clusters) file.currentPosition m),
          if m < len then some .eoverflow else none,
          file.moveTo (file.currentPosition + m) rwPosition⟩ := by
  have hopen : ¬ (¬ file.inUse = true ∨ ¬ file.read = true) := by
    rw [h.inUse, h.read]
    simp
  rw [fatRead]
  by_cases hzero : len = 0
  · have hm' : m = 0 := by omega
    rw [if_pos hzero, hm', hzero, Cells.slice_zero, Cells.patch_nil]
    exact ⟨file.rwPosition, h, Observes.pure _⟩
  rw [if_neg hzero, if_neg hopen]
  by_cases hend : file.currentPosition ≥ file.filesize ∨ file.startCluster = clusterFree
  · -- there is nothing to read
    have hm' : m = 0 := by
      rcases hend with hafter | hfree
      · omega
      · rcases h.content with hempty | hin
        · rw [hm, hempty.2, Nat.zero_sub, Nat.min_zero]
        · exact absurd hfree (hin.startCluster_ne hP)
    rw [if_pos hend, hm', Cells.slice_zero, Cells.patch_nil, if_pos (Nat.pos_of_ne_zero hzero)]
    exact ⟨file.rwPosition, h, Observes.pure _⟩
  · have hlt : file.currentPosition < file.filesize := Nat.lt_of_not_le fun hc => hend (Or.inl hc)
    have hin := h.content.resolve_left fun hempty => hend (Or.inr hempty.1)
    have hsize := hin.size
    obtain ⟨i, hsettled⟩ := hin.position (Nat.le_of_lt hlt)
    have hsector : file.rwPosition.sector < P.sectorsPerCluster := by
      -- at the end of the last cluster the file would end
      refine Nat.lt_of_le_of_ne hsettled.sector fun hlast => ?_
      have hdiv := hsettled.div_eq hP
      rw [if_pos hlast, hsettled.settled hlast] at hdiv
      have hmul := Nat.div_mul_le_self file.currentPosition P.bytesPerCluster
      rw [hdiv] at hmul
      omega
    obtain ⟨hfilled, hposition, hptr, hremain⟩ :=
      file.startRead_filled (P.fileByte card clusters) buffer hfit hlt hm
    have hsmall := hP.size
    obtain ⟨st', hsees, hfilled', hzero', ⟨i', hsettled'⟩⟩ := readBlocks_sees (F := F) hreads hP hin.chain
      (by omega) (by omega) hfilled (by rw [hposition, hptr]; exact hsettled.toAt)
      (by rw [hposition]; exact hsector)
    have htotal := hfilled'.total
    rw [hzero', Nat.add_zero] at htotal
    refine ⟨st'.position, ⟨h.inUse, h.read, Or.inr ⟨hin.chain, hin.start, hin.size,
      fun _ => ⟨i', hsettled'⟩⟩⟩, ?_⟩
    rw [if_neg hend]
    refine hsees.bind ?_
    have hret : ((m : ℕ) : ℤ).bmod (2 ^ 32) = m := Int.bmod_eq_of_le (by omega) (by omega)
    rw [hremain, hzero', Nat.sub_zero]
    dsimp only
    rw [hret, hfilled'.buffer, hfilled'.errno, htotal]
    exact Observes.pure _

end Read

end RrLauncher
