/-
# The bytes of a file

A file is a chain of clusters (`Partition.Chain`), and its bytes are those of its clusters, one
after the other.  A position denotes a byte of it (`Partition.At`).  Bytes of one cluster lie next to
each other on the card, and so do those of clusters that follow each other there.
-/

import RrLauncher.Libfat.Fatfile

namespace RrLauncher

open Cells (slice slice_congr slice_add)

/-- Every cluster but the last leads to the next one. -/
structure Partition.Chain (P : Partition) (card : ℕ → UInt8) (clusters : List ℕ) : Prop where
  nonempty : 0 < clusters.length
  valid : ∀ cluster ∈ clusters, P.isValidCluster cluster = true
  next : ∀ i (h : i < clusters.length), P.link card clusters[i] = clusters.getD (i + 1) clusterEof

/-- A byte of the file. -/
def Partition.fileByte (P : Partition) (card : ℕ → UInt8) (clusters : List ℕ) (q : ℕ) : UInt8 :=
  card (P.clusterToSector (clusters.getD (q / P.bytesPerCluster) 0) * P.bytesPerSector +
    q % P.bytesPerCluster)

/-- The position denotes the byte `q` of the file, in the cluster `i`.  It may be at the end of the
cluster. -/
structure Partition.At (P : Partition) (clusters : List ℕ) (position : FilePosition) (i q : ℕ) : Prop
    where
  lt : i < clusters.length
  cluster : position.cluster = clusters[i]
  place : q = i * P.bytesPerCluster + position.sector * P.bytesPerSector + position.byte
  sector : position.sector ≤ P.sectorsPerCluster
  byte : position.byte < P.bytesPerSector
  last : position.sector = P.sectorsPerCluster → position.byte = 0

/-- It is not at the end of a cluster if there is another one. -/
structure Partition.Settled (P : Partition) (clusters : List ℕ) (position : FilePosition) (i q : ℕ) :
    Prop extends P.At clusters position i q where
  settled : position.sector = P.sectorsPerCluster → i + 1 = clusters.length

section Bytes

variable {P : Partition} {card : ℕ → UInt8} {clusters : List ℕ}

/-- A cluster has at least one byte, so that the place of a byte in its cluster can be had by
division. -/
theorem Partition.Ok.bytesPerCluster_pos (hP : P.Ok) : 0 < P.bytesPerCluster :=
  Nat.mul_pos P.pos hP.cluster

/-- The sectors of a valid cluster lie in the partition, and their numbers do not wrap around in 32
bits. -/
theorem Partition.Ok.clusterToSector (hP : P.Ok) {cluster : ℕ} (h : P.isValidCluster cluster = true) :
    P.clusterToSector cluster = (cluster - 2) * P.sectorsPerCluster + P.dataStart ∧
      P.clusterToSector cluster + P.sectorsPerCluster ≤ P.endOfPartition := by
  rw [Partition.isValidCluster, Bool.and_eq_true, decide_eq_true_iff, decide_eq_true_iff] at h
  have hfirst : clusterFirst = 2 := rfl
  have hdata := hP.data
  have hfits := P.fits
  have hpage : sectorsPerPage = 8 := rfl
  have hmul : (cluster - 2) * P.sectorsPerCluster + P.sectorsPerCluster ≤
      (P.lastCluster - 1) * P.sectorsPerCluster := by
    rw [← Nat.succ_mul]
    exact Nat.mul_le_mul_right _ (by omega)
  have hsmall : (cluster - 2) * P.sectorsPerCluster + P.dataStart < 2 ^ 32 := by omega
  have heq : P.clusterToSector cluster = (cluster - 2) * P.sectorsPerCluster + P.dataStart := by
    rw [Partition.clusterToSector, if_pos h.1, hfirst, Nat.mod_eq_of_lt hsmall]
  exact ⟨heq, by rw [heq]; omega⟩

/-- The byte of a file at an offset in one of its clusters is the one that the card has at that
offset in the cluster. -/
theorem Partition.fileByte_of_lt (hP : P.Ok) {i a : ℕ} (hi : i < clusters.length)
    (ha : a < P.bytesPerCluster) :
    P.fileByte card clusters (i * P.bytesPerCluster + a) =
      card (P.clusterToSector clusters[i] * P.bytesPerSector + a) := by
  have hdiv : (i * P.bytesPerCluster + a) / P.bytesPerCluster = i := by
    rw [Nat.add_comm, Nat.add_mul_div_right _ _ hP.bytesPerCluster_pos, Nat.div_eq_of_lt ha,
      Nat.zero_add]
  have hmod : (i * P.bytesPerCluster + a) % P.bytesPerCluster = a := by
    rw [Nat.add_comm, Nat.add_mul_mod_self_right, Nat.mod_eq_of_lt ha]
  rw [Partition.fileByte, hdiv, hmod, List.getD_eq_getElem?_getD, List.getElem?_eq_getElem hi,
    Option.getD_some]

/-- **Bytes of one cluster** lie next to each other on the card, from the first sector of the
cluster on. -/
theorem slice_cluster (card : ℕ → UInt8) (hP : P.Ok) {i a n : ℕ} (hi : i < clusters.length)
    (ha : a + n ≤ P.bytesPerCluster) :
    slice (P.fileByte card clusters) (i * P.bytesPerCluster + a) n =
      slice card (P.clusterToSector clusters[i] * P.bytesPerSector + a) n := by
  refine slice_congr fun j hj => ?_
  rw [Nat.add_assoc, Partition.fileByte_of_lt hP hi (by omega), Nat.add_assoc]

/-- Clusters with numbers that follow each other follow each other on the card, too. -/
theorem Partition.Ok.clusterToSector_add (hP : P.Ok) {cluster k : ℕ}
    (h : P.isValidCluster cluster = true) (hk : P.isValidCluster (cluster + k) = true) :
    P.clusterToSector (cluster + k) = P.clusterToSector cluster + k * P.sectorsPerCluster := by
  have htwo : 2 ≤ cluster := by
    rw [Partition.isValidCluster, Bool.and_eq_true, decide_eq_true_iff] at h
    exact h.1
  rw [(hP.clusterToSector hk).1, (hP.clusterToSector h).1, Nat.sub_add_comm htwo, Nat.add_mul]
  omega

/-- **Clusters in a row are read as one**: the bytes of the file in them are as many bytes of the
card in a row. -/
theorem slice_clusters (card : ℕ → UInt8) (hP : P.Ok)
    (hvalid : ∀ cluster ∈ clusters, P.isValidCluster cluster = true) {i k : ℕ} (hi : i < clusters.length) (hk : i + k ≤ clusters.length)
    (hfollow : ∀ j (_ : j < k), clusters.getD (i + j) 0 = clusters[i] + j) :
    slice (P.fileByte card clusters) (i * P.bytesPerCluster) (k * P.bytesPerCluster) =
      slice card (P.clusterToSector clusters[i] * P.bytesPerSector) (k * P.bytesPerCluster) := by
  induction k with
  | zero => rw [Nat.zero_mul, Cells.slice_zero, Cells.slice_zero]
  | succ k ih =>
    have hlt : i + k < clusters.length := by omega
    have hclusters : clusters[i + k] = clusters[i] + k := by
      rw [← hfollow k (Nat.lt_succ_self k), List.getD_eq_getElem?_getD, List.getElem?_eq_getElem hlt,
        Option.getD_some]
    have hsector : P.clusterToSector clusters[i + k] =
        P.clusterToSector clusters[i] + k * P.sectorsPerCluster := by
      rw [hclusters]
      exact hP.clusterToSector_add (hvalid _ (List.getElem_mem hi))
        (hclusters ▸ hvalid _ (List.getElem_mem hlt))
    have hplace : P.clusterToSector clusters[i + k] * P.bytesPerSector =
        P.clusterToSector clusters[i] * P.bytesPerSector + k * P.bytesPerCluster := by
      rw [hsector, Nat.add_mul, Partition.bytesPerCluster, Nat.mul_comm P.bytesPerSector, Nat.mul_assoc]
    have hlast := slice_cluster card hP (a := 0) (n := P.bytesPerCluster) hlt (by omega)
    rw [Nat.add_zero, Nat.add_zero, hplace, Nat.add_mul] at hlast
    rw [Nat.succ_mul, slice_add, slice_add, ih (by omega) fun j hj => hfollow j (by omega), hlast]

end Bytes

end RrLauncher
