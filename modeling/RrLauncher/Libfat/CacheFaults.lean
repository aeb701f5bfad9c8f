/-
# A read that fails

When a page cannot be filled, `_FAT_cache_getPage` answers `NULL`, but the entry still says that it
has the sectors that were there before, and its bytes are what the transfer left.  A read of
such a sector then succeeds without the card, with those bytes
(`failed_fill_is_served`).
-/

import RrLauncher.Libfat.CacheRuns

namespace RrLauncher

open Cells (slice patch patch_slice slice_congr)

section Served

variable {F : Faults} {G : CacheGeometry} {c : Cache} {i sector : ℕ}

/-- The entry with the bytes that a transfer left. -/
def CacheEntry.leftWith (e : CacheEntry) (bytes : ℕ → UInt8) : CacheEntry := { e with cache := bytes }

/-- The page that cannot be filled, as the transfer from the card fails: its entry stays as it was,
but for the bytes that the transfer left, and the answer says that the call failed. -/
theorem fillPage_failed {junk : ℕ → UInt8} (hread : F.read c.disc.reads = some junk)
    (hsector : sector < G.endOfPartition) :
    fillPage F G c i sector =
      (false, (c.setDisc { c.disc with reads := c.disc.reads + 1 }).setEntry i
        ((c.entry i).leftWith (patch (c.entry i).cache 0 (slice junk 0
          (min sectorsPerPage (G.endOfPartition - CacheGeometry.base sector) * G.bytesPerSector))))) := by
  have hcount := fillPage_count (G := G) hsector
  rw [CacheGeometry.base] at hcount
  simp only [fillPage, discReadSectors, hread, hcount]
  rfl

/-- Writing a page back makes no transfer from the card, so it does not use up any of those that may
fail. -/
theorem evictPage_reads (F : Faults) (G : CacheGeometry) (c : Cache) (foundFree : Bool) (i : ℕ) :
    (evictPage F G c foundFree i).2.disc.reads = c.disc.reads := by
  have hwrite : (discWriteSectors F G c.disc (c.entry i).sector (c.entry i).count
      (c.entry i).cache).2.reads = c.disc.reads := by
    rw [discWriteSectors]
    cases F.write c.disc.writes with
    | none => rfl
    | some junk => rfl
  rw [evictPage]
  dsimp only
  split
  · split
    · exact hwrite
    · exact hwrite
  · rfl

/-- The loop finds an entry that has the sector, if there is one. -/
theorem scanPages_of_hasSector (hi : i < c.cacheEntries.length)
    (hhas : (c.entry i).hasSector sector = true) :
    ∃ k, scanPages sector 0 c.cacheEntries ⟨false, 0, 2 ^ 32 - 1⟩ = .inl k ∧
      k < c.cacheEntries.length ∧ (c.entry k).hasSector sector = true := by
  cases hscan : scanPages sector 0 c.cacheEntries ⟨false, 0, 2 ^ 32 - 1⟩ with
  | inl k => exact ⟨k, rfl, scanPages_found hscan⟩
  | inr scan =>
    have hnone := (scanPages_notFound (Nat.zero_lt_of_lt hi) hscan).2.2 i hi
    rw [hhas] at hnone
    cases hnone

/-- The sectors of one entry are in no other, so the search for a sector cannot find another page
than the one that has it. -/
theorem Cache.Inv.entry_unique (h : c.Inv G) {k : ℕ} (hi : i < c.cacheEntries.length)
    (hk : k < c.cacheEntries.length) (hhas : (c.entry i).hasSector sector = true)
    (hhas' : (c.entry k).hasSector sector = true) : i = k := by
  have hin := (h.loaded_of_hasSector hi hhas).hasSector_iff.mp hhas
  have hin' := (h.loaded_of_hasSector hk hhas').hasSector_iff.mp hhas'
  have hdiv : sector * G.bytesPerSector / G.bytesPerSector = sector := Nat.mul_div_cancel _ G.pos
  refine h.coherent.apart i k (sector * G.bytesPerSector) ?_ ?_
  · show _ ≤ sector * G.bytesPerSector / G.bytesPerSector ∧ sector * G.bytesPerSector / G.bytesPerSector < _
    rwa [hdiv]
  · show _ ≤ sector * G.bytesPerSector / G.bytesPerSector ∧ sector * G.bytesPerSector / G.bytesPerSector < _
    rwa [hdiv]

/-- **A sector that an entry has** is read from it, without the card. -/
theorem cacheReadSectors_hit {k : ℕ} (hi : i < c.cacheEntries.length)
    (hscan : scanPages sector 0 c.cacheEntries ⟨false, 0, 2 ^ 32 - 1⟩ = .inl i)
    (hsector : sector = (c.entry i).sector + k) (hk : k < (c.entry i).count) :
    cacheReadSectors F G c sector 1 =
      (true, slice (c.entry i).cache (k * G.bytesPerSector) G.bytesPerSector,
        c.touch i (c.entry i)) := by
  have hget : getPage F G c sector = (some i, c.touch i (c.entry i)) := by
    rw [getPage, hscan]
  have hentry := entry_touch_self (e := c.entry i) hi
  have hplace : sector - (c.entry i).sector = k := by omega
  have hone : min ((c.entry i).count - k) 1 = 1 := by omega
  rw [cacheReadSectors, readSectorsLoop, if_neg Nat.one_ne_zero, hget]
  dsimp only
  rw [hentry]
  dsimp only
  rw [hplace, hone, Nat.one_mul, readSectorsLoop, if_pos rfl, List.nil_append]

/-- The sectors that an entry had are read from it when it could not be filled. -/
theorem spoiled_page_is_served (h : c.Inv G) (hi : i < c.cacheEntries.length)
    (hsector : sector < G.endOfPartition) {junk : ℕ → UInt8} (hread : F.read c.disc.reads = some junk)
    {k : ℕ} (hk : k < (c.entry i).count)
    (hk' : k < min sectorsPerPage (G.endOfPartition - CacheGeometry.base sector)) :
    ∃ c', cacheReadSectors F G (fillPage F G c i sector).2 ((c.entry i).sector + k) 1 =
        (true, slice junk (k * G.bytesPerSector) G.bytesPerSector, c') ∧
      c'.disc = (fillPage F G c i sector).2.disc := by
  rw [fillPage_failed hread hsector]
  dsimp only
  generalize min sectorsPerPage (G.endOfPartition - CacheGeometry.base sector) = count at hk' ⊢
  generalize ({ c.disc with reads := c.disc.reads + 1 } : Disc) = disc
  set e := (c.entry i).leftWith (patch (c.entry i).cache 0 (slice junk 0 (count * G.bytesPerSector)))
    with he
  set c₂ := (c.setDisc disc).setEntry i e with hc₂
  have hlen : c₂.cacheEntries.length = c.cacheEntries.length := length_setEntry _ _ _
  have hself : c₂.entry i = e := entry_setEntry_self (c := c.setDisc disc) hi
  -- the sectors of the entries are as before
  have hsame : ∀ j s, (c₂.entry j).hasSector s = (c.entry j).hasSector s := by
    intro j s
    rw [hc₂, entry_setEntry (c := c.setDisc disc) hi]
    split
    · rename_i hj
      rw [hj]
      rfl
    · rfl
  have hloaded : (c.entry i).Loaded G := by
    rcases h.entries i hi with hfree | hloaded
    · rw [hfree.count] at hk
      exact absurd hk (Nat.not_lt_zero k)
    · exact hloaded
  have hhas : (c.entry i).hasSector ((c.entry i).sector + k) = true :=
    hloaded.hasSector_iff.mpr ⟨Nat.le_add_right _ _, by omega⟩
  obtain ⟨j, hscan, hj, hhas'⟩ := scanPages_of_hasSector (c := c₂) (hlen.symm ▸ hi)
    ((hsame i _).trans hhas)
  have hji : j = i := h.entry_unique (hlen ▸ hj) hi ((hsame j _).symm.trans hhas') hhas
  rw [hji] at hscan
  have hhit := cacheReadSectors_hit (F := F) (G := G) (k := k) (hlen.symm ▸ hi) hscan (by rw [hself]; rfl)
    (by rw [hself]; exact hk)
  -- the bytes are those of the transfer
  have hbytes : slice e.cache (k * G.bytesPerSector) G.bytesPerSector =
      slice junk (k * G.bytesPerSector) G.bytesPerSector := by
    refine slice_congr fun a ha => ?_
    have hmul := Nat.mul_le_mul_right G.bytesPerSector (Nat.succ_le_of_lt hk')
    rw [Nat.succ_mul] at hmul
    rw [he, CacheEntry.leftWith]
    dsimp only
    rw [patch_slice, if_pos (by omega), Nat.zero_add, Nat.sub_zero]
  rw [hself, hbytes] at hhit
  exact ⟨_, hhit, disc_touch _ _ _⟩

/-- **A read that failed is served.**  Once no entry is free, a page that cannot be filled leaves an
entry with the sectors that it had, and the bytes of the failed transfer: reading these sectors
succeeds, answers with those bytes, and does not touch the card. -/
theorem failed_fill_is_served (h : c.Inv G) (hsector : sector < G.endOfPartition)
    (hmiss : ∀ i < c.cacheEntries.length, (c.entry i).hasSector sector = false)
    (hfull : ∀ e ∈ c.cacheEntries, e.sector ≠ cacheFree)
    (hwrite : F.write c.disc.writes = none ∨ c.Clean) {junk : ℕ → UInt8}
    (hread : F.read c.disc.reads = some junk) :
    (getPage F G c sector).1 = none ∧
      ∃ i < c.cacheEntries.length, 0 < (c.entry i).count ∧ ∀ k < (c.entry i).count,
        k < min sectorsPerPage (G.endOfPartition - CacheGeometry.base sector) →
        ∃ c', cacheReadSectors F G (getPage F G c sector).2 ((c.entry i).sector + k) 1 =
            (true, slice junk (k * G.bytesPerSector) G.bytesPerSector, c') ∧
          c'.disc = (getPage F G c sector).2.disc := by
  cases hscan : scanPages sector 0 c.cacheEntries ⟨false, 0, 2 ^ 32 - 1⟩ with
  | inl i =>
    obtain ⟨hi, hhas⟩ := scanPages_found hscan
    rw [hmiss i hi] at hhas
    cases hhas
  | inr scan =>
    obtain ⟨hi, hfree, -⟩ := scanPages_notFound h.nonempty hscan
    have hevict := evictPage_spec (F := F) h hi hfree
    have hread' : F.read (evictPage F G c scan.foundFree scan.oldUsed).2.disc.reads = some junk := by
      rw [evictPage_reads]
      exact hread
    have hget : getPage F G c sector =
        (none, (fillPage F G (evictPage F G c scan.foundFree scan.oldUsed).2 scan.oldUsed sector).2) := by
      have hfill := congrArg Prod.fst (fillPage_failed (i := scan.oldUsed) hread' hsector)
      rw [getPage, hscan]
      dsimp only
      rw [hevict.ok hwrite, hfill]
      rfl
    rw [hget]
    have hcount : 0 < (c.entry scan.oldUsed).count := by
      rcases h.entries _ hi with hentry | hentry
      · exact absurd hentry.sector (hfull _ (entry_eq_getElem hi ▸ List.getElem_mem hi))
      · have hpage : sectorsPerPage = 8 := rfl
        have hinside := hentry.inside
        rw [hentry.count]
        omega
    refine ⟨rfl, scan.oldUsed, hi, hcount, fun k hk hk' => ?_⟩
    obtain ⟨hsame, hcount⟩ := hevict.sectors scan.oldUsed
    rw [← hcount] at hk
    rw [← hsame]
    exact spoiled_page_is_served hevict.inv (hevict.length.symm ▸ hi) hsector hread' hk hk'

end Served

/-- The second read fails, and leaves zeros. -/
def secondReadFails : Faults := ⟨fun n => if n = 1 then some fun _ => 0 else none, fun _ => none⟩

/-- A cache of one page, with the first page of an erased card. -/
def firstPageCached : Cache :=
  (getPage secondReadFails hundredSectors (cacheConstructor erasedDisc 0 [fun _ => 0]) 0).2

/-- Reading the first page is the same on a card where all reads succeed, since only the second one
fails here. -/
theorem firstPageCached_eq : firstPageCached =
    (getPage noFaults hundredSectors (cacheConstructor erasedDisc 0 [fun _ => 0]) 0).2 := rfl

/-- Sector 90 cannot be read, and sector 3 is zeros then. -/
theorem failed_fill_is_served_hundredSectors :
    (getPage secondReadFails hundredSectors firstPageCached 90).1 = none ∧
      ∃ i < firstPageCached.cacheEntries.length, 0 < (firstPageCached.entry i).count ∧
        ∀ k < (firstPageCached.entry i).count,
          k < min sectorsPerPage (hundredSectors.endOfPartition - CacheGeometry.base 90) →
          ∃ c', cacheReadSectors secondReadFails hundredSectors
              (getPage secondReadFails hundredSectors firstPageCached 90).2
              ((firstPageCached.entry i).sector + k) 1 =
              (true, slice (fun _ => 0) (k * hundredSectors.bytesPerSector) hundredSectors.bytesPerSector,
                c') ∧
            c'.disc = (getPage secondReadFails hundredSectors firstPageCached 90).2.disc := by
  have hinv : firstPageCached.Inv hundredSectors := by
    rw [firstPageCached_eq]
    exact (getPage_spec (fun _ => rfl) (cacheConstructor_inv erasedDisc 0 (by simp)) (by decide)).inv
  exact failed_fill_is_served hinv (by decide) (by decide) (by decide) (Or.inl rfl) rfl

end RrLauncher
