/-
# What is seen through the cache

The pages of the cache are a write-back cache over the card (`Cache.pages`), and what is seen
through them is the `view` of the card.  Looking for a page keeps the invariant and the view,
whatever is evicted for it and however writing it back fails (`getPage_spec`).
-/

import RrLauncher.Lib.WriteBack
import RrLauncher.Libfat.Cache

namespace RrLauncher

open Cells (slice patch patch_slice)

section Definitions

variable (G : CacheGeometry)

/-- The sectors of a page, in bytes. -/
def CacheEntry.page (e : CacheEntry) : CachePage ℕ UInt8 where
  span := {a | e.sector ≤ a / G.bytesPerSector ∧ a / G.bytesPerSector < e.sector + e.count}
  data a := e.cache (a - e.sector * G.bytesPerSector)
  dirty := e.dirty

/-- The cache as pages over the bytes of the card. -/
def Cache.pages (c : Cache) : WriteBack ℕ ℕ UInt8 := ⟨c.disc.bytes, fun k => (c.entry k).page G⟩

/-- The bytes of the card, as they are seen. -/
noncomputable def Cache.view (c : Cache) : ℕ → UInt8 := (c.pages G).view

/-- The entry has no page. -/
structure CacheEntry.IsFree (e : CacheEntry) : Prop where
  sector : e.sector = cacheFree
  count : e.count = 0
  dirty : e.dirty = false

/-- The entry has a page of the partition. -/
structure CacheEntry.Loaded (e : CacheEntry) : Prop where
  aligned : e.sector % sectorsPerPage = 0
  inside : e.sector < G.endOfPartition
  count : e.count = min sectorsPerPage (G.endOfPartition - e.sector)

/-- All entries are of one of the two kinds. -/
structure Cache.EntriesOk (c : Cache) : Prop where
  nonempty : 0 < c.cacheEntries.length
  entries : ∀ k < c.cacheEntries.length, (c.entry k).IsFree ∨ (c.entry k).Loaded G

/-- The invariant of the cache. -/
structure Cache.Inv (c : Cache) : Prop extends Cache.EntriesOk G c where
  coherent : (c.pages G).Coherent

/-- No page is dirty, so the card has everything that was written. -/
def Cache.Clean (c : Cache) : Prop := ∀ k, (c.entry k).dirty = false

/-- None of the writes to the card that are made on the way from one state to another fails.  The
card counts its writes, and the faults go by their numbers. -/
def Cache.WritesGo (F : Faults) (c c' : Cache) : Prop :=
  ∀ n, c.disc.writes ≤ n → n < c'.disc.writes → F.write n = none

end Definitions

/-! ### Entries -/

section Entries

variable {c : Cache} {i k : ℕ} {e : CacheEntry}

/-- Writing an entry leaves the cache with as many entries as before. -/
@[simp] theorem length_setEntry (c : Cache) (i : ℕ) (e : CacheEntry) :
    (c.setEntry i e).cacheEntries.length = c.cacheEntries.length := List.length_set

/-- So does noting the time at which an entry was used, which writes that entry. -/
@[simp] theorem length_touch (c : Cache) (i : ℕ) (e : CacheEntry) :
    (c.touch i e).cacheEntries.length = c.cacheEntries.length := List.length_set

/-- Writing an entry does not touch the card: only transfers do, and they go through
`Cache.setDisc`. -/
@[simp] theorem disc_setEntry (c : Cache) (i : ℕ) (e : CacheEntry) : (c.setEntry i e).disc = c.disc :=
  rfl

/-- Noting the time at which an entry was used does not touch the card either. -/
@[simp] theorem disc_touch (c : Cache) (i : ℕ) (e : CacheEntry) : (c.touch i e).disc = c.disc := rfl

/-- A transfer leaves the cache with as many entries as before. -/
@[simp] theorem length_setDisc (c : Cache) (disc : Disc) :
    (c.setDisc disc).cacheEntries.length = c.cacheEntries.length := rfl

/-- A transfer leaves the entries as they are; what was read is written into its entry afterwards.
-/
@[simp] theorem entry_setDisc (c : Cache) (disc : Disc) (k : ℕ) : (c.setDisc disc).entry k = c.entry k :=
  rfl

/-- The card after a transfer is the card that the transfer gave. -/
@[simp] theorem disc_setDisc (c : Cache) (disc : Disc) : (c.setDisc disc).disc = disc := rfl

/-- Behind the last entry of the cache there is nothing: the model reads a free entry there, so that
statements about all `k` need no bound. -/
theorem entry_of_le (h : c.cacheEntries.length ≤ k) : c.entry k = .free fun _ => 0 := by
  rw [Cache.entry, List.getD_eq_getElem?_getD, List.getElem?_eq_none h, Option.getD_none]

/-- The entry that was written is the one that is found there, if the index is one of the cache. -/
theorem entry_setEntry_self (h : i < c.cacheEntries.length) : (c.setEntry i e).entry i = e := by
  rw [Cache.entry, Cache.setEntry, List.getD_eq_getElem?_getD, List.getElem?_set_self h,
    Option.getD_some]

/-- All other entries are as before, also those behind the end of the cache. -/
theorem entry_setEntry_of_ne (h : k ≠ i) : (c.setEntry i e).entry k = c.entry k := by
  rw [Cache.entry, Cache.entry, Cache.setEntry, List.getD_eq_getElem?_getD,
    List.getElem?_set_ne (Ne.symm h), ← List.getD_eq_getElem?_getD]

/-- The entries after one was written: that one is the new one, and the others are as before. -/
theorem entry_setEntry (h : i < c.cacheEntries.length) (k : ℕ) :
    (c.setEntry i e).entry k = if k = i then e else c.entry k := by
  by_cases hk : k = i
  · rw [if_pos hk, hk, entry_setEntry_self h]
  · rw [if_neg hk, entry_setEntry_of_ne hk]

/-- The entry that was used has the new time and is otherwise as it was given, for an index of the
cache. -/
theorem entry_touch_self (h : i < c.cacheEntries.length) :
    (c.touch i e).entry i = { e with lastAccess := c.accessTime } :=
  entry_setEntry_self h

/-- Using one entry leaves all others as they were, their times among them. -/
theorem entry_touch_of_ne (h : k ≠ i) : (c.touch i e).entry k = c.entry k := entry_setEntry_of_ne h

end Entries

section Pages

variable {G : CacheGeometry} {c c' : Cache} {e : CacheEntry}

/-- The bytes of a page are those of its sectors, as addresses on the card. -/
theorem mem_span {a : ℕ} : a ∈ (e.page G).span ↔
    e.sector * G.bytesPerSector ≤ a ∧
      a < e.sector * G.bytesPerSector + e.count * G.bytesPerSector := by
  rw [← Nat.add_mul, ← Nat.le_div_iff_mul_le G.pos, ← Nat.div_lt_iff_lt_mul G.pos]
  rfl

/-- An entry with no sectors has no bytes, wherever it says that they begin; so a free entry, whose
first sector is `CACHE_FREE`, stands for nothing. -/
theorem notMem_span_free {a : ℕ} (h : e.count = 0) : a ∉ (e.page G).span := by
  rw [mem_span, h]
  omega

/-- The sectors of a loaded page: the test of the source finds exactly those from its first one on,
as many as it has, since the end of the page does not wrap around. -/
theorem CacheEntry.Loaded.hasSector_iff (h : e.Loaded G) {sector : ℕ} :
    e.hasSector sector = true ↔ e.sector ≤ sector ∧ sector < e.sector + e.count := by
  have hcount := h.count
  have hfits := G.fits
  have hinside := h.inside
  have hpage : sectorsPerPage = 8 := rfl
  rw [CacheEntry.hasSector, Bool.and_eq_true, decide_eq_true_iff, decide_eq_true_iff,
    Nat.mod_eq_of_lt (by omega)]

/-- The comparison in the loop never takes a free entry for that of a sector: its first sector is
the highest number of 32 bits, and it has none. -/
theorem CacheEntry.IsFree.hasSector (h : e.IsFree) (sector : ℕ) : e.hasSector sector = false := by
  have hfree : cacheFree = 2 ^ 32 - 1 := rfl
  rw [CacheEntry.hasSector, h.sector, h.count, Bool.and_eq_false_iff, decide_eq_false_iff_not,
    decide_eq_false_iff_not]
  omega

/-- Entries that differ in their times only are the same pages. -/
theorem pages_congr (hdisc : c'.disc.bytes = c.disc.bytes)
    (h : ∀ k, (c'.entry k).page G = (c.entry k).page G) : c'.pages G = c.pages G := by
  rw [Cache.pages, Cache.pages, hdisc]
  exact congrArg _ (funext h)

/-- Noting the time of an access changes no page, only which of them is evicted next. -/
theorem page_touch (c : Cache) (i k : ℕ) : ((c.touch i (c.entry i)).entry k).page G = (c.entry k).page G := by
  by_cases hk : k = i
  · subst hk
    by_cases hlen : k < c.cacheEntries.length
    · rw [entry_touch_self hlen]
      rfl
    · have hle := Nat.le_of_not_lt hlen
      rw [entry_of_le hle, entry_of_le (by rwa [length_touch])]
  · rw [entry_touch_of_ne hk]

end Pages

/-! ### The loop over the entries -/

section Scan

variable {sector : ℕ}

/-- Where the loop ends with an entry, this is one of those that it looked at, and it has the
sector.  The induction is on the entries that are left, with `i` before them. -/
theorem scanPages_inl {es : List CacheEntry} {i j : ℕ} {scan : PageScan}
    (h : scanPages sector i es scan = .inl j) :
    ∃ k, ∃ hk : k < es.length, j = i + k ∧ es[k].hasSector sector = true := by
  induction es generalizing i scan with
  | nil => cases h
  | cons e es ih =>
    rw [scanPages] at h
    split at h
    · rename_i hhas
      cases h
      exact ⟨0, Nat.succ_pos _, rfl, hhas⟩
    · obtain ⟨k, hk, rfl, hhas⟩ := ih h
      exact ⟨k + 1, Nat.succ_lt_succ hk, by omega, hhas⟩

/-- What the variables say about the entries that were looked at. -/
def PageScan.Ok (scan : PageScan) (es : List CacheEntry) : Prop :=
  scan.foundFree = true → ∃ h : scan.oldUsed < es.length, es[scan.oldUsed].sector = cacheFree

/-- Where the loop ends without one, no entry has the sector, and its variables are right about all
entries.  The induction is on the entries that are left; `before` are those that were looked at, and
`oldUsed` is either what it was at the start or the index of one of them. -/
theorem scanPages_inr (before : List CacheEntry) {es : List CacheEntry} {scan scan' : PageScan} (hok : scan.Ok before)
    (hused : scan.oldUsed ≤ before.length) (h : scanPages sector before.length es scan = .inr scan') :
    (∀ e ∈ es, e.hasSector sector = false) ∧ scan'.Ok (before ++ es) ∧
      (scan'.oldUsed = scan.oldUsed ∨ scan'.oldUsed < (before ++ es).length) := by
  induction es generalizing before scan with
  | nil =>
    rw [scanPages, Sum.inr.injEq] at h
    subst h
    rw [List.append_nil]
    exact ⟨fun e he => absurd he List.not_mem_nil, hok, Or.inl rfl⟩
  | cons e es ih =>
    rw [scanPages] at h
    split at h
    · cases h
    · rename_i hhas
      have hnext : (scan.next before.length e).Ok (before ++ [e]) ∧
          ((scan.next before.length e).oldUsed = scan.oldUsed ∨
            (scan.next before.length e).oldUsed = before.length) := by
        rw [PageScan.next]
        split
        · refine ⟨fun hfree => ⟨by simp, ?_⟩, Or.inr rfl⟩
          simpa using hfree
        · refine ⟨fun hfree => ?_, Or.inl rfl⟩
          obtain ⟨hlt, hsector⟩ := hok hfree
          exact ⟨by rw [List.length_append]; omega, by rw [List.getElem_append_left hlt]; exact hsector⟩
      have hlen : (before ++ [e]).length = before.length + 1 := by simp
      rw [← hlen] at h
      obtain ⟨hnone, hok', hlt⟩ := ih _ hnext.1 (by omega) h
      rw [List.append_assoc, List.singleton_append] at hok' hlt
      refine ⟨List.forall_mem_cons.mpr ⟨by simpa using hhas, hnone⟩, hok', ?_⟩
      rw [List.length_append, List.length_cons] at hlt ⊢
      omega

end Scan

/-! ### Replacing a page -/

section Replace

variable {F : Faults} {G : CacheGeometry} {c : Cache} {k : ℕ}

/-- The bytes that were to be written are the page's, or anything; all others are as before. -/
theorem discWriteSectors_bytes (disc : Disc) (e : CacheEntry) (a : ℕ) :
    ((discWriteSectors F G disc e.sector e.count e.cache).1 = true → a ∈ (e.page G).span →
      (discWriteSectors F G disc e.sector e.count e.cache).2.bytes a = (e.page G).data a) ∧
    (a ∉ (e.page G).span →
      (discWriteSectors F G disc e.sector e.count e.cache).2.bytes a = disc.bytes a) := by
  rw [mem_span, discWriteSectors]
  cases hwrite : F.write disc.writes with
  | none =>
    refine ⟨fun _ ha => ?_, fun ha => ?_⟩
    · show patch _ _ (slice _ _ _) a = _
      rw [patch_slice, if_pos ha, Nat.zero_add]
      rfl
    · show patch _ _ (slice _ _ _) a = _
      rw [patch_slice, if_neg ha]
  | some junk =>
    refine ⟨fun hok => absurd hok Bool.false_ne_true, fun ha => ?_⟩
    show patch _ _ (slice _ _ _) a = _
    rw [patch_slice, if_neg ha]

/-- A write that is not among those that fail succeeds. -/
theorem discWriteSectors_ok {disc : Disc} (h : F.write disc.writes = none) (sector count : ℕ)
    (buffer : ℕ → UInt8) : (discWriteSectors F G disc sector count buffer).1 = true := by
  rw [discWriteSectors, h]

/-- A write is counted, whether it succeeds or not, so the failures are those of certain writes of
the run. -/
theorem discWriteSectors_writes (disc : Disc) (sector count : ℕ) (buffer : ℕ → UInt8) :
    (discWriteSectors F G disc sector count buffer).2.writes = disc.writes + 1 := by
  rw [discWriteSectors]
  cases F.write disc.writes with
  | none => rfl
  | some junk => rfl

/-- The pages after one entry was written: that of the entry is the new one, and the others are as
before. -/
theorem page_setEntry {e : CacheEntry} (hk : k < c.cacheEntries.length) (i : ℕ) :
    ((c.setEntry k e).entry i).page G = if i = k then e.page G else (c.entry i).page G := by
  split
  · rename_i hi
    rw [hi, entry_setEntry_self hk]
  · rename_i hi
    rw [entry_setEntry_of_ne hi]

/-- The entries are of the two kinds after a transfer, which does not change them. -/
theorem Cache.EntriesOk.setDisc (h : c.EntriesOk G) (disc : Disc) : (c.setDisc disc).EntriesOk G :=
  ⟨h.nonempty, h.entries⟩

/-- They are also after an entry was written that is of one of the kinds. -/
theorem Cache.EntriesOk.setEntry (h : c.EntriesOk G) {e : CacheEntry} (he : e.IsFree ∨ e.Loaded G)
    (hk : k < c.cacheEntries.length) : (c.setEntry k e).EntriesOk G := by
  refine ⟨(length_setEntry c k e).symm ▸ h.nonempty, fun i hi => ?_⟩
  rw [length_setEntry] at hi
  by_cases hik : i = k
  · rw [hik, entry_setEntry_self hk]
    exact he
  · rw [entry_setEntry_of_ne hik]
    exact h.entries i hi

/-- A loaded entry may be used: the time is no part of what an entry has to be. -/
theorem Cache.EntriesOk.touch (h : c.EntriesOk G) {e : CacheEntry} (he : e.Loaded G)
    (hk : k < c.cacheEntries.length) : (c.touch k e).EntriesOk G := by
  have hset := h.setEntry (e := { e with lastAccess := c.accessTime })
    (Or.inr ⟨he.aligned, he.inside, he.count⟩) hk
  exact ⟨hset.nonempty, hset.entries⟩

/-- **A page is written back**, and counts as clean then: the invariant of the cache holds, and what
is seen through it does not change. -/
theorem Cache.Inv.writeBack (h : c.Inv G) (hk : k < c.cacheEntries.length) {disc : Disc}
    (hin : ∀ a ∈ ((c.entry k).page G).span, disc.bytes a = ((c.entry k).page G).data a)
    (hout : ∀ a ∉ ((c.entry k).page G).span, disc.bytes a = c.disc.bytes a) :
    ((c.setDisc disc).setEntry k (c.entry k).clean).Inv G ∧
      ((c.setDisc disc).setEntry k (c.entry k).clean).view G = c.view G := by
  have hpage : ∀ i, (((c.setDisc disc).setEntry k (c.entry k).clean).pages G).page i =
      if i = k then (c.entry k).clean.page G else (c.entry i).page G := fun i =>
    page_setEntry (c := c.setDisc disc) hk i
  have hstep : (((c.setDisc disc).setEntry k (c.entry k).clean).pages G).Coherent ∧
      (((c.setDisc disc).setEntry k (c.entry k).clean).pages G).view = (c.pages G).view := by
    refine h.coherent.writeBack (k := k) (fun i => ?_) (fun i => ?_) (fun i hi => ?_) hin hout
    · rw [hpage]
      split
      · rename_i hi
        rw [hi]
        rfl
      · rfl
    · rw [hpage]
      split
      · rename_i hi
        rw [hi]
        rfl
      · rfl
    · rw [hpage, if_neg hi]
      rfl
  have hentry : (c.entry k).clean.IsFree ∨ (c.entry k).clean.Loaded G := by
    rcases h.entries k hk with hfree | hloaded
    · exact Or.inl ⟨hfree.sector, hfree.count, rfl⟩
    · exact Or.inr ⟨hloaded.aligned, hloaded.inside, hloaded.count⟩
  exact ⟨⟨(h.toEntriesOk.setDisc disc).setEntry hentry hk, hstep.1⟩, hstep.2⟩

/-- **A write that went wrong** leaves the page dirty, so whatever it left on the card is not seen.
-/
theorem Cache.Inv.spoil (h : c.Inv G) (hdirty : (c.entry k).dirty = true) {disc : Disc}
    (hout : ∀ a ∉ ((c.entry k).page G).span, disc.bytes a = c.disc.bytes a) :
    (c.setDisc disc).Inv G ∧ (c.setDisc disc).view G = c.view G := by
  have hstep : ((c.setDisc disc).pages G).Coherent ∧
      ((c.setDisc disc).pages G).view = (c.pages G).view :=
    h.coherent.spoil (k := k) rfl hdirty hout
  exact ⟨⟨h.toEntriesOk.setDisc disc, hstep.1⟩, hstep.2⟩

/-- **The page that is replaced** is clean then, and nothing else is seen.  This fails only where
a page is dirty and writing it does. -/
structure EvictSpec (F : Faults) (G : CacheGeometry) (k : ℕ) (c : Cache) (r : Bool × Cache) : Prop where
  inv : r.2.Inv G
  view : r.2.view G = c.view G
  clean : r.1 = true → (r.2.entry k).dirty = false
  sectors : ∀ i, (r.2.entry i).sector = (c.entry i).sector ∧ (r.2.entry i).count = (c.entry i).count
  length : r.2.cacheEntries.length = c.cacheEntries.length
  writes : c.disc.writes ≤ r.2.disc.writes
  wrote : r.1 = false → c.disc.writes < r.2.disc.writes
  ok : F.write c.disc.writes = none ∨ c.Clean → r.1 = true
  keepsClean : c.Clean → r.2.Clean
  dirtyOnly : ∀ i, (r.2.entry i).dirty = true → (c.entry i).dirty = true

/-- The page that is replaced is written back first if it is dirty, and a free entry never is.
There are three cases: the write succeeds, it fails and the page stays dirty over what is then on
the card, or there is nothing to write. -/
theorem evictPage_spec (h : c.Inv G) (hk : k < c.cacheEntries.length) {foundFree : Bool}
    (hfree : foundFree = true → (c.entry k).sector = cacheFree) :
    EvictSpec F G k c (evictPage F G c foundFree k) := by
  by_cases hdirty : (c.entry k).dirty = true
  · have hnot : foundFree = false := by
      rw [Bool.eq_false_iff]
      intro hfound
      have hsector := hfree hfound
      rcases h.entries k hk with hentry | hentry
      · rw [hentry.dirty] at hdirty
        cases hdirty
      · have hinside := hentry.inside
        have hfits := G.fits
        have hvalue : cacheFree = 2 ^ 32 - 1 := rfl
        have hpage : sectorsPerPage = 8 := rfl
        omega
    have hnotClean : ¬ c.Clean := fun hclean => by
      rw [hclean k] at hdirty
      cases hdirty
    have hbytes := discWriteSectors_bytes (F := F) (G := G) c.disc (c.entry k)
    have hlater : c.disc.writes < (discWriteSectors F G c.disc (c.entry k).sector (c.entry k).count
        (c.entry k).cache).2.writes := by
      rw [discWriteSectors_writes]
      exact Nat.lt_succ_self _
    rw [evictPage, if_pos (by rw [hnot, hdirty]; rfl)]
    dsimp only
    split
    · -- the page is written back
      rename_i hok
      have hstep := h.writeBack hk (fun a ha => (hbytes a).1 hok ha) fun a ha => (hbytes a).2 ha
      have hentry : ∀ i, ((c.setDisc (discWriteSectors F G c.disc (c.entry k).sector
          (c.entry k).count (c.entry k).cache).2).setEntry k (c.entry k).clean).entry i =
          if i = k then (c.entry k).clean else c.entry i := fun i =>
        entry_setEntry (c := c.setDisc _) hk i
      refine ⟨hstep.1, hstep.2, fun _ => ?_, fun i => ?_, length_setEntry _ _ _, ?_,
        fun hfail => (Bool.false_ne_true (hfail.symm.trans hok)).elim, fun _ => hok,
        fun hclean => absurd hclean hnotClean, fun i hi => ?_⟩
      · rw [hentry, if_pos rfl]
        rfl
      · rw [hentry]
        split
        · rename_i hi
          rw [hi]
          exact ⟨rfl, rfl⟩
        · exact ⟨rfl, rfl⟩
      · exact Nat.le_of_lt hlater
      · rw [hentry] at hi
        split at hi
        · cases hi
        · exact hi
    · -- writing it back goes wrong, and it stays
      rename_i hfail
      have hstep := h.spoil hdirty fun a ha => (hbytes a).2 ha
      refine ⟨hstep.1, hstep.2, fun hok => absurd hok hfail, fun i => ⟨rfl, rfl⟩, rfl,
        Nat.le_of_lt hlater, fun _ => hlater, fun hok => ?_, fun hclean => absurd hclean hnotClean,
        fun i hi => hi⟩
      rcases hok with hwrite | hclean
      · exact discWriteSectors_ok hwrite _ _ _
      · exact absurd hclean hnotClean
  · have hclean : (c.entry k).dirty = false := Bool.eq_false_iff.mpr hdirty
    rw [evictPage, if_neg (by rw [hclean, Bool.and_false]; exact Bool.false_ne_true)]
    exact ⟨h, rfl, fun _ => hclean, fun i => ⟨rfl, rfl⟩, rfl, Nat.le_refl _,
      fun hfail => (Bool.false_ne_true hfail.symm).elim, fun _ => rfl, id, fun i hi => hi⟩

/-! ### Filling a page -/

/-- The page of a sector. -/
def CacheGeometry.base (sector : ℕ) : ℕ := sector / sectorsPerPage * sectorsPerPage

/-- The size of the page, as the code computes it with numbers of 32 bits. -/
theorem fillPage_count {sector : ℕ} (hsector : sector < G.endOfPartition) :
    (min ((CacheGeometry.base sector + sectorsPerPage) % 2 ^ 32) G.endOfPartition +
        (2 ^ 32 - CacheGeometry.base sector)) % 2 ^ 32 =
      min sectorsPerPage (G.endOfPartition - CacheGeometry.base sector) := by
  have hfits := G.fits
  have hpage : sectorsPerPage = 8 := rfl
  have hbase : CacheGeometry.base sector ≤ sector := Nat.div_mul_le_self sector sectorsPerPage
  rw [Nat.mod_eq_of_lt (by omega : CacheGeometry.base sector + sectorsPerPage < 2 ^ 32)]
  have hsum : min (CacheGeometry.base sector + sectorsPerPage) G.endOfPartition +
      (2 ^ 32 - CacheGeometry.base sector) =
      min sectorsPerPage (G.endOfPartition - CacheGeometry.base sector) + 2 ^ 32 := by omega
  rw [hsum, Nat.add_mod_right, Nat.mod_eq_of_lt (by omega)]

/-- **Pages are aligned**, so that two that share a sector are the same. -/
theorem CacheEntry.Loaded.base_eq {e : CacheEntry} (h : e.Loaded G) {sector : ℕ}
    (hle : e.sector ≤ sector) (hlt : sector < e.sector + e.count) :
    e.sector = CacheGeometry.base sector := by
  have haligned := h.aligned
  have hcount := h.count
  have hpage : sectorsPerPage = 8 := rfl
  rw [CacheGeometry.base]
  rw [hpage] at haligned hcount ⊢
  omega

/-- The entry with the sectors of its page. -/
def CacheEntry.filled (e : CacheEntry) (G : CacheGeometry) (bytes : ℕ → UInt8) (sector : ℕ) :
    CacheEntry :=
  let base := CacheGeometry.base sector
  let count := min sectorsPerPage (G.endOfPartition - base)
  { e with
    sector := base
    count := count
    cache := patch e.cache 0 (slice bytes (base * G.bytesPerSector) (count * G.bytesPerSector)) }

/-- What an entry is filled with is a page of the partition, at a multiple of its size and cut at
the end of the partition. -/
theorem CacheEntry.filled_loaded (e : CacheEntry) (bytes : ℕ → UInt8) {sector : ℕ}
    (hsector : sector < G.endOfPartition) : (e.filled G bytes sector).Loaded G where
  aligned := Nat.mul_mod_left _ _
  inside := Nat.lt_of_le_of_lt (Nat.div_mul_le_self sector sectorsPerPage) hsector
  count := rfl

/-- The sector that was looked for is in the page that is filled for it. -/
theorem CacheEntry.filled_hasSector (e : CacheEntry) (bytes : ℕ → UInt8) {sector : ℕ}
    (hsector : sector < G.endOfPartition) : (e.filled G bytes sector).hasSector sector = true := by
  rw [(e.filled_loaded bytes hsector).hasSector_iff]
  show CacheGeometry.base sector ≤ sector ∧ sector < CacheGeometry.base sector + min sectorsPerPage _
  have hpage : sectorsPerPage = 8 := rfl
  rw [CacheGeometry.base, hpage]
  omega

/-- A page that was filled has the bytes of the card in all of its sectors. -/
theorem CacheEntry.filled_data (e : CacheEntry) (bytes : ℕ → UInt8) {sector a : ℕ}
    (ha : a ∈ ((e.filled G bytes sector).page G).span) :
    ((e.filled G bytes sector).page G).data a = bytes a := by
  rw [mem_span] at ha
  have hlow : CacheGeometry.base sector * G.bytesPerSector ≤ a := ha.1
  have hhigh : a < CacheGeometry.base sector * G.bytesPerSector +
      min sectorsPerPage (G.endOfPartition - CacheGeometry.base sector) * G.bytesPerSector := ha.2
  show patch e.cache 0 (slice bytes _ _) (a - CacheGeometry.base sector * G.bytesPerSector) = _
  rw [patch_slice, if_pos (by omega)]
  congr 1
  omega

/-- The page that is filled, when the card can be read. -/
theorem fillPage_eq (hreads : ∀ n, F.read n = none) {sector : ℕ}
    (hsector : sector < G.endOfPartition) (c : Cache) (k : ℕ) :
    fillPage F G c k sector = (true, (c.setDisc { c.disc with reads := c.disc.reads + 1 }).touch k
      ((c.entry k).filled G c.disc.bytes sector)) := by
  have hcount := fillPage_count (G := G) hsector
  rw [CacheGeometry.base] at hcount
  simp only [fillPage, discReadSectors, hreads, hcount, if_true]
  rfl

/-- **The page is filled** with its sectors. -/
structure FillSpec (G : CacheGeometry) (k sector : ℕ) (c : Cache) (r : Bool × Cache) : Prop where
  ok : r.1 = true
  inv : r.2.Inv G
  view : r.2.view G = c.view G
  length : r.2.cacheEntries.length = c.cacheEntries.length
  loaded : (r.2.entry k).Loaded G
  hasSector : (r.2.entry k).hasSector sector = true
  disc : r.2.disc.bytes = c.disc.bytes
  writes : r.2.disc.writes = c.disc.writes
  others : ∀ i ≠ k, r.2.entry i = c.entry i
  clean : (r.2.entry k).dirty = false

/-- Filling a clean page with the sectors around one that no entry has changes nothing that is seen:
what comes into the page is on the card, and no other page has any of it, since pages are aligned.
-/
theorem fillPage_spec (hreads : ∀ n, F.read n = none) (h : c.Inv G) (hk : k < c.cacheEntries.length)
    (hclean : (c.entry k).dirty = false) {sector : ℕ} (hsector : sector < G.endOfPartition)
    (hnone : ∀ i < c.cacheEntries.length, (c.entry i).hasSector sector = false) :
    FillSpec G k sector c (fillPage F G c k sector) := by
  rw [fillPage_eq hreads hsector]
  have hloaded := (c.entry k).filled_loaded c.disc.bytes hsector
  set disc : Disc := { c.disc with reads := c.disc.reads + 1 } with hdisc
  set e := (c.entry k).filled G c.disc.bytes sector with he
  have hk' : k < (c.setDisc disc).cacheEntries.length := hk
  have hself : ((c.setDisc disc).touch k e).entry k =
      { e with lastAccess := (c.setDisc disc).accessTime } := entry_touch_self hk'
  have hothers : ∀ i ≠ k, ((c.setDisc disc).touch k e).entry i = c.entry i := fun i hi =>
    entry_touch_of_ne hi
  have hself' : (((c.setDisc disc).touch k e).entry k).page G = e.page G := by
    rw [hself]
    rfl
  have hfree : ∀ a ∈ (e.page G).span, ∀ i ≠ k, a ∉ ((c.entry i).page G).span := by
    intro a ha i _ hai
    by_cases hi : i < c.cacheEntries.length
    · rcases h.entries i hi with hentry | hentry
      · exact notMem_span_free hentry.count hai
      · -- pages are aligned, so that the entry would have the sector
        have hbase := hentry.base_eq hai.1 hai.2
        rw [← hloaded.base_eq ha.1 ha.2] at hbase
        have hhas : (c.entry i).hasSector sector = true := by
          have hmine := (c.entry k).filled_hasSector c.disc.bytes hsector
          rw [hloaded.hasSector_iff] at hmine
          rw [hentry.hasSector_iff, hentry.count, hbase, ← hloaded.count]
          exact hmine
        rw [hnone i hi] at hhas
        cases hhas
    · rw [entry_of_le (Nat.le_of_not_lt hi)] at hai
      exact notMem_span_free rfl hai
  have hstep : (((c.setDisc disc).touch k e).pages G).Coherent ∧
      (((c.setDisc disc).touch k e).pages G).view = (c.pages G).view := by
    refine h.coherent.load (k := k) hclean (fun i hi => ?_) rfl (fun a ha => ?_) fun a ha => ?_
    · exact congrArg (CacheEntry.page G) (hothers i hi)
    · exact (congrArg (fun p => p.data a) hself').trans
        ((c.entry k).filled_data c.disc.bytes (hself' ▸ ha))
    · exact hfree a (hself' ▸ ha)
  refine ⟨rfl, ⟨(h.toEntriesOk.setDisc disc).touch hloaded hk', hstep.1⟩, hstep.2, length_touch _ _ _,
    ?_, ?_, rfl, rfl, hothers, ?_⟩
  · rw [hself]
    exact ⟨hloaded.aligned, hloaded.inside, hloaded.count⟩
  · rw [hself]
    exact (c.entry k).filled_hasSector c.disc.bytes hsector
  · rw [hself]
    exact hclean

end Replace

/-! ### Looking for a page -/

section Page

variable {F : Faults} {G : CacheGeometry} {c : Cache} {sector : ℕ}

/-- For an index of the cache the entry is the element of the list. -/
theorem entry_eq_getElem {i : ℕ} (hi : i < c.cacheEntries.length) : c.entry i = c.cacheEntries[i] := by
  rw [Cache.entry, List.getD_eq_getElem?_getD, List.getElem?_eq_getElem hi, Option.getD_some]

/-- The entry that has the sector, if the loop ends with one. -/
theorem scanPages_found {scan : PageScan} {i : ℕ} (h : scanPages sector 0 c.cacheEntries scan = .inl i) :
    i < c.cacheEntries.length ∧ (c.entry i).hasSector sector = true := by
  obtain ⟨k, hk, rfl, hhas⟩ := scanPages_inl h
  rw [Nat.zero_add, entry_eq_getElem hk]
  exact ⟨hk, hhas⟩

/-- The entry to replace, if the loop does not find the sector: a free one if there is any, and
otherwise the one that was used longest ago. -/
theorem scanPages_notFound {scan : PageScan} (hpos : 0 < c.cacheEntries.length)
    (h : scanPages sector 0 c.cacheEntries ⟨false, 0, 2 ^ 32 - 1⟩ = .inr scan) :
    scan.oldUsed < c.cacheEntries.length ∧
      (scan.foundFree = true → (c.entry scan.oldUsed).sector = cacheFree) ∧
      ∀ i < c.cacheEntries.length, (c.entry i).hasSector sector = false := by
  obtain ⟨hnone, hok, hused⟩ := scanPages_inr []
    (fun hfree => absurd hfree Bool.false_ne_true) (Nat.zero_le _) h
  rw [List.nil_append] at hok hused
  have hlt : scan.oldUsed < c.cacheEntries.length := by
    rcases hused with hzero | hlt
    · rw [hzero]
      exact hpos
    · exact hlt
  refine ⟨hlt, fun hfree => ?_, fun i hi => ?_⟩
  · obtain ⟨_, hsector⟩ := hok hfree
    rw [entry_eq_getElem hlt]
    exact hsector
  · rw [entry_eq_getElem hi]
    exact hnone _ (List.getElem_mem hi)

/-- **What is seen is kept.**  That an operation fails takes a dirty page, and a write to the card
that fails during this operation. -/
structure Cache.Kept (F : Faults) (G : CacheGeometry) (c : Cache) (ok : Prop) (c' : Cache) : Prop where
  inv : c'.Inv G
  view : c'.view G = c.view G
  length : c'.cacheEntries.length = c.cacheEntries.length
  writes : c.disc.writes ≤ c'.disc.writes
  ok : c.WritesGo F c' ∨ c.Clean → ok
  clean : c.Clean → c'.Clean

/-- **Looking for a page** changes nothing that is seen. -/
structure PageSpec (F : Faults) (G : CacheGeometry) (sector : ℕ) (c : Cache) (r : Option ℕ × Cache) :
    Prop extends c.Kept F G (∃ i, r.1 = some i) r.2 where
  found : ∀ i, r.1 = some i → i < r.2.cacheEntries.length ∧ (r.2.entry i).Loaded G ∧
    (r.2.entry i).sector ≤ sector ∧ sector < (r.2.entry i).sector + (r.2.entry i).count

/-- An entry that has a sector is loaded, since the loop never finds a free one. -/
theorem Cache.Inv.loaded_of_hasSector (h : c.Inv G) {i : ℕ} (hi : i < c.cacheEntries.length)
    (hhas : (c.entry i).hasSector sector = true) : (c.entry i).Loaded G := by
  rcases h.entries i hi with hfree | hloaded
  · rw [hfree.hasSector] at hhas
    cases hhas
  · exact hloaded

/-- The three ways of `_FAT_cache_getPage`: the page is there and only its time changes; another
page cannot be written back, and the call fails; or it can, and is replaced by the one with the
sector. -/
theorem getPage_spec (hreads : ∀ n, F.read n = none) (h : c.Inv G) (hsector : sector < G.endOfPartition) :
    PageSpec F G sector c (getPage F G c sector) := by
  rw [getPage]
  split
  · -- the page is there
    rename_i i hscan
    obtain ⟨hi, hhas⟩ := scanPages_found hscan
    have hloaded := h.loaded_of_hasSector hi hhas
    have hpages : (c.touch i (c.entry i)).pages G = c.pages G := pages_congr rfl (page_touch c i)
    have hcoherent : ((c.touch i (c.entry i)).pages G).Coherent := by
      rw [hpages]
      exact h.coherent
    have hself := entry_touch_self (e := c.entry i) hi
    refine ⟨⟨⟨h.toEntriesOk.touch hloaded hi, hcoherent⟩, congrArg WriteBack.view hpages,
      length_touch _ _ _, Nat.le_refl _, fun _ => ⟨i, rfl⟩, fun hclean k => ?_⟩, fun j hj => ?_⟩
    · exact (congrArg CachePage.dirty (page_touch (G := G) c i k)).trans (hclean k)
    · cases hj
      rw [length_touch, hself]
      exact ⟨hi, ⟨hloaded.aligned, hloaded.inside, hloaded.count⟩, hloaded.hasSector_iff.mp hhas⟩
  · -- a page is replaced
    rename_i scan hscan
    obtain ⟨hused, hfree, hnone⟩ := scanPages_notFound h.nonempty hscan
    have hevict := evictPage_spec (F := F) h hused hfree
    dsimp only
    split
    · rename_i hfail
      rw [Bool.not_eq_true'] at hfail
      refine ⟨⟨hevict.inv, hevict.view, hevict.length, hevict.writes, fun hok => ?_,
        hevict.keepsClean⟩, fun i hi => absurd hi (Option.some_ne_none i).symm⟩
      have hevicted := hevict.ok (hok.imp_left fun hwrites =>
        hwrites _ (Nat.le_refl _) (hevict.wrote hfail))
      rw [hfail] at hevicted
      cases hevicted
    · rename_i hok
      rw [Bool.not_eq_true', Bool.not_eq_false] at hok
      have hnone' : ∀ i < (evictPage F G c scan.foundFree scan.oldUsed).2.cacheEntries.length,
          ((evictPage F G c scan.foundFree scan.oldUsed).2.entry i).hasSector sector = false := by
        intro i hi
        rw [hevict.length] at hi
        rw [CacheEntry.hasSector, (hevict.sectors i).1, (hevict.sectors i).2]
        exact hnone i hi
      have hfill := fillPage_spec hreads hevict.inv (hevict.length.symm ▸ hused) (hevict.clean hok)
        hsector hnone'
      have hlength := hfill.length.trans hevict.length
      refine ⟨⟨hfill.inv, hfill.view.trans hevict.view, hlength, hfill.writes ▸ hevict.writes,
        fun _ => ?_, fun hclean k => ?_⟩, fun i hi => ?_⟩
      · exact ⟨scan.oldUsed, by rw [if_pos hfill.ok]⟩
      · by_cases hk : k = scan.oldUsed
        · rw [hk]
          exact hfill.clean
        · rw [hfill.others k hk]
          exact hevict.keepsClean hclean k
      · rw [if_pos hfill.ok, Option.some.injEq] at hi
        subst hi
        exact ⟨hlength.symm ▸ hused, hfill.loaded, hfill.loaded.hasSector_iff.mp hfill.hasSector⟩

end Page

end RrLauncher
