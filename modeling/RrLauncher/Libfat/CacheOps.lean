/-
# What the operations on the cache do to what is seen

Every operation looks for pages, and copies from or into them.  So it reads what is seen
(`cacheReadSectors_spec`, `cacheReadPartialSector_spec`), or changes it to what is written
(`cacheWriteSectors_spec`, `cacheWritePartialSector_spec`); flushing changes nothing, and the
card is then what is seen (`cacheFlush_spec`).
-/

import RrLauncher.Libfat.CacheView

namespace RrLauncher

open Cells (slice patch slice_congr slice_add patch_append patch_shift patch_of_outside)

/-! ### The bytes of a page -/

section PageBytes

variable {G : CacheGeometry} {c : Cache} {i a n : ℕ}

/-- The place of a byte in the page of its sector. -/
theorem CacheEntry.offset_eq {e : CacheEntry} {sector : ℕ} (h : e.sector ≤ sector) (offset : ℕ) :
    (sector - e.sector) * G.bytesPerSector + offset =
      sector * G.bytesPerSector + offset - e.sector * G.bytesPerSector := by
  have hmul := Nat.mul_le_mul_right G.bytesPerSector h
  rw [Nat.sub_mul]
  omega

/-- A place in one of the sectors of the page. -/
theorem CacheEntry.start_le {e : CacheEntry} {sector : ℕ} (h : e.sector ≤ sector) (offset : ℕ) :
    e.sector * G.bytesPerSector ≤ sector * G.bytesPerSector + offset :=
  Nat.le_add_right_of_le (Nat.mul_le_mul_right _ h)

/-- A part of a sector that the page has ends in the page. -/
theorem CacheEntry.le_end {e : CacheEntry} {sector offset size : ℕ} (h : sector < e.sector + e.count)
    (hsize : offset + size ≤ G.bytesPerSector) :
    sector * G.bytesPerSector + offset + size ≤ (e.sector + e.count) * G.bytesPerSector := by
  have hmul : (sector + 1) * G.bytesPerSector ≤ (e.sector + e.count) * G.bytesPerSector :=
    Nat.mul_le_mul_right _ h
  rw [Nat.add_mul, Nat.one_mul] at hmul
  omega

/-- **What is read from a page** is what is seen. -/
theorem Cache.Inv.slice_page (h : c.Inv G) (hlow : (c.entry i).sector * G.bytesPerSector ≤ a)
    (hhigh : a + n ≤ ((c.entry i).sector + (c.entry i).count) * G.bytesPerSector) :
    slice (c.entry i).cache (a - (c.entry i).sector * G.bytesPerSector) n = slice (c.view G) a n := by
  rw [Nat.add_mul] at hhigh
  refine slice_congr fun j hj => ?_
  have hmem : a + j ∈ ((c.entry i).page G).span := mem_span.mpr ⟨by omega, by omega⟩
  have hview : c.view G (a + j) = (c.entry i).cache (a + j - (c.entry i).sector * G.bytesPerSector) :=
    h.coherent.view_of_mem (k := i) hmem
  rw [hview]
  congr 1
  omega

/-- **What is written into a page** is seen then, in place of what was there, and nothing else that
is seen changes. The page is dirty. -/
theorem Cache.Inv.store (h : c.Inv G) (hi : i < c.cacheEntries.length) (hloaded : (c.entry i).Loaded G)
    (bytes : List UInt8) (hlow : (c.entry i).sector * G.bytesPerSector ≤ a)
    (hhigh : a + bytes.length ≤ ((c.entry i).sector + (c.entry i).count) * G.bytesPerSector) :
    (c.store i (a - (c.entry i).sector * G.bytesPerSector) bytes).Inv G ∧
      (c.store i (a - (c.entry i).sector * G.bytesPerSector) bytes).view G =
        patch (c.view G) a bytes := by
  rw [Nat.add_mul] at hhigh
  set start := (c.entry i).sector * G.bytesPerSector with hstart
  set e : CacheEntry := (c.entry i).stored (a - start) bytes with he
  have hpage : ∀ k, ((c.setEntry i e).entry k).page G =
      if k = i then e.page G else (c.entry k).page G := page_setEntry hi
  have hself : ((c.setEntry i e).entry i).page G = e.page G := by rw [hpage, if_pos rfl]
  have hstep := h.coherent.store ((c.setEntry i e).pages G) (k := i) (fun k => ?_)
    (fun k hk => ?_) rfl (congrArg CachePage.dirty hself)
  · refine ⟨⟨h.toEntriesOk.setEntry (Or.inr ⟨hloaded.aligned, hloaded.inside, hloaded.count⟩) hi,
      hstep.1⟩, funext fun b => ?_⟩
    by_cases hb : b ∈ ((c.entry i).page G).span
    · -- in the page, where the bytes that are not written were seen before
      refine (hstep.2.1 b hb).trans ((congrArg (fun p => p.data b) hself).trans ?_)
      have hseen : c.view G b = (c.entry i).cache (b - start) := h.coherent.view_of_mem (k := i) hb
      have hb' := mem_span.mp hb
      show patch (c.entry i).cache (a - start) bytes (b - start) = _
      exact patch_shift hseen hlow hb'.1
    · -- outside, where nothing is written
      have hb' := mt mem_span.mpr hb
      refine (hstep.2.2 b hb).trans (patch_of_outside _ ?_).symm
      omega
  · show (((c.setEntry i e).entry k).page G).span = ((c.entry k).page G).span
    rw [hpage]
    split
    · rename_i hk
      rw [hk]
      rfl
    · rfl
  · show ((c.setEntry i e).entry k).page G = (c.entry k).page G
    rw [hpage, if_neg hk]

end PageBytes

/-! ### Reading -/

section Reading

variable {F : Faults} {G : CacheGeometry} {c : Cache}

/-- Where no write fails on the whole way, none fails on the second part of it. -/
theorem Cache.WritesGo.later {c' c'' : Cache} (h : c.WritesGo F c'')
    (hle : c.disc.writes ≤ c'.disc.writes) : c'.WritesGo F c'' := fun n hn =>
  h n (hle.trans hn)

/-- Two operations, one after the other: what is seen is kept, and the second one succeeds where no
write fails during the two. -/
theorem Cache.Kept.trans {ok ok' : Prop} {c' c'' : Cache} (h : c.Kept F G ok c')
    (h' : c'.Kept F G ok' c'') : c.Kept F G ok' c'' where
  inv := h'.inv
  view := h'.view.trans h.view
  length := h'.length.trans h.length
  writes := h.writes.trans h'.writes
  ok hok := h'.ok (hok.imp (fun hwrites => hwrites.later h.writes) h.clean)
  clean hclean := h'.clean (h.clean hclean)

/-- By induction on the fuel: each turn copies the sectors of one page behind what is in the buffer,
and goes on behind them.  A page that has the sector has one at least, so `numSectors` turns are
enough, and a turn fails only where looking for its page does. -/
theorem readSectorsLoop_spec (hreads : ∀ n, F.read n = none) (fuel sector numSectors : ℕ)
    (dest : List UInt8) (h : c.Inv G) (hend : sector + numSectors ≤ G.endOfPartition)
    (hfuel : numSectors < fuel) :
    ((readSectorsLoop F G fuel c sector numSectors dest).1 = true →
      (readSectorsLoop F G fuel c sector numSectors dest).2.1 =
        dest ++ slice (c.view G) (sector * G.bytesPerSector) (numSectors * G.bytesPerSector)) ∧
    c.Kept F G ((readSectorsLoop F G fuel c sector numSectors dest).1 = true)
      (readSectorsLoop F G fuel c sector numSectors dest).2.2 := by
  induction fuel generalizing c sector numSectors dest with
  | zero => exact absurd hfuel (Nat.not_lt_zero _)
  | succ fuel ih =>
    by_cases hzero : numSectors = 0
    · rw [readSectorsLoop, if_pos hzero, hzero, Nat.zero_mul, Cells.slice_zero, List.append_nil]
      exact ⟨fun _ => rfl, h, rfl, rfl, Nat.le_refl _, fun _ => rfl, id⟩
    · have hpage := getPage_spec hreads h (show sector < G.endOfPartition by omega)
      rw [readSectorsLoop, if_neg hzero]
      rcases hget : getPage F G c sector with ⟨found, c₁⟩
      rw [hget] at hpage
      cases found with
      | none =>
        refine ⟨fun hfail => absurd hfail Bool.false_ne_true, hpage.inv, hpage.view, hpage.length,
          hpage.writes, fun hok => ?_, hpage.clean⟩
        obtain ⟨i, hi⟩ := hpage.ok hok
        cases hi
      | some i =>
        obtain ⟨hi, hloaded, hle, hlt⟩ := hpage.found i rfl
        dsimp only at hi hloaded hle hlt ⊢
        set secsToRead := min ((c₁.entry i).count - (sector - (c₁.entry i).sector)) numSectors with hsecs
        have hsplit : numSectors = secsToRead + (numSectors - secsToRead) := by omega
        have hstep := ih _ _ (dest ++ slice (c₁.entry i).cache
          ((sector - (c₁.entry i).sector) * G.bytesPerSector) (secsToRead * G.bytesPerSector))
          hpage.inv (show sector + secsToRead + (numSectors - secsToRead) ≤ _ by omega)
          (show numSectors - secsToRead < fuel by omega)
        refine ⟨fun hok => ?_, hpage.toKept.trans hstep.2⟩
        have hoffset := (CacheEntry.offset_eq (G := G) hle 0)
        rw [Nat.add_zero, Nat.add_zero] at hoffset
        have hhigh : sector * G.bytesPerSector + secsToRead * G.bytesPerSector ≤
            ((c₁.entry i).sector + (c₁.entry i).count) * G.bytesPerSector := by
          rw [← Nat.add_mul]
          exact Nat.mul_le_mul_right _ (by omega)
        rw [hstep.1 hok, hoffset, hpage.inv.slice_page (Nat.mul_le_mul_right _ hle) hhigh, hpage.view,
          List.append_assoc, Nat.add_mul, ← slice_add, ← Nat.add_mul, ← hsplit]

/-- **Whole sectors** are read as they are seen through the cache, page by page. -/
theorem cacheReadSectors_spec (hreads : ∀ n, F.read n = none) {sector numSectors : ℕ} (h : c.Inv G)
    (hend : sector + numSectors ≤ G.endOfPartition) :
    ((cacheReadSectors F G c sector numSectors).1 = true →
      (cacheReadSectors F G c sector numSectors).2.1 =
        slice (c.view G) (sector * G.bytesPerSector) (numSectors * G.bytesPerSector)) ∧
    c.Kept F G ((cacheReadSectors F G c sector numSectors).1 = true)
      (cacheReadSectors F G c sector numSectors).2.2 :=
  readSectorsLoop_spec hreads _ _ _ [] h hend (Nat.lt_succ_self _)

/-- **A part of a sector** is read as it is seen. -/
theorem cacheReadPartialSector_spec (hreads : ∀ n, F.read n = none) {sector offset size : ℕ}
    (h : c.Inv G) (hsector : sector < G.endOfPartition) (hsize : offset + size ≤ G.bytesPerSector) :
    (∀ bytes, (cacheReadPartialSector F G c sector offset size).1 = some bytes →
      bytes = slice (c.view G) (sector * G.bytesPerSector + offset) size) ∧
    c.Kept F G (∃ bytes, (cacheReadPartialSector F G c sector offset size).1 = some bytes)
      (cacheReadPartialSector F G c sector offset size).2 := by
  have hpage := getPage_spec hreads h hsector
  rw [cacheReadPartialSector, if_neg (Nat.not_lt.mpr hsize)]
  rcases hget : getPage F G c sector with ⟨found, c₁⟩
  rw [hget] at hpage
  cases found with
  | none =>
    refine ⟨fun bytes hb => absurd hb (Option.some_ne_none bytes).symm, hpage.inv, hpage.view,
      hpage.length, hpage.writes, fun hok => ?_, hpage.clean⟩
    obtain ⟨i, hi⟩ := hpage.ok hok
    cases hi
  | some i =>
    obtain ⟨hi, hloaded, hle, hlt⟩ := hpage.found i rfl
    dsimp only at hi hloaded hle hlt ⊢
    refine ⟨fun bytes hb => ?_, hpage.inv, hpage.view, hpage.length, hpage.writes,
      fun _ => ⟨_, rfl⟩, hpage.clean⟩
    cases hb
    rw [CacheEntry.offset_eq hle, hpage.inv.slice_page (CacheEntry.start_le hle offset)
      (CacheEntry.le_end hlt hsize), hpage.view]

/-- **A value** of one, two or four bytes is read as it is seen through the cache, lowest byte
first. -/
theorem cacheReadLittleEndianValue_spec (hreads : ∀ n, F.read n = none) {sector offset numBytes : ℕ}
    (h : c.Inv G) (hsector : sector < G.endOfPartition) (hsize : offset + numBytes ≤ G.bytesPerSector)
    (hbytes : numBytes = 1 ∨ numBytes = 2 ∨ numBytes = 4) :
    (∀ value, (cacheReadLittleEndianValue F G c sector offset numBytes).1 = some value →
      value = u8arrayToValue (slice (c.view G) (sector * G.bytesPerSector + offset) numBytes)) ∧
    c.Kept F G (∃ value, (cacheReadLittleEndianValue F G c sector offset numBytes).1 = some value)
      (cacheReadLittleEndianValue F G c sector offset numBytes).2 := by
  have hread := cacheReadPartialSector_spec hreads h hsector hsize
  rw [cacheReadLittleEndianValue]
  rcases hpart : cacheReadPartialSector F G c sector offset numBytes with ⟨buf, c₁⟩
  rw [hpart] at hread
  cases buf with
  | none =>
    refine ⟨fun value hv => absurd hv (Option.some_ne_none value).symm, hread.2.inv, hread.2.view,
      hread.2.length, hread.2.writes, fun hok => ?_, hread.2.clean⟩
    obtain ⟨bytes, hb⟩ := hread.2.ok hok
    cases hb
  | some buf =>
    dsimp only
    rw [if_pos hbytes]
    refine ⟨fun value hv => ?_, hread.2.inv, hread.2.view, hread.2.length, hread.2.writes,
      fun _ => ⟨_, rfl⟩, hread.2.clean⟩
    cases hv
    rw [hread.1 buf rfl]

end Reading

/-! ### Writing -/

section Writing

variable {F : Faults} {G : CacheGeometry} {c : Cache}

/-- The buffer is as long as what is taken from it. -/
def BufferFits (buffer : Option (List UInt8)) (size : ℕ) : Prop :=
  ∀ bytes, buffer = some bytes → size ≤ bytes.length

/-- As many bytes are taken from a buffer as are asked for, if it is long enough; of `NULL` as many
zeros. -/
theorem length_bufferBytes {buffer : Option (List UInt8)} {size : ℕ} (h : BufferFits buffer size) :
    (bufferBytes buffer size).length = size := by
  cases buffer with
  | none => exact List.length_replicate
  | some bytes => exact (List.length_take_of_le (h bytes rfl))

/-- What is taken from the buffer is taken in order. -/
theorem bufferBytes_add (buffer : Option (List UInt8)) (m n : ℕ) :
    bufferBytes buffer (m + n) = bufferBytes buffer m ++ bufferBytes (buffer.map (·.drop m)) n := by
  cases buffer with
  | none => exact List.replicate_add _ _ _
  | some bytes => exact List.take_add

/-- What is left of a buffer behind its first `m` bytes is as long as what is still taken from it.
-/
theorem BufferFits.drop {buffer : Option (List UInt8)} {m n : ℕ} (h : BufferFits buffer (m + n)) :
    BufferFits (buffer.map (·.drop m)) n := by
  intro bytes hb
  cases buffer with
  | none => cases hb
  | some full =>
    cases hb
    have hlen := h full rfl
    rw [List.length_drop]
    omega

/-- **What is seen is changed**, to `seen` if the operation succeeds, and to what `part` says if it
does not.  That it fails takes a write to the card that fails during this operation. -/
structure Cache.Wrote (F : Faults) (G : CacheGeometry) (c : Cache) (ok : Prop) (c' : Cache)
    (seen : ℕ → UInt8) (part : (ℕ → UInt8) → Prop) : Prop where
  inv : c'.Inv G
  length : c'.cacheEntries.length = c.cacheEntries.length
  writes : c.disc.writes ≤ c'.disc.writes
  view : ok → c'.view G = seen
  failed : ¬ ok → part (c'.view G)
  ok : c.WritesGo F c' → ok

/-- Copying bytes into a page leaves the cache with as many entries as before. -/
@[simp] theorem length_store (c : Cache) (i offset : ℕ) (bytes : List UInt8) :
    (c.store i offset bytes).cacheEntries.length = c.cacheEntries.length := List.length_set

/-- **A part of a sector** is written in the cache, and to the card when its page is evicted: what
is seen changes in that part alone. -/
theorem cacheWritePartialSector_spec (hreads : ∀ n, F.read n = none) {buffer : Option (List UInt8)}
    {sector offset size : ℕ} (h : c.Inv G) (hsector : sector < G.endOfPartition)
    (hsize : offset + size ≤ G.bytesPerSector) (hbuffer : BufferFits buffer size) :
    c.Wrote F G ((cacheWritePartialSector F G c buffer sector offset size).1 = true)
      (cacheWritePartialSector F G c buffer sector offset size).2
      (patch (c.view G) (sector * G.bytesPerSector + offset) (bufferBytes buffer size))
      (· = c.view G) := by
  have hpage := getPage_spec hreads h hsector
  rw [cacheWritePartialSector, if_neg (Nat.not_lt.mpr hsize)]
  rcases hget : getPage F G c sector with ⟨found, c₁⟩
  rw [hget] at hpage
  cases found with
  | none =>
    refine ⟨hpage.inv, hpage.length, hpage.writes, fun hok => absurd hok Bool.false_ne_true,
      fun _ => hpage.view, fun hwrites => ?_⟩
    obtain ⟨i, hi⟩ := hpage.ok (Or.inl hwrites)
    cases hi
  | some i =>
    obtain ⟨hi, hloaded, hle, hlt⟩ := hpage.found i rfl
    dsimp only at hi hloaded hle hlt ⊢
    have hstep := hpage.inv.store hi hloaded (bufferBytes buffer size)
      (CacheEntry.start_le hle offset)
      (by rw [length_bufferBytes hbuffer]; exact CacheEntry.le_end hlt hsize)
    rw [CacheEntry.offset_eq hle]
    refine ⟨hstep.1, (length_store _ _ _ _).trans hpage.length, hpage.writes, fun _ => ?_,
      fun hfail => absurd rfl hfail, fun _ => rfl⟩
    rw [hstep.2, hpage.view]

/-- A value is written as the number of bytes that was asked for. -/
theorem length_littleEndian (numBytes value : ℕ) : (littleEndian numBytes value).length = numBytes := by
  rw [littleEndian, List.length_map, List.length_range]

/-- **A value** of one, two or four bytes is written as a part of its sector, lowest byte first. -/
theorem cacheWriteLittleEndianValue_spec (hreads : ∀ n, F.read n = none) {value sector offset size : ℕ}
    (h : c.Inv G) (hsector : sector < G.endOfPartition) (hsize : offset + size ≤ G.bytesPerSector)
    (hbytes : size = 1 ∨ size = 2 ∨ size = 4) :
    c.Wrote F G ((cacheWriteLittleEndianValue F G c value sector offset size).1 = true)
      (cacheWriteLittleEndianValue F G c value sector offset size).2
      (patch (c.view G) (sector * G.bytesPerSector + offset) (littleEndian size value))
      (· = c.view G) := by
  have hfits : BufferFits (some (littleEndian size value)) size := by
    intro bytes hb
    cases hb
    rw [length_littleEndian]
  have hwrite := cacheWritePartialSector_spec hreads h hsector hsize hfits
  have htake : bufferBytes (some (littleEndian size value)) size = littleEndian size value :=
    List.take_of_length_le (length_littleEndian size value).le
  rw [htake] at hwrite
  rw [cacheWriteLittleEndianValue, if_pos hbytes]
  exact hwrite

/-- The entry that bytes were copied into is the old one with these bytes, and it is dirty. -/
theorem entry_store {i : ℕ} (hi : i < c.cacheEntries.length) (offset : ℕ) (bytes : List UInt8) :
    (c.store i offset bytes).entry i = (c.entry i).stored offset bytes :=
  entry_setEntry_self hi

/-- **A sector is erased**, and a part of it is written. -/
theorem cacheEraseWritePartialSector_spec (hreads : ∀ n, F.read n = none)
    {buffer : Option (List UInt8)} {sector offset size : ℕ} (h : c.Inv G)
    (hsector : sector < G.endOfPartition) (hsize : offset + size ≤ G.bytesPerSector) :
    c.Wrote F G ((cacheEraseWritePartialSector F G c buffer sector offset size).1 = true)
      (cacheEraseWritePartialSector F G c buffer sector offset size).2
      (patch (patch (c.view G) (sector * G.bytesPerSector) (List.replicate G.bytesPerSector 0))
        (sector * G.bytesPerSector + offset) ((buffer.getD []).take size))
      (· = c.view G) := by
  have hpage := getPage_spec hreads h hsector
  rw [cacheEraseWritePartialSector, if_neg (Nat.not_lt.mpr hsize)]
  rcases hget : getPage F G c sector with ⟨found, c₁⟩
  rw [hget] at hpage
  cases found with
  | none =>
    refine ⟨hpage.inv, hpage.length, hpage.writes, fun hok => absurd hok Bool.false_ne_true,
      fun _ => hpage.view, fun hwrites => ?_⟩
    obtain ⟨i, hi⟩ := hpage.ok (Or.inl hwrites)
    cases hi
  | some i =>
    obtain ⟨hi, hloaded, hle, hlt⟩ := hpage.found i rfl
    dsimp only at hi hloaded hle hlt ⊢
    -- the zeros
    have hstart := CacheEntry.offset_eq (G := G) hle 0
    rw [Nat.add_zero, Nat.add_zero] at hstart
    have hzeros := hpage.inv.store hi hloaded (List.replicate G.bytesPerSector 0)
      (CacheEntry.start_le hle 0)
      (CacheEntry.le_end hlt (by rw [List.length_replicate, Nat.zero_add]))
    rw [Nat.add_zero, ← hstart, hpage.view] at hzeros
    have hlen := length_store c₁ i ((sector - (c₁.entry i).sector) * G.bytesPerSector)
      (List.replicate G.bytesPerSector 0)
    cases buffer with
    | none =>
      refine ⟨hzeros.1, hlen.trans hpage.length, hpage.writes, fun _ => ?_,
        fun hfail => absurd rfl hfail, fun _ => rfl⟩
      rw [Option.getD_none, List.take_nil, Cells.patch_nil]
      exact hzeros.2
    | some bytes =>
      -- and the bytes over them
      dsimp only
      set c₂ := c₁.store i ((sector - (c₁.entry i).sector) * G.bytesPerSector)
        (List.replicate G.bytesPerSector 0) with hc₂
      have hentry : c₂.entry i = (c₁.entry i).stored _ _ := entry_store hi _ _
      have hsame : (c₂.entry i).sector = (c₁.entry i).sector := by
        rw [hentry]
        rfl
      have hcount : (c₂.entry i).count = (c₁.entry i).count := by
        rw [hentry]
        rfl
      have hloaded₂ : (c₂.entry i).Loaded G :=
        hentry ▸ ⟨hloaded.aligned, hloaded.inside, hloaded.count⟩
      have hwrite := hzeros.1.store (hlen.symm ▸ hi) hloaded₂ (bytes.take size)
        (CacheEntry.start_le (hsame.symm ▸ hle) offset)
        (CacheEntry.le_end (by rwa [hsame, hcount]) (by rw [List.length_take]; omega))
      rw [hsame, ← CacheEntry.offset_eq hle, hzeros.2] at hwrite
      exact ⟨hwrite.1, (length_store _ _ _ _).trans (hlen.trans hpage.length), hpage.writes,
        fun _ => hwrite.2, fun hfail => absurd rfl hfail, fun _ => rfl⟩

/-- What is seen after `m` sectors of the buffer. -/
def sectorsWritten (G : CacheGeometry) (seen : ℕ → UInt8) (sector m : ℕ)
    (src : Option (List UInt8)) : ℕ → UInt8 :=
  patch seen (sector * G.bytesPerSector) (bufferBytes src (m * G.bytesPerSector))

/-- Before the first sector was written, what is seen is what was seen. -/
theorem sectorsWritten_zero (seen : ℕ → UInt8) (sector : ℕ) (src : Option (List UInt8)) :
    sectorsWritten G seen sector 0 src = seen := by
  have hnil : bufferBytes src 0 = [] := by
    cases src with
    | none => rfl
    | some bytes => rfl
  rw [sectorsWritten, Nat.zero_mul, hnil, Cells.patch_nil]

/-- The sectors of a write are written in order, so a longer write is a shorter one and then one of
the rest of the buffer. -/
theorem sectorsWritten_add {src : Option (List UInt8)} {m : ℕ}
    (h : BufferFits src (m * G.bytesPerSector)) (seen : ℕ → UInt8) (sector n : ℕ) :
    sectorsWritten G seen sector (m + n) src =
      sectorsWritten G (sectorsWritten G seen sector m src) (sector + m) n
        (src.map (·.drop (m * G.bytesPerSector))) := by
  rw [sectorsWritten, Nat.add_mul, bufferBytes_add, patch_append, length_bufferBytes h, ← Nat.add_mul]
  rfl

/-- By induction on the fuel, as for reading: each turn copies the bytes for the sectors of one page
into it.  A turn fails only where looking for its page does, and then the sectors before it are
written, which is what `part` says. -/
theorem writeSectorsLoop_spec (hreads : ∀ n, F.read n = none) (fuel sector numSectors : ℕ)
    (src : Option (List UInt8)) (h : c.Inv G) (hend : sector + numSectors ≤ G.endOfPartition)
    (hsrc : BufferFits src (numSectors * G.bytesPerSector)) (hfuel : numSectors < fuel) :
    c.Wrote F G ((writeSectorsLoop F G fuel c sector numSectors src).1 = true)
      (writeSectorsLoop F G fuel c sector numSectors src).2
      (sectorsWritten G (c.view G) sector numSectors src)
      (fun seen => ∃ m ≤ numSectors, seen = sectorsWritten G (c.view G) sector m src) := by
  induction fuel generalizing c sector numSectors src with
  | zero => exact absurd hfuel (Nat.not_lt_zero _)
  | succ fuel ih =>
    by_cases hzero : numSectors = 0
    · rw [writeSectorsLoop, if_pos hzero, hzero, sectorsWritten_zero]
      exact ⟨h, rfl, Nat.le_refl _, fun _ => rfl, fun hfail => absurd rfl hfail, fun _ => rfl⟩
    · have hpage := getPage_spec hreads h (show sector < G.endOfPartition by omega)
      rw [writeSectorsLoop, if_neg hzero]
      rcases hget : getPage F G c sector with ⟨found, c₁⟩
      rw [hget] at hpage
      cases found with
      | none =>
        refine ⟨hpage.inv, hpage.length, hpage.writes, fun hok => absurd hok Bool.false_ne_true,
          fun _ => ?_, fun hwrites => ?_⟩
        · exact ⟨0, Nat.zero_le _, hpage.view.trans (sectorsWritten_zero _ _ _).symm⟩
        · obtain ⟨i, hi⟩ := hpage.ok (Or.inl hwrites)
          cases hi
      | some i =>
        obtain ⟨hi, hloaded, hle, hlt⟩ := hpage.found i rfl
        dsimp only at hi hloaded hle hlt ⊢
        set secsToWrite := min ((c₁.entry i).count - (sector - (c₁.entry i).sector)) numSectors with hsecs
        obtain ⟨rest, hrest⟩ : ∃ rest, numSectors = secsToWrite + rest :=
          ⟨numSectors - secsToWrite, by omega⟩
        have hfits : BufferFits src (secsToWrite * G.bytesPerSector) := fun bytes hb =>
          le_trans (Nat.mul_le_mul_right _ (by omega)) (hsrc bytes hb)
        have hhigh : sector * G.bytesPerSector +
            (bufferBytes src (secsToWrite * G.bytesPerSector)).length ≤
            ((c₁.entry i).sector + (c₁.entry i).count) * G.bytesPerSector := by
          rw [length_bufferBytes hfits, ← Nat.add_mul]
          exact Nat.mul_le_mul_right _ (by omega)
        have hstart := CacheEntry.offset_eq (G := G) hle 0
        rw [Nat.add_zero, Nat.add_zero] at hstart
        have hstore := hpage.inv.store hi hloaded _ (Nat.mul_le_mul_right _ hle) hhigh
        rw [← hstart, hpage.view] at hstore
        have hsub : numSectors - secsToWrite = rest := by omega
        have hstep := ih (sector + secsToWrite) rest
          (src.map (·.drop (secsToWrite * G.bytesPerSector))) hstore.1 (by omega)
          (BufferFits.drop (by rwa [← Nat.add_mul, ← hrest])) (by omega)
        rw [hstore.2] at hstep
        rw [hsub]
        have hadd := sectorsWritten_add hfits (c.view G) sector
        refine ⟨hstep.inv, hstep.length.trans ((length_store _ _ _ _).trans hpage.length),
          hpage.writes.trans hstep.writes, fun hok => ?_, fun hfail => ?_,
          fun hwrites => hstep.ok (hwrites.later hpage.writes)⟩
        · rw [hstep.view hok, hrest, hadd]
          rfl
        · obtain ⟨m, hm, hseen⟩ := hstep.failed hfail
          refine ⟨secsToWrite + m, by omega, ?_⟩
          rw [hseen, hadd]
          rfl

/-- **Whole sectors** are written in order; an operation that fails has written the first ones. -/
theorem cacheWriteSectors_spec (hreads : ∀ n, F.read n = none) {sector numSectors : ℕ}
    {buffer : Option (List UInt8)} (h : c.Inv G) (hend : sector + numSectors ≤ G.endOfPartition)
    (hbuffer : BufferFits buffer (numSectors * G.bytesPerSector)) :
    c.Wrote F G ((cacheWriteSectors F G c sector numSectors buffer).1 = true)
      (cacheWriteSectors F G c sector numSectors buffer).2
      (sectorsWritten G (c.view G) sector numSectors buffer)
      (fun seen => ∃ m ≤ numSectors, seen = sectorsWritten G (c.view G) sector m buffer) :=
  writeSectorsLoop_spec hreads _ _ _ _ h hend hbuffer (Nat.lt_succ_self _)

end Writing

/-! ### Flushing -/

section Flushing

variable {F : Faults} {G : CacheGeometry} {c : Cache}

/-- **The card is what was seen**, once all pages are written back. -/
structure Cache.Flushed (F : Faults) (G : CacheGeometry) (c : Cache) (ok : Prop) (c' : Cache) : Prop where
  inv : c'.Inv G
  length : c'.cacheEntries.length = c.cacheEntries.length
  writes : c.disc.writes ≤ c'.disc.writes
  view : c'.view G = c.view G
  clean : ok → c'.Clean
  ok : c.WritesGo F c' → ok

/-- One entry of the flush whose write succeeds: the page is clean then, those before it stay so,
and what is seen does not change. -/
theorem Cache.Inv.flushEntry (h : c.Inv G) {i : ℕ} (hi : i < c.cacheEntries.length) {disc : Disc}
    (hin : ∀ a ∈ ((c.entry i).page G).span, disc.bytes a = ((c.entry i).page G).data a)
    (hout : ∀ a ∉ ((c.entry i).page G).span, disc.bytes a = c.disc.bytes a)
    (hbefore : ∀ k < i, (c.entry k).dirty = false) :
    ((c.setDisc disc).setEntry i (c.entry i).clean).Inv G ∧
      ((c.setDisc disc).setEntry i (c.entry i).clean).view G = c.view G ∧
      ∀ k < i + 1, (((c.setDisc disc).setEntry i (c.entry i).clean).entry k).dirty = false := by
  have hstep := h.writeBack hi hin hout
  refine ⟨hstep.1, hstep.2, fun k hk => ?_⟩
  rw [entry_setEntry (c := c.setDisc disc) hi]
  split
  · rfl
  · exact hbefore k (by omega)

/-- By induction on the entries that are left.  The invariant of the loop is that those before `i`
are clean: a dirty page is written back, and one whose write fails ends the loop with the card
spoiled only where this page lies. -/
theorem flushLoop_spec {n i : ℕ} (h : c.Inv G) (hlen : i + n = c.cacheEntries.length)
    (hbefore : ∀ k < i, (c.entry k).dirty = false) :
    c.Flushed F G ((flushLoop F G n i c).1 = true) (flushLoop F G n i c).2 := by
  induction n generalizing c i with
  | zero =>
    refine ⟨h, rfl, Nat.le_refl _, rfl, fun _ k => ?_, fun _ => rfl⟩
    by_cases hk : k < i
    · exact hbefore k hk
    · show (c.entry k).dirty = false
      rw [entry_of_le (by omega)]
      rfl
  | succ n ih =>
    have hi : i < c.cacheEntries.length := by omega
    rw [flushLoop]
    by_cases hdirty : (c.entry i).dirty = true
    · have hbytes := discWriteSectors_bytes (F := F) (G := G) c.disc (c.entry i)
      have hlater : c.disc.writes < (discWriteSectors F G c.disc (c.entry i).sector
          (c.entry i).count (c.entry i).cache).2.writes := by
        rw [discWriteSectors_writes]
        exact Nat.lt_succ_self _
      rw [if_pos hdirty]
      split
      · -- writing it back goes wrong
        rename_i hfail
        rw [Bool.not_eq_true'] at hfail
        have hstep := h.spoil hdirty fun a ha => (hbytes a).2 ha
        refine ⟨hstep.1, rfl, Nat.le_of_lt hlater, hstep.2, fun hok => absurd hok Bool.false_ne_true,
          fun hwrites => ?_⟩
        rw [discWriteSectors_ok (hwrites _ (Nat.le_refl _) hlater)] at hfail
        cases hfail
      · rename_i hok
        rw [Bool.not_eq_true', Bool.not_eq_false] at hok
        have hstep := h.flushEntry hi (fun a ha => (hbytes a).1 hok ha) (fun a ha => (hbytes a).2 ha)
          hbefore
        have hrest := ih hstep.1 (by rw [length_setEntry, length_setDisc]; omega) hstep.2.2
        exact ⟨hrest.inv, hrest.length.trans (length_setEntry _ _ _),
          (Nat.le_of_lt hlater).trans hrest.writes, hrest.view.trans hstep.2.1, hrest.clean,
          fun hwrites => hrest.ok (hwrites.later (Nat.le_of_lt hlater))⟩
    · -- a clean page is as it is on the card
      rw [if_neg hdirty, if_neg (show ¬ (!(true, c.disc).1) = true from Bool.false_ne_true)]
      have hclean := h.coherent.clean i (Bool.eq_false_iff.mpr hdirty)
      have hstep := h.flushEntry hi (fun a ha => (hclean a ha).symm) (fun a _ => rfl) hbefore
      have hrest := ih hstep.1 (by rw [length_setEntry, length_setDisc]; omega) hstep.2.2
      exact ⟨hrest.inv, hrest.length.trans (length_setEntry _ _ _), hrest.writes,
        hrest.view.trans hstep.2.1, hrest.clean, hrest.ok⟩

/-- **Flushing** changes nothing that is seen; where it succeeds, no page is dirty. -/
theorem cacheFlush_spec (h : c.Inv G) :
    c.Flushed F G ((cacheFlush F G c).1 = true) (cacheFlush F G c).2 :=
  flushLoop_spec h (Nat.zero_add _) fun k hk => absurd hk (Nat.not_lt_zero k)

/-- Where all pages are clean, what is seen through the cache is what the card has. -/
theorem Cache.Inv.view_eq_disc (h : c.Inv G) (hclean : c.Clean) : c.view G = c.disc.bytes :=
  h.coherent.view_eq_backing hclean

end Flushing

end RrLauncher
