/-
# The cache against a card without one

`Access` are the calls that `libfat` makes, and `Access.onCard` says what they do to a card that
has no cache over it.  Over every run of calls the cache answers as that card does, whatever is
evicted on the way (`cache_refines_card`).  A call fails only if a write to the card does that is
made for it; it is then not done, or the first sectors are written, and what was written before is
not lost.
-/

import RrLauncher.Libfat.CacheOps

namespace RrLauncher

open Cells (slice patch)

/-! ### The calls -/

/-- The calls of the cache that its callers make, with their arguments. -/
inductive Access where
  | readSectors (sector numSectors : ℕ)
  | readPartial (sector offset size : ℕ)
  | readValue (sector offset numBytes : ℕ)
  | writeSectors (sector numSectors : ℕ) (buffer : Option (List UInt8))
  | writePartial (buffer : Option (List UInt8)) (sector offset size : ℕ)
  | writeValue (value sector offset size : ℕ)
  | eraseWritePartial (buffer : Option (List UInt8)) (sector offset size : ℕ)
  | flush

/-- What a call answers: what was read, that a write is done, or that it failed. -/
inductive Answer where
  | failed
  | done
  | bytes (buffer : List UInt8)
  | value (n : ℕ)
  deriving DecidableEq

/-- A call, with what is in the buffer if it succeeds. -/
def Access.onCache (F : Faults) (G : CacheGeometry) (c : Cache) : Access → Answer × Cache
  | .readSectors sector n =>
    let r := cacheReadSectors F G c sector n
    (if r.1 then .bytes r.2.1 else .failed, r.2.2)
  | .readPartial sector offset size =>
    let r := cacheReadPartialSector F G c sector offset size
    (r.1.elim .failed .bytes, r.2)
  | .readValue sector offset n =>
    let r := cacheReadLittleEndianValue F G c sector offset n
    (r.1.elim .failed .value, r.2)
  | .writeSectors sector n buffer =>
    let r := cacheWriteSectors F G c sector n buffer
    (if r.1 then .done else .failed, r.2)
  | .writePartial buffer sector offset size =>
    let r := cacheWritePartialSector F G c buffer sector offset size
    (if r.1 then .done else .failed, r.2)
  | .writeValue value sector offset size =>
    let r := cacheWriteLittleEndianValue F G c value sector offset size
    (if r.1 then .done else .failed, r.2)
  | .eraseWritePartial buffer sector offset size =>
    let r := cacheEraseWritePartialSector F G c buffer sector offset size
    (if r.1 then .done else .failed, r.2)
  | .flush =>
    let r := cacheFlush F G c
    (if r.1 then .done else .failed, r.2)

/-- The calls of a run, one after the other. -/
def runOnCache (F : Faults) (G : CacheGeometry) : Cache → List Access → List Answer × Cache
  | c, [] => ([], c)
  | c, call :: calls =>
    let first := call.onCache F G c
    let rest := runOnCache F G first.2 calls
    (first.1 :: rest.1, rest.2)

/-- What the callers see to: the sectors are in the partition, the part is in its sector, a value
has one, two or four bytes, and the buffer is long enough. -/
def Access.Allowed (G : CacheGeometry) : Access → Prop
  | .readSectors sector n => sector + n ≤ G.endOfPartition
  | .readPartial sector offset size =>
    sector < G.endOfPartition ∧ offset + size ≤ G.bytesPerSector
  | .readValue sector offset n =>
    sector < G.endOfPartition ∧ offset + n ≤ G.bytesPerSector ∧ (n = 1 ∨ n = 2 ∨ n = 4)
  | .writeSectors sector n buffer =>
    sector + n ≤ G.endOfPartition ∧ BufferFits buffer (n * G.bytesPerSector)
  | .writePartial buffer sector offset size =>
    sector < G.endOfPartition ∧ offset + size ≤ G.bytesPerSector ∧ BufferFits buffer size
  | .writeValue _ sector offset size =>
    sector < G.endOfPartition ∧ offset + size ≤ G.bytesPerSector ∧ (size = 1 ∨ size = 2 ∨ size = 4)
  | .eraseWritePartial _ sector offset size =>
    sector < G.endOfPartition ∧ offset + size ≤ G.bytesPerSector
  | .flush => True

/-- A call that reads, and writes nothing into a page. -/
def Access.IsRead : Access → Prop
  | .readSectors .. | .readPartial .. | .readValue .. => True
  | _ => False

/-! ### A card without a cache -/

/-- What a call does to a card without a cache, and what it answers. -/
def Access.onCard (G : CacheGeometry) (card : ℕ → UInt8) : Access → Answer × (ℕ → UInt8)
  | .readSectors sector n =>
    (.bytes (slice card (sector * G.bytesPerSector) (n * G.bytesPerSector)), card)
  | .readPartial sector offset size =>
    (.bytes (slice card (sector * G.bytesPerSector + offset) size), card)
  | .readValue sector offset n =>
    (.value (u8arrayToValue (slice card (sector * G.bytesPerSector + offset) n)), card)
  | .writeSectors sector n buffer => (.done, sectorsWritten G card sector n buffer)
  | .writePartial buffer sector offset size =>
    (.done, patch card (sector * G.bytesPerSector + offset) (bufferBytes buffer size))
  | .writeValue value sector offset size =>
    (.done, patch card (sector * G.bytesPerSector + offset) (littleEndian size value))
  | .eraseWritePartial buffer sector offset size =>
    (.done, patch (patch card (sector * G.bytesPerSector) (List.replicate G.bytesPerSector 0))
      (sector * G.bytesPerSector + offset) ((buffer.getD []).take size))
  | .flush => (.done, card)

/-- What a call that failed has done: nothing, or the first of several sectors were written. -/
def Access.Part (G : CacheGeometry) (card card' : ℕ → UInt8) : Access → Prop
  | .writeSectors sector n buffer => ∃ m ≤ n, card' = sectorsWritten G card sector m buffer
  | _ => card' = card

/-- A run on the card: every call is done, or it fails. -/
inductive CardRun (G : CacheGeometry) : (ℕ → UInt8) → List Access → List Answer → (ℕ → UInt8) → Prop
  | nil (card : ℕ → UInt8) : CardRun G card [] [] card
  | done {card card' : ℕ → UInt8} {call : Access} {calls : List Access} {answers : List Answer}
      (rest : CardRun G (call.onCard G card).2 calls answers card') :
      CardRun G card (call :: calls) ((call.onCard G card).1 :: answers) card'
  | failed {card part card' : ℕ → UInt8} {call : Access} {calls : List Access}
      {answers : List Answer} (undone : call.Part G card part)
      (rest : CardRun G part calls answers card') :
      CardRun G card (call :: calls) (.failed :: answers) card'

/-! ### The cache refines the card -/

section Runs

variable {F : Faults} {G : CacheGeometry} {c : Cache}

/-- **One call** of the cache as a step of the card without it: it answers as that does or fails in
part, and it does not fail where its own writes to the card go through. -/
structure Access.Step (F : Faults) (G : CacheGeometry) (c : Cache) (call : Access)
    (r : Answer × Cache) : Prop where
  inv : r.2.Inv G
  answer : (r.1 = (call.onCard G (c.view G)).1 ∧ r.2.view G = (call.onCard G (c.view G)).2) ∨
    (r.1 = .failed ∧ call.Part G (c.view G) (r.2.view G))
  ok : c.WritesGo F r.2 ∨ (c.Clean ∧ call.IsRead) → r.1 ≠ .failed
  clean : c.Clean → call.IsRead → r.2.Clean

/-- A call that only reads is a step of the card without a cache: it answers as that does if it
succeeds, and it changes nothing that is seen. -/
theorem Access.Step.ofKept {ok : Prop} {call : Access} {r : Answer × Cache} (h : c.Kept F G ok r.2)
    (hseen : (call.onCard G (c.view G)).2 = c.view G)
    (hpart : call.Part G (c.view G) (c.view G)) (hok : ok → r.1 = (call.onCard G (c.view G)).1)
    (hfail : ¬ ok → r.1 = .failed) (hdone : (call.onCard G (c.view G)).1 ≠ .failed) :
    call.Step F G c r where
  inv := h.inv
  answer := by
    rw [hseen, h.view]
    by_cases hk : ok
    · exact Or.inl ⟨hok hk, rfl⟩
    · exact Or.inr ⟨hfail hk, hpart⟩
  ok hcase := by
    rw [hok (h.ok (hcase.imp_right And.left))]
    exact hdone
  clean hclean _ := h.clean hclean

/-- A call that writes is a step of the card without a cache: done if it succeeds, and otherwise
done in part. -/
theorem Access.Step.ofWrote {ok : Bool} {call : Access} {c' : Cache}
    (h : c.Wrote F G (ok = true) c' (call.onCard G (c.view G)).2 (call.Part G (c.view G)))
    (hwrite : ¬ call.IsRead) (hdone : (call.onCard G (c.view G)).1 = .done) :
    call.Step F G c (if ok then .done else .failed, c') where
  inv := h.inv
  answer := by
    by_cases hok : ok = true
    · exact Or.inl ⟨(if_pos hok).trans hdone.symm, h.view hok⟩
    · exact Or.inr ⟨if_neg hok, h.failed hok⟩
  ok hcase := by
    rcases hcase with hwrites | hread
    · rw [if_pos (h.ok hwrites)]
      exact Answer.noConfusion
    · exact absurd hread.2 hwrite
  clean _ hread := absurd hread hwrite

/-- Each call is one of the operations of the cache, whose lemma says what it answers and what is
seen then: the calls that read keep what is seen, those that write change it as the call on the card
does, or in part, and flushing keeps it. -/
theorem Access.step (hreads : ∀ n, F.read n = none) (h : c.Inv G) {call : Access}
    (hcall : call.Allowed G) : call.Step F G c (call.onCache F G c) := by
  cases call with
  | readSectors sector n =>
    have hspec := cacheReadSectors_spec hreads h hcall
    refine Access.Step.ofKept hspec.2 rfl rfl (fun hok => ?_) (fun hfail => if_neg hfail)
      Answer.noConfusion
    rw [Access.onCache, if_pos hok, hspec.1 hok]
    rfl
  | readPartial sector offset size =>
    have hspec := cacheReadPartialSector_spec hreads h hcall.1 hcall.2
    refine Access.Step.ofKept hspec.2 rfl rfl (fun hok => ?_) (fun hfail => ?_)
      Answer.noConfusion
    · obtain ⟨bytes, hb⟩ := hok
      rw [Access.onCache, hb, hspec.1 bytes hb]
      rfl
    · rw [Access.onCache, Option.eq_none_iff_forall_ne_some.mpr fun bytes hb => hfail ⟨bytes, hb⟩]
      rfl
  | readValue sector offset n =>
    have hspec := cacheReadLittleEndianValue_spec hreads h hcall.1 hcall.2.1 hcall.2.2
    refine Access.Step.ofKept hspec.2 rfl rfl (fun hok => ?_) (fun hfail => ?_)
      Answer.noConfusion
    · obtain ⟨value, hv⟩ := hok
      rw [Access.onCache, hv, hspec.1 value hv]
      rfl
    · rw [Access.onCache, Option.eq_none_iff_forall_ne_some.mpr fun value hv => hfail ⟨value, hv⟩]
      rfl
  | writeSectors sector n buffer =>
    exact Access.Step.ofWrote (cacheWriteSectors_spec hreads h hcall.1 hcall.2) id rfl
  | writePartial buffer sector offset size =>
    exact Access.Step.ofWrote (cacheWritePartialSector_spec hreads h hcall.1 hcall.2.1 hcall.2.2) id rfl
  | writeValue value sector offset size =>
    exact Access.Step.ofWrote (cacheWriteLittleEndianValue_spec hreads h hcall.1 hcall.2.1 hcall.2.2)
      id rfl
  | eraseWritePartial buffer sector offset size =>
    exact Access.Step.ofWrote (cacheEraseWritePartialSector_spec hreads h hcall.1 hcall.2) id rfl
  | flush =>
    have hspec := cacheFlush_spec (F := F) h
    exact Access.Step.ofWrote ⟨hspec.inv, hspec.length, hspec.writes, fun _ => hspec.view,
      fun _ => hspec.view, hspec.ok⟩ id rfl

/-- **A run of calls** on the cache is one on the card without it, and the invariant of the cache
holds behind it. It is proved by induction over the calls, one step of the card for each. -/
theorem runOnCache_spec (hreads : ∀ n, F.read n = none) {calls : List Access} (h : c.Inv G)
    (hcalls : ∀ call ∈ calls, call.Allowed G) :
    (runOnCache F G c calls).2.Inv G ∧
      CardRun G (c.view G) calls (runOnCache F G c calls).1 ((runOnCache F G c calls).2.view G) ∧
      ((∀ n, F.write n = none) ∨ (c.Clean ∧ ∀ call ∈ calls, call.IsRead) →
        Answer.failed ∉ (runOnCache F G c calls).1) := by
  induction calls generalizing c with
  | nil => exact ⟨h, .nil _, fun _ => List.not_mem_nil⟩
  | cons call calls ih =>
    rw [List.forall_mem_cons] at hcalls
    have hstep := Access.step hreads h hcalls.1
    obtain ⟨hinv, hrun, hok⟩ := ih hstep.inv hcalls.2
    refine ⟨hinv, ?_, fun hcase hmem => ?_⟩
    · rw [runOnCache]
      rcases hstep.answer with ⟨hanswer, hview⟩ | ⟨hanswer, hpart⟩
      · rw [hanswer]
        rw [hview] at hrun
        exact .done hrun
      · rw [hanswer]
        exact .failed hpart hrun
    · rw [runOnCache, List.mem_cons] at hmem
      rw [List.forall_mem_cons] at hcase
      rcases hmem with hfirst | hrest
      · exact hstep.ok (hcase.imp (fun hwrites n _ _ => hwrites n)
          fun hread => ⟨hread.1, hread.2.1⟩) hfirst.symm
      · refine hok (hcase.imp_right fun hread => ?_) hrest
        exact ⟨hstep.clean hread.1 hread.2.1, hread.2.2⟩

/-- **A call of a run that fails** has had a write to the card fail, one of those between the state
that the calls before it leave and the state that it leaves itself. -/
theorem runOnCache_failed (hreads : ∀ n, F.read n = none) (h : c.Inv G) {before after : List Access}
    {call : Access} (hcalls : ∀ other ∈ before ++ call :: after, other.Allowed G)
    (hfailed : (call.onCache F G (runOnCache F G c before).2).1 = .failed) :
    ∃ n, (runOnCache F G c before).2.disc.writes ≤ n ∧
      n < (call.onCache F G (runOnCache F G c before).2).2.disc.writes ∧ F.write n ≠ none := by
  rw [List.forall_mem_append, List.forall_mem_cons] at hcalls
  have hbefore := (runOnCache_spec hreads h hcalls.1).1
  have hstep := Access.step hreads hbefore hcalls.2.1
  by_contra hnone
  push Not at hnone
  exact hstep.ok (Or.inl hnone) hfailed

/-! ### From a new cache -/

/-- The entries of a new cache are free, and behind them there is nothing. -/
theorem entry_cacheConstructor (disc : Disc) (time : ℕ) (pages : List (ℕ → UInt8)) (k : ℕ) :
    ((cacheConstructor disc time pages).entry k).IsFree := by
  rw [Cache.entry, cacheConstructor, List.getD_eq_getElem?_getD, List.getElem?_map]
  cases pages[k]? with
  | none => exact ⟨rfl, rfl, rfl⟩
  | some data => exact ⟨rfl, rfl, rfl⟩

/-- A new cache with at least one page meets the invariant, whatever its pages hold: no entry has a
sector, so no two pages share one and none differs from the card. -/
theorem cacheConstructor_inv (disc : Disc) (time : ℕ) {pages : List (ℕ → UInt8)}
    (hpages : 0 < pages.length) : (cacheConstructor disc time pages).Inv G := by
  have hfree := entry_cacheConstructor disc time pages
  refine ⟨⟨?_, fun k _ => Or.inl (hfree k)⟩, fun k k' a hk _ => ?_, fun k _ a ha => ?_⟩
  · rw [cacheConstructor, List.length_map]
    exact hpages
  · exact absurd hk (notMem_span_free (hfree k).count)
  · exact absurd ha (notMem_span_free (hfree k).count)

/-- **The cache refines the card.**  Over every run of calls on a new cache there is a run on the
card without one with the same answers, and when the cache can be flushed, the card is then
as that run leaves it.  A call fails only if one of the writes to the card fails that are made
during this call, and none does in a run that only reads. -/
theorem cache_refines_card (hreads : ∀ n, F.read n = none) (disc : Disc) (time : ℕ)
    {pages : List (ℕ → UInt8)} (hpages : 0 < pages.length) {calls : List Access}
    (hcalls : ∀ call ∈ calls, call.Allowed G) :
    ∃ card, CardRun G disc.bytes calls
        (runOnCache F G (cacheConstructor disc time pages) calls).1 card ∧
      ((cacheFlush F G (runOnCache F G (cacheConstructor disc time pages) calls).2).1 = true →
        (cacheFlush F G (runOnCache F G (cacheConstructor disc time pages) calls).2).2.disc.bytes =
          card) ∧
      (∀ before call after, calls = before ++ call :: after →
        (call.onCache F G (runOnCache F G (cacheConstructor disc time pages) before).2).1 = .failed →
          ∃ n, (runOnCache F G (cacheConstructor disc time pages) before).2.disc.writes ≤ n ∧
            n < (call.onCache F G
              (runOnCache F G (cacheConstructor disc time pages) before).2).2.disc.writes ∧
            F.write n ≠ none) ∧
      ((∀ n, F.write n = none) ∨ (∀ call ∈ calls, call.IsRead) →
        Answer.failed ∉ (runOnCache F G (cacheConstructor disc time pages) calls).1) := by
  have hinv := cacheConstructor_inv (G := G) disc time hpages
  have hclean : (cacheConstructor disc time pages).Clean := fun k =>
    (entry_cacheConstructor disc time pages k).dirty
  obtain ⟨hinv', hrun, hok⟩ := runOnCache_spec hreads hinv hcalls
  rw [hinv.view_eq_disc hclean] at hrun
  refine ⟨_, hrun, fun hflush => ?_, fun before call after hsplit => ?_,
    fun hcase => hok (hcase.imp_right fun hread => ⟨hclean, hread⟩)⟩
  · have hflushed := cacheFlush_spec (F := F) hinv'
    rw [← hflushed.inv.view_eq_disc (hflushed.clean hflush), hflushed.view]
  · subst hsplit
    exact runOnCache_failed hreads hinv hcalls

end Runs

/-! ### A small card -/

/-- All transfers succeed, in both directions. -/
def noFaults : Faults := ⟨fun _ => none, fun _ => none⟩

/-- The first write fails, and leaves zeros on the card. -/
def firstWriteFails : Faults := ⟨fun _ => none, fun n => if n = 0 then some fun _ => 0 else none⟩

/-- A card of a hundred sectors. -/
def hundredSectors : CacheGeometry := ⟨512, 100, by omega, by simp [sectorsPerPage]⟩

/-- A disc that is erased: all of its bytes are `0xFF`, and nothing was transferred. -/
def erasedDisc : Disc := ⟨fun _ => 0xFF, 0, 0⟩

/-- A value is written, another page is read twice, and the value is read again. -/
def evictingCalls : List Access :=
  [.writeValue 7 3 10 2, .readValue 90 0 2, .readValue 90 0 2, .readValue 3 10 2]

/-- The cache of one page after these calls. -/
def evictedCache : List Answer × Cache :=
  runOnCache firstWriteFails hundredSectors (cacheConstructor erasedDisc 0 [fun _ => 0]) evictingCalls

/-- Writing the page with the value back fails the first time, and so does the call that it is done
for.  The second time it succeeds; the value is read again, and is on the card when the cache was
flushed. -/
theorem cache_refines_card_hundredSectors :
    CardRun hundredSectors erasedDisc.bytes evictingCalls
        [.done, .failed, .value 0xFFFF, .value 7]
        (cacheFlush firstWriteFails hundredSectors evictedCache.2).2.disc.bytes ∧
      ∃ n < 1, firstWriteFails.write n ≠ none := by
  have hallowed : ∀ call ∈ evictingCalls, call.Allowed hundredSectors := by
    simp [evictingCalls, Access.Allowed, hundredSectors]
  have hanswers : evictedCache.1 = [.done, .failed, .value 0xFFFF, .value 7] := by decide +kernel
  obtain ⟨card, hrun, hflush, hfails, -⟩ := cache_refines_card (F := firstWriteFails)
    (fun _ => rfl) erasedDisc 0 (show 0 < [fun _ : ℕ => (0 : UInt8)].length by decide) hallowed
  obtain ⟨n, -, hlt, hwrite⟩ := hfails [.writeValue 7 3 10 2] (.readValue 90 0 2) _ rfl
    (by decide +kernel)
  refine ⟨?_, n, Nat.lt_of_lt_of_eq hlt (by decide +kernel), hwrite⟩
  rw [← hanswers, show (cacheFlush firstWriteFails hundredSectors evictedCache.2).2.disc.bytes = card
    from hflush (by decide +kernel)]
  exact hrun

end RrLauncher
