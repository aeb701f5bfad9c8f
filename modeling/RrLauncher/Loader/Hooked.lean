/-
# The hooked game

What the game and the runtime extension execute after `patch_dvd_functions` and `patch_dol`.
A call of a DVD function of the game arrives at the function of the runtime extension, and
a call of its trampoline does what the DVD function did before: the instructions that were
overwritten, and on behind them (`hooked_game_runs`).  Both cost the registers `r9` and `ctr`.

The trampolines and the functions of the runtime extension are called by their addresses in
the linker script `runtime-ext/base.ld`, which has to be kept in sync.
-/

import RrLauncher.Loader.GameDolLoader
import RrLauncher.Loader.Trampolines

namespace RrLauncher

open ByteReader (be32)
open Memory (InRange)

/-! ### The linker script -/

/-- `.dvd_trampolines` in `base.ld`, where the runtime extension calls them. -/
def dvdTrampolines : UInt32 := 0x81782d60

/-- `dvd_convert_path_to_entrynum_trampoline` and so on in `base.ld`; there is none for
`DVDClose`. -/
def dvdTrampoline : RrcDvdFunction → Option UInt32
  | .convertPathToEntrynum => some dvdTrampolines
  | .fastOpen => some (dvdTrampolines + 32)
  | .open => some (dvdTrampolines + 64)
  | .readPrio => some (dvdTrampolines + 96)
  | .close => none

/-- `.dvd_convert_path_to_entrynum` and so on in `base.ld`. -/
def dvdCustomFunction : RrcDvdFunction → UInt32
  | .convertPathToEntrynum => 0x81782e60
  | .open => 0x81782ea0
  | .fastOpen => 0x81782ee0
  | .readPrio => 0x81782f20
  | .close => 0x81782f60

/-- The index of the entry of a function. -/
def RrcDvdFunction.index (fn : RrcDvdFunction) : ℕ := dvdFunctions.idxOf fn

/-- A DVD function has its place in the list of all of them. -/
theorem index_lt (fn : RrcDvdFunction) : fn.index < dvdFunctions.length := by
  cases fn <;> decide

/-- The function at the place of a function in the list is this one, so the trampolines are numbered
as the loop goes. -/
theorem getElem_index (fn : RrcDvdFunction) : dvdFunctions.get ⟨fn.index, index_lt fn⟩ = fn := by
  cases fn <;> rfl

/-- A trampoline is called where it is written: the address that the runtime extension has for it is
that of its place in the list. -/
theorem hookedAddr_index {fn : RrcDvdFunction} {p : UInt32} (h : dvdTrampoline fn = some p) :
    hookedAddr fn.index = p := by
  cases fn with
  | close => cases h
  | _ =>
    obtain rfl := Option.some.inj h
    rfl

/-- The jumps go to the functions of the runtime extension: the table of the loader has for each
hooked function the address that the linker script gives to the custom one. -/
theorem rrcDvdfCustomAddrs_eq (fn : RrcDvdFunction) : rrcDvdfCustomAddrs fn = dvdCustomFunction fn := by
  cases fn <;> rfl

/-- The jumps back go to where the overwritten instructions end. -/
theorem rrcDvdfBackjmpAddrs_eq (rg : RrcDvdRegion) (fn : RrcDvdFunction) :
    rrcDvdfBackjmpAddrs rg fn = rrcDvdfAddrs rg fn + 16 := by
  cases rg <;> cases fn <;> rfl

/-! ### Where things lie -/

/-- The address is one of the trampolines. -/
def InTrampolines (a : UInt32) : Prop := InRange rrcTrampolineStart (32 * dvdFunctions.length) a

section Layout

variable (mem : Memory) (dol : UInt32) (rg : RrcDvdRegion)

/-- The staged address of a function of the game. -/
def stagedFunction (fn : RrcDvdFunction) : UInt32 :=
  ((rrcBinaryFindSectionByAddr mem dol (rrcDvdfAddrs rg fn)).map Prod.fst).getD 0

/-- The first instructions of a function of the game. -/
def prologue (fn : RrcDvdFunction) : List UInt32 := mem.wordsFrom (stagedFunction mem dol rg fn) 4

/-- A DOL with the DVD functions of the region, staged apart from the trampolines. -/
structure Hookable : Prop where
  found : ∀ fn, ∃ virtAddr j,
    rrcBinaryFindSectionByAddr mem dol (rrcDvdfAddrs rg fn) = some (virtAddr, j) ∧
      (rrcDvdfAddrs rg fn - dolSectionAddr mem dol j).toNat + 16 ≤ (dolSectionSize mem dol j).toNat
  staged : ∀ i < rrcDolSectionCount, ∀ j < rrcDolSectionCount, i ≠ j →
    ∀ a, Staged mem dol i a → ¬ Staged mem dol j a
  header : ∀ i < rrcDolSectionCount, ∀ a, Staged mem dol i a → ¬ InHeader dol a
  trampolines : ∀ a, InTrampolines a →
    ¬ InHeader dol a ∧ ∀ i < rrcDolSectionCount, ¬ Staged mem dol i a

end Layout

section Patch

variable {mem : Memory} {dol : UInt32} {rg : RrcDvdRegion}

/-- The section that is found for an address is one of those that a DOL can have. -/
theorem find_lt {addr virtAddr : UInt32} {j : ℕ}
    (h : rrcBinaryFindSectionByAddr mem dol addr = some (virtAddr, j)) : j < rrcDolSectionCount := by
  obtain ⟨i, hi, hj⟩ := List.exists_of_findSome?_eq_some h
  split at hj
  · cases hj
    exact List.mem_range.mp hi
  · cases hj

/-- What is found depends on the header only, so hooking changes nothing of it. -/
theorem find_congr {mem' : Memory} (h : ∀ a, InHeader dol a → mem' a = mem a) (addr : UInt32) :
    rrcBinaryFindSectionByAddr mem' dol addr = rrcBinaryFindSectionByAddr mem dol addr := by
  have hcount : rrcDolSectionCount = 18 := rfl
  have hfirst : ∀ l : List ℕ, (∀ i ∈ l, i < rrcDolSectionCount) →
      (l.findSome? fun i =>
        if dolSectionAddr mem' dol i ≤ addr ∧ addr < dolSectionAddr mem' dol i + dolSectionSize mem' dol i then
          some (dol + dolSection mem' dol i + (addr - dolSectionAddr mem' dol i), i) else none) =
      l.findSome? fun i =>
        if dolSectionAddr mem dol i ≤ addr ∧ addr < dolSectionAddr mem dol i + dolSectionSize mem dol i then
          some (dol + dolSection mem dol i + (addr - dolSectionAddr mem dol i), i) else none := by
    intro l hl
    induction l with
    | nil => rfl
    | cons i l ih =>
      rw [List.forall_mem_cons] at hl
      have hoffset : dolSection mem' dol i = dolSection mem dol i := dolField_congr (by omega) h
      have haddr : dolSectionAddr mem' dol i = dolSectionAddr mem dol i := dolField_congr (by omega) h
      have hsize : dolSectionSize mem' dol i = dolSectionSize mem dol i := dolField_congr (by omega) h
      rw [List.findSome?_cons, List.findSome?_cons, ih hl.2, hoffset, haddr, hsize]
  exact hfirst _ fun i hi => List.mem_range.mp hi

/-- The instructions of a function are staged bytes of its section. -/
theorem Hookable.function (h : Hookable mem dol rg) (fn : RrcDvdFunction) :
    ∃ j < rrcDolSectionCount,
      rrcBinaryFindSectionByAddr mem dol (rrcDvdfAddrs rg fn) =
        some (stagedFunction mem dol rg fn, j) ∧
      stagedFunction mem dol rg fn =
        dol + dolSection mem dol j + (rrcDvdfAddrs rg fn - dolSectionAddr mem dol j) ∧
      (rrcDvdfAddrs rg fn - dolSectionAddr mem dol j).toNat + 16 ≤
        (dolSectionSize mem dol j).toNat := by
  obtain ⟨virtAddr, j, hfind, hroom⟩ := h.found fn
  have hstaged : stagedFunction mem dol rg fn = virtAddr := by rw [stagedFunction, hfind]; rfl
  refine ⟨j, find_lt hfind, by rw [hstaged, hfind], ?_, hroom⟩
  rw [hstaged]
  exact (find_some hfind).2

/-- The first four instructions of a DVD function are in the staged section that holds it. -/
theorem Hookable.inRange (h : Hookable mem dol rg) {fn : RrcDvdFunction} {a : UInt32}
    (ha : InRange (stagedFunction mem dol rg fn) 16 a) : ∃ i < rrcDolSectionCount, Staged mem dol i a := by
  obtain ⟨j, hj, -, heq, hroom⟩ := h.function fn
  refine ⟨j, hj, InRange.of_offset ?_ hroom⟩
  rwa [UInt32.ofNat_toNat, ← heq]

/-- Two functions have no instructions in common among the four that are overwritten, in any region,
so no hook is in another one's way. -/
theorem addrs_apart (rg : RrcDvdRegion) {fn fn' : RrcDvdFunction} (hne : fn ≠ fn') :
    16 ≤ (rrcDvdfAddrs rg fn - rrcDvdfAddrs rg fn').toNat ∧
      (rrcDvdfAddrs rg fn - rrcDvdfAddrs rg fn').toNat + 16 ≤ 2 ^ 32 := by
  revert hne
  cases rg <;> cases fn <;> cases fn' <;> decide

/-- Staged addresses are as far apart as the addresses they are for. -/
theorem add_add_sub (base p q origin : UInt32) : base + (p - origin) - (base + (q - origin)) = p - q := by
  have hbase := base.toNat_lt
  have hp := p.toNat_lt
  have hq := q.toNat_lt
  have horigin := origin.toNat_lt
  rw [← UInt32.toNat_inj]
  simp only [UInt32.toNat_sub, UInt32.toNat_add]
  omega

/-- Addresses in a section are counted from its beginning; counting on from an instruction of it is
the same, also where the sum wraps around. -/
theorem add_add_sub_assoc (base p k origin : UInt32) :
    base + (p + k - origin) = base + (p - origin) + k := by
  rw [UInt32.sub_eq_add_neg, UInt32.sub_eq_add_neg, UInt32.add_assoc base, UInt32.add_assoc p,
    UInt32.add_assoc p, UInt32.add_comm k]

/-- The staged instructions of two functions do not overlap: those in the game do not, and both lie
in sections that are staged apart or in the same one. -/
theorem Hookable.apart (h : Hookable mem dol rg) {fn fn' : RrcDvdFunction} (hne : fn ≠ fn') :
    Apart (stagedFunction mem dol rg fn) 16 (stagedFunction mem dol rg fn') 16 := by
  intro a ha ha'
  obtain ⟨j, hj, -, heq, hroom⟩ := h.function fn
  obtain ⟨j', hj', -, heq', hroom'⟩ := h.function fn'
  have hstaged : Staged mem dol j a := InRange.of_offset (by rwa [UInt32.ofNat_toNat, ← heq]) hroom
  have hstaged' : Staged mem dol j' a :=
    InRange.of_offset (by rwa [UInt32.ofNat_toNat, ← heq']) hroom'
  by_cases hjj : j = j'
  · -- in one section they are as far apart as their addresses
    subst hjj
    have hfar := addrs_apart rg hne
    have hdiff : (stagedFunction mem dol rg fn - stagedFunction mem dol rg fn').toNat =
        (rrcDvdfAddrs rg fn - rrcDvdfAddrs rg fn').toNat := by
      rw [heq, heq', add_add_sub]
    have hlt := (stagedFunction mem dol rg fn).toNat_lt
    have hlt' := (stagedFunction mem dol rg fn').toNat_lt
    rw [InRange, UInt32.toNat_sub] at ha ha'
    rw [UInt32.toNat_sub] at hdiff
    omega
  · exact h.staged j hj j' hj' hjj a hstaged hstaged'

/-- The entries with the staged addresses of their functions. -/
def functionPairs (mem : Memory) (dol : UInt32) (rg : RrcDvdRegion) :
    List (FunctionPatchEntry × UInt32) :=
  dvdFunctions.map fun fn => (functionPatchEntry rg fn, stagedFunction mem dol rg fn)

/-- The eight words of a trampoline are in the section for the trampolines. -/
theorem InTrampolines.of_hookedAddr {k : ℕ} (hk : k < dvdFunctions.length) {a : UInt32}
    (h : InRange (hookedAddr k) 32 a) : InTrampolines a := by
  refine InRange.of_offset h ?_
  omega

/-- What hooking writes for one function it does not read or write for another: trampolines and
staged instructions are apart, and each function has its own of both. -/
theorem Hookable.hooksApart (h : Hookable mem dol rg) :
    HooksApart 0 (functionPairs mem dol rg) := by
  have hlen : (functionPairs mem dol rg).length = dvdFunctions.length := List.length_map _
  refine ⟨?_, ?_, ?_, ?_⟩
  · rintro _ hp
    obtain ⟨fn, -, rfl⟩ := List.mem_map.mp hp
    exact ⟨rfl, rfl⟩
  · rw [functionPairs, List.pairwise_map]
    have hnodup : dvdFunctions.Nodup := by decide
    exact hnodup.imp fun hne => h.apart hne
  · rintro _ hp k hk a hin
    obtain ⟨fn, -, rfl⟩ := List.mem_map.mp hp
    rw [Nat.zero_add, hlen] at hk
    intro hstaged
    obtain ⟨i, hi, hia⟩ := h.inRange hstaged
    exact (h.trampolines a (InTrampolines.of_hookedAddr hk hin)).2 i hi hia
  · rw [hlen]
    decide

/-- The loop hooks all entries: each address is found in a section of the DOL, whose header the
hooks before did not touch. -/
theorem Hookable.patchEntries_eq (h : Hookable mem dol rg) {fns : List RrcDvdFunction} {i : ℕ}
    (hi : i + fns.length ≤ dvdFunctions.length) {m : Memory}
    (hm : ∀ a, InHeader dol a → m a = mem a) :
    patchEntries dol i (fns.map (functionPatchEntry rg)) m =
      .ok (hooks i (fns.map fun fn => (functionPatchEntry rg fn, stagedFunction mem dol rg fn)) m) := by
  induction fns generalizing i m with
  | nil => rfl
  | cons fn fns ih =>
    rw [List.length_cons] at hi
    have haddr : rrcDvdfAddrs rg fn ≠ 0 := by cases rg <;> cases fn <;> decide
    have hlow : hookedAddr i < rrcSignatureAddress := by
      have hcount : dvdFunctions.length = 5 := rfl
      have hstart : rrcTrampolineStart.toNat = 0x81782d60 := rfl
      have hend : rrcSignatureAddress.toNat = 0x817ffff8 := rfl
      rw [UInt32.lt_iff_toNat_lt, hookedAddr, UInt32.toNat_add,
        UInt32.toNat_ofNat_of_lt' (show i * 32 < 2 ^ 32 by omega)]
      omega
    obtain ⟨j, hj, hfind, -⟩ := h.function fn
    have hentry : patchEntry dol i (functionPatchEntry rg fn) m =
        .ok (hook m i (functionPatchEntry rg fn) (stagedFunction mem dol rg fn)) := by
      rw [patchEntry, show (functionPatchEntry rg fn).addr = rrcDvdfAddrs rg fn from rfl,
        if_neg haddr, find_congr hm, hfind]
      exact if_pos hlow
    -- the header is as it was
    have hheader : ∀ a, InHeader dol a →
        hook m i (functionPatchEntry rg fn) (stagedFunction mem dol rg fn) a = mem a := by
      intro a ha
      rw [hook_of_outside ⟨rfl, rfl⟩, hm a ha]
      · exact fun hin => (h.trampolines a (InTrampolines.of_hookedAddr (by omega) hin)).1 ha
      · intro hin
        obtain ⟨k, hk, hka⟩ := h.inRange hin
        exact h.header k hk a hka ha
    rw [List.map_cons, patchEntries, hentry]
    exact ih (by omega) hheader

/-- **What `patch_dvd_functions` does**: every function has its trampoline and its jump, and all
other bytes are as they were. -/
theorem Hookable.patchDvdFunctions_spec (h : Hookable mem dol rg) {region : Char}
    (hregion : rrcRegionCharToRegion region = some rg) :
    ∃ mem', patchDvdFunctions mem dol region = .ok mem' ∧
      (∀ fn, mem'.WordsAt (hookedAddr fn.index) (prologue mem dol rg fn ++ rrcDvdfBackjmpInstrs rg fn) ∧
        mem'.WordsAt (stagedFunction mem dol rg fn) (rrcDvdfJmpToCustomInstrs fn)) ∧
      ∀ a, ¬ InTrampolines a → (∀ fn, ¬ InRange (stagedFunction mem dol rg fn) 16 a) →
        mem' a = mem a := by
  have hlen : (functionPairs mem dol rg).length = dvdFunctions.length := List.length_map _
  refine ⟨hooks 0 (functionPairs mem dol rg) mem, ?_, fun fn => ?_, fun a ha hfns => ?_⟩
  · rw [patchDvdFunctions, hregion]
    exact h.patchEntries_eq (Nat.le_of_eq (Nat.zero_add _)) fun _ _ => rfl
  · have hlt := index_lt fn
    have hspec := hooks_spec h.hooksApart mem (hlen ▸ hlt)
    have hfn : dvdFunctions[fn.index] = fn := getElem_index fn
    simp only [functionPairs, List.getElem_map, hfn, Nat.zero_add] at hspec
    exact hspec
  · refine hooks_of_outside h.hooksApart (fun k _ hk hin => ha ?_) ?_
    · rw [Nat.zero_add, hlen] at hk
      exact InTrampolines.of_hookedAddr hk hin
    · intro pair hp
      obtain ⟨fn, -, rfl⟩ := List.mem_map.mp hp
      exact hfns fn

end Patch

/-! ### The game -/

/-- The address is one of the first instructions of the functions, or of the trampolines. -/
def InHooks (rg : RrcDvdRegion) (a : UInt32) : Prop :=
  InTrampolines a ∨ ∃ fn, InRange (rrcDvdfAddrs rg fn) 16 a

/-- What `patch_dol` does keeps away from the hooks. -/
structure BootsHooked (mem : Memory) (dol : UInt32) (rg : RrcDvdRegion) (memPatches : UInt32)
    (memPatchCount : ℕ) : Prop where
  hookable : Hookable mem dol rg
  separated : Separated mem dol memPatches memPatchCount
  bssEnds : BssEnds mem dol
  keeps : PatchListApart mem memPatches memPatchCount
  list : ∀ a, InRange memPatches (sizeofMemoryPatch * memPatchCount) a →
    ¬ InTrampolines a ∧ ∀ i < rrcDolSectionCount, ¬ Staged mem dol i a
  patches : ∀ a, InHooks rg a → ∀ patch ∈ patchList mem memPatches memPatchCount,
    ¬ InRange patch.addr 4 a
  trampolines : ∀ a, InTrampolines a → ¬ Overwritten mem dol a

section Game

variable {mem mem' : Memory} {dol : UInt32} {rg : RrcDvdRegion} {memPatches : UInt32}
  {memPatchCount : ℕ}

/-- With the same header the same addresses are overwritten, as the header has the places of the BSS
and the sections. -/
theorem overwritten_congr (h : ∀ a, InHeader dol a → mem' a = mem a) {a : UInt32} :
    Overwritten mem' dol a ↔ Overwritten mem dol a := by
  have hcount : rrcDolSectionCount = 18 := rfl
  have hfield : ∀ {n : ℕ}, n < 57 → dolField mem' dol n = dolField mem dol n := fun hn =>
    dolField_congr hn h
  have hbss : InBss mem' dol a ↔ InBss mem dol a := by
    rw [InBss, InBss, dolBssAddr, dolBssSize, hfield (by omega), hfield (by omega)]
    rfl
  have hsection : ∀ i < rrcDolSectionCount, (InSection mem' dol i a ↔ InSection mem dol i a) := by
    intro i hi
    rw [InSection, InSection, dolSectionAddr, dolSectionSize, hfield (by omega), hfield (by omega)]
    rfl
  rw [Overwritten, Overwritten, hbss]
  constructor
  · rintro (hin | ⟨i, hi, hin⟩)
    · exact Or.inl hin
    · exact Or.inr ⟨i, hi, (hsection i hi).mp hin⟩
  · rintro (hin | ⟨i, hi, hin⟩)
    · exact Or.inl hin
    · exact Or.inr ⟨i, hi, (hsection i hi).mpr hin⟩

/-- Whether what is overwritten is in the way depends on the header of the DOL only, so it is the
same in a memory with the same header. -/
theorem Separated.congr (h : Separated mem dol memPatches memPatchCount)
    (hsame : ∀ a, InHeader dol a → mem' a = mem a) : Separated mem' dol memPatches memPatchCount := by
  have hcount : rrcDolSectionCount = 18 := rfl
  have hfield : ∀ {n : ℕ}, n < 57 → dolField mem' dol n = dolField mem dol n := fun hn =>
    dolField_congr hn hsame
  refine ⟨fun a hover => h.header a ((overwritten_congr hsame).mp hover), fun a hover j hj hin => ?_,
    fun a hover => h.patches a ((overwritten_congr hsame).mp hover), fun a i hi j hj hin hin' => ?_⟩
  · rw [Staged, dolSection, dolSectionSize, hfield (by omega), hfield (by omega)] at hin
    exact h.staged a ((overwritten_congr hsame).mp hover) j hj hin
  · rw [InSection, dolSectionAddr, dolSectionSize, hfield (by omega), hfield (by omega)] at hin hin'
    exact h.sections a i hi j hj hin hin'

/-- Patches elsewhere leave an address alone, whatever they write. -/
theorem foldl_applyPatch_of_outside {patches : List RrcRiivoMemoryPatch} {a : UInt32}
    (h : ∀ patch ∈ patches, ¬ InRange patch.addr 4 a) (image : Memory) :
    patches.foldl applyPatch image a = image a := by
  induction patches generalizing image with
  | nil => rfl
  | cons patch patches ih =>
    rw [List.forall_mem_cons] at h
    rw [List.foldl_cons, ih h.2, applyPatch_of_notInRange h.1]

/-- The memory that `patch_dol` leaves: the patches are applied to what the header describes. -/
theorem patchDol_fst (h : Separated mem dol memPatches memPatchCount) (hbss : BssEnds mem dol)
    (hkeeps : PatchListApart mem memPatches memPatchCount) :
    (patchDol mem dol memPatches memPatchCount).1 =
      (patchList mem memPatches memPatchCount).foldl applyPatch
        (imageOf mem dol rrcDolSectionCount) := by
  have hlist : ∀ a, InRange memPatches (sizeofMemoryPatch * memPatchCount) a →
      imageOf mem dol rrcDolSectionCount a = mem a := fun a ha =>
    imageOf_of_not_overwritten (Nat.le_refl _) fun hover => h.patches a hover ha
  rw [patchDol]
  dsimp only
  rw [zeroBss_eq hbss, copySections_imageOf h, runMemPatches_eq (hkeeps.keeps _) hlist]

/-- What the game has where no patch writes is what the image of the DOL has there. -/
theorem patchDol_of_outside (h : Separated mem dol memPatches memPatchCount) (hbss : BssEnds mem dol)
    (hkeeps : PatchListApart mem memPatches memPatchCount) {a : UInt32}
    (ha : ∀ patch ∈ patchList mem memPatches memPatchCount, ¬ InRange patch.addr 4 a) :
    (patchDol mem dol memPatches memPatchCount).1 a = imageOf mem dol rrcDolSectionCount a := by
  rw [patchDol_fst h hbss hkeeps, foldl_applyPatch_of_outside ha]

/-- A section is where it belongs: an address in it has the byte that was staged for it, and no
other section claims the address. -/
theorem imageOf_of_inSection (h : Separated mem dol memPatches memPatchCount) {j : ℕ}
    (hj : j < rrcDolSectionCount) {a : UInt32} (ha : InSection mem dol j a) :
    imageOf mem dol rrcDolSectionCount a =
      mem (dol + dolSection mem dol j + (a - dolSectionAddr mem dol j)) := by
  have hfind : (List.range rrcDolSectionCount).find? (fun i => InSection mem dol i a) = some j := by
    cases hfirst : (List.range rrcDolSectionCount).find? (fun i => InSection mem dol i a) with
    | none =>
      rw [List.find?_eq_none] at hfirst
      exact absurd (decide_eq_true ha) (hfirst j (List.mem_range.mpr hj))
    | some i =>
      have hi := List.mem_range.mp (List.mem_of_find?_eq_some hfirst)
      have hin := List.find?_some (p := fun i => decide (InSection mem dol i a)) hfirst
      rw [decide_eq_true_iff] at hin
      rw [h.sections a i hi j hj hin ha]
  rw [imageOf, hfind]

/-- An entry of the patch list is read as the same from a memory with the same bytes in the list. -/
theorem patchList_congr (h : ∀ a, InRange memPatches (sizeofMemoryPatch * memPatchCount) a →
    mem' a = mem a) {i : ℕ} (hi : i < memPatchCount) :
    patchAt mem' memPatches i = patchAt mem memPatches i := by
  refine patchAt_congr fun a ha => h a (ha.of_offset ?_)
  rw [sizeofMemoryPatch]
  omega

/-- Another memory with the header and the patch list that `patch_dol` reads. -/
structure SameBoot (mem mem' : Memory) (dol memPatches : UInt32) (memPatchCount : ℕ) : Prop where
  header : ∀ a, InHeader dol a → mem' a = mem a
  list : ∀ a, InRange memPatches (sizeofMemoryPatch * memPatchCount) a → mem' a = mem a

/-- Hooking leaves the header and the patch list as they are, as it changes only the trampolines and
the staged functions. -/
theorem BootsHooked.sameBoot (h : BootsHooked mem dol rg memPatches memPatchCount)
    (hothers : ∀ a, ¬ InTrampolines a → (∀ fn, ¬ InRange (stagedFunction mem dol rg fn) 16 a) →
      mem' a = mem a) : SameBoot mem mem' dol memPatches memPatchCount := by
  constructor
  · refine fun a ha => hothers a (fun hin => (h.hookable.trampolines a hin).1 ha) fun fn hin => ?_
    obtain ⟨i, hi, hia⟩ := h.hookable.inRange hin
    exact h.hookable.header i hi a hia ha
  · refine fun a ha => hothers a (h.list a ha).1 fun fn hin => ?_
    obtain ⟨i, hi, hia⟩ := h.hookable.inRange hin
    exact (h.list a ha).2 i hi hia

/-- The fields of the header are the same in both memories. -/
theorem SameBoot.field (hsame : SameBoot mem mem' dol memPatches memPatchCount) {n : ℕ}
    (hn : n < 57) : dolField mem' dol n = dolField mem dol n := dolField_congr hn hsame.header

/-- The same entries are the same patches: the list is read from its own bytes alone. -/
theorem patchList_eq (h : ∀ a, InRange memPatches (sizeofMemoryPatch * memPatchCount) a →
    mem' a = mem a) :
    patchList mem' memPatches memPatchCount = patchList mem memPatches memPatchCount :=
  List.map_congr_left fun _ hi => patchList_congr h (List.mem_range.mp hi)

/-- The patch list is the same before and after the hooking, since its bytes are. -/
theorem SameBoot.patchList (hsame : SameBoot mem mem' dol memPatches memPatchCount) :
    patchList mem' memPatches memPatchCount = patchList mem memPatches memPatchCount :=
  patchList_eq hsame.list

/-- The sections are staged at the same addresses in both memories. -/
theorem SameBoot.staged (hsame : SameBoot mem mem' dol memPatches memPatchCount) {i : ℕ}
    (hi : i < rrcDolSectionCount) {a : UInt32} : Staged mem' dol i a ↔ Staged mem dol i a := by
  have hcount : rrcDolSectionCount = 18 := rfl
  rw [Staged, Staged, dolSection, dolSectionSize, hsame.field (by omega), hsame.field (by omega)]
  rfl

/-- With the same header and patch list the game boots alike. -/
theorem BootsHooked.congr (h : BootsHooked mem dol rg memPatches memPatchCount)
    (hsame : SameBoot mem mem' dol memPatches memPatchCount) :
    BootsHooked mem' dol rg memPatches memPatchCount := by
  have hcount : rrcDolSectionCount = 18 := rfl
  refine ⟨⟨fun fn => ?_, fun i hi j hj hne a hin hin' => ?_, fun i hi a hin => ?_, fun a ha => ?_⟩,
    h.separated.congr hsame.header, ?_, fun j hj i hi a ha => ?_, fun a ha => ?_, fun a ha => ?_,
    fun a ha hover => ?_⟩
  · obtain ⟨virtAddr, j, hfound, hroom⟩ := h.hookable.found fn
    have hj := find_lt hfound
    refine ⟨virtAddr, j, (find_congr hsame.header _).trans hfound, ?_⟩
    rw [dolSectionAddr, dolSectionSize, hsame.field (by omega), hsame.field (by omega)]
    exact hroom
  · exact h.hookable.staged i hi j hj hne a ((hsame.staged hi).mp hin) ((hsame.staged hj).mp hin')
  · exact h.hookable.header i hi a ((hsame.staged hi).mp hin)
  · obtain ⟨hheader, hstaged⟩ := h.hookable.trampolines a ha
    exact ⟨hheader, fun i hi hin => hstaged i hi ((hsame.staged hi).mp hin)⟩
  · rw [BssEnds, dolBssSize, dolBssAddr, hsame.field (by omega), hsame.field (by omega)]
    exact h.bssEnds
  · rw [patchList_congr hsame.list (hi.trans hj)] at ha
    exact h.keeps j hj i hi a ha
  · obtain ⟨htrampolines, hstaged⟩ := h.list a ha
    exact ⟨htrampolines, fun i hi hin => hstaged i hi ((hsame.staged hi).mp hin)⟩
  · rw [hsame.patchList]
    exact h.patches a ha
  · exact h.trampolines a ha ((overwritten_congr hsame.header).mp hover)

/-- What the game has where no patch writes, with the same header and patch list. -/
theorem BootsHooked.patchDol_eq (h : BootsHooked mem dol rg memPatches memPatchCount)
    (hsame : SameBoot mem mem' dol memPatches memPatchCount) {a : UInt32}
    (ha : ∀ patch ∈ patchList mem memPatches memPatchCount, ¬ InRange patch.addr 4 a) :
    (patchDol mem' dol memPatches memPatchCount).1 a = imageOf mem' dol rrcDolSectionCount a := by
  have h' := h.congr hsame
  exact patchDol_of_outside h'.separated h'.bssEnds h'.keeps (hsame.patchList ▸ ha)

/-- What is neither overwritten nor patched is kept while the DOL is copied. -/
theorem BootsHooked.patchDol_kept (h : BootsHooked mem dol rg memPatches memPatchCount)
    (hsame : SameBoot mem mem' dol memPatches memPatchCount) {a : UInt32}
    (hover : ¬ Overwritten mem dol a)
    (ha : ∀ patch ∈ patchList mem memPatches memPatchCount, ¬ InRange patch.addr 4 a) :
    (patchDol mem' dol memPatches memPatchCount).1 a = mem' a := by
  rw [h.patchDol_eq hsame ha]
  exact imageOf_of_not_overwritten (Nat.le_refl _) fun hin =>
    hover ((overwritten_congr hsame.header).mp hin)

/-- What the game has at the hooks. -/
structure HookedGame (rg : RrcDvdRegion) (prologues : RrcDvdFunction → List UInt32) (game : Memory) :
    Prop where
  functions : ∀ fn, game.WordsAt (rrcDvdfAddrs rg fn) (rrcDvdfJmpToCustomInstrs fn)
  trampolines : ∀ fn, game.WordsAt (hookedAddr fn.index) (prologues fn ++ rrcDvdfBackjmpInstrs rg fn)

/-- **The game is hooked**: if the trampolines and the jumps are in place when the DOL is copied,
then they are so in the memory at the entry point. -/
theorem BootsHooked.hookedGame (h : BootsHooked mem dol rg memPatches memPatchCount)
    (htrampolines : ∀ fn, mem'.WordsAt (hookedAddr fn.index)
      (prologue mem dol rg fn ++ rrcDvdfBackjmpInstrs rg fn))
    (hfunctions : ∀ fn, mem'.WordsAt (stagedFunction mem dol rg fn) (rrcDvdfJmpToCustomInstrs fn))
    (hsame : SameBoot mem mem' dol memPatches memPatchCount) :
    HookedGame rg (prologue mem dol rg) (patchDol mem' dol memPatches memPatchCount).1 := by
  have hcount : rrcDolSectionCount = 18 := rfl
  constructor
  · intro fn
    obtain ⟨j, hj, -, hvirt, hroom⟩ := h.hookable.function fn
    refine (hfunctions fn).copied fun k hk => ?_
    have hlen : (rrcDvdfJmpToCustomInstrs fn).length = 4 := rfl
    have hoffset : dolSection mem' dol j = dolSection mem dol j := hsame.field (by omega)
    have haddr : dolSectionAddr mem' dol j = dolSectionAddr mem dol j := hsame.field (by omega)
    have hsize : dolSectionSize mem' dol j = dolSectionSize mem dol j := hsame.field (by omega)
    have hin : InRange (rrcDvdfAddrs rg fn) 16 (rrcDvdfAddrs rg fn + UInt32.ofNat k) :=
      Memory.inRange_ofNat (by omega) (by omega)
    have hsection : InSection mem' dol j (rrcDvdfAddrs rg fn + UInt32.ofNat k) := by
      rw [InSection, haddr, hsize]
      refine InRange.of_offset ?_ hroom
      rwa [UInt32.ofNat_toNat, UInt32.add_comm (dolSectionAddr mem dol j), UInt32.sub_add_cancel]
    rw [h.patchDol_eq hsame (h.patches _ (Or.inr ⟨fn, hin⟩)),
      imageOf_of_inSection (h.separated.congr hsame.header) hj hsection, hvirt, hoffset, haddr,
      add_add_sub_assoc]
  · intro fn
    refine (htrampolines fn).congr fun a ha => ?_
    have hin : InTrampolines a := InTrampolines.of_hookedAddr (index_lt fn) ha
    exact h.patchDol_kept hsame (h.trampolines a hin) (h.patches a (Or.inl hin))

/-- **The hooks work** in the game that `patch_dol` leaves: hooking changes the trampolines and
the staged functions only, a call of a DVD function goes to its replacement, and a call of a
trampoline does what the overwritten instructions did at their old place and goes on behind
them.  The instructions are copied as they are, so this last part needs that they do the same
wherever they stand, which a relative branch does not, and that they do not write the
trampolines. -/
theorem hooked_game_runs (h : BootsHooked mem dol rg memPatches memPatchCount) {region : Char}
    (hregion : rrcRegionCharToRegion region = some rg) :
    ∃ mem', patchDvdFunctions mem dol region = .ok mem' ∧
      (∀ a, ¬ InTrampolines a → (∀ fn, ¬ InRange (stagedFunction mem dol rg fn) 16 a) →
        mem' a = mem a) ∧
      ∀ (other : UInt32 → Ppc → Ppc) (c : Ppc),
        (∀ a, InHooks rg a → c.mem a = (patchDol mem' dol memPatches memPatchCount).1 a) → ∀ fn,
          (c.pc = rrcDvdfAddrs rg fn →
            (Ppc.step other)^[4] c = c.jumped 9 (dvdCustomFunction fn)) ∧
          (dvdTrampoline fn = some c.pc → (∀ w ∈ prologue mem dol rg fn, Ppc.Movable other w) →
            Ppc.Keeps other {a | InTrampolines a} c (prologue mem dol rg fn) →
              (Ppc.step other)^[8] c =
                (Ppc.execAll other { c with pc := rrcDvdfAddrs rg fn } (prologue mem dol rg fn)).jumped
                  9 (rrcDvdfAddrs rg fn + 16)) := by
  obtain ⟨mem', hpatch, hwords, hothers⟩ := h.hookable.patchDvdFunctions_spec hregion
  have hgame := h.hookedGame (fun fn => (hwords fn).1) (fun fn => (hwords fn).2)
    (h.sameBoot hothers)
  refine ⟨mem', hpatch, hothers, fun other c hc fn => ⟨fun hpc => ?_, fun hpc hm hkeeps => ?_⟩⟩
  · have hwordsAt : c.mem.WordsAt c.pc (rrcDvdfJmpToCustomInstrs fn) := by
      rw [hpc]
      exact (hgame.functions fn).congr fun a ha => hc a (Or.inr ⟨fn, ha⟩)
    rw [← rrcDvdfCustomAddrs_eq]
    exact (jump_rrcPpcBranch _).iterate hwordsAt
  · have htrampoline := hookedAddr_index hpc
    have hin : ∀ a, InRange c.pc 32 a → InTrampolines a := fun a ha =>
      InTrampolines.of_hookedAddr (index_lt fn) (htrampoline ▸ ha)
    have hwordsAt : c.mem.WordsAt c.pc (prologue mem dol rg fn ++ rrcDvdfBackjmpInstrs rg fn) := by
      rw [← htrampoline]
      exact (hgame.trampolines fn).congr fun a ha =>
        hc a (Or.inl (InTrampolines.of_hookedAddr (index_lt fn) ha))
    have hlen : (prologue mem dol rg fn).length = 4 := Memory.length_wordsFrom _ _ _
    have hback : Ppc.Jump 9 (rrcDvdfAddrs rg fn + UInt32.ofNat (4 * (prologue mem dol rg fn).length))
        (rrcDvdfBackjmpInstrs rg fn) := by
      rw [hlen, rrcDvdfBackjmpInstrs, rrcDvdfBackjmpAddrs_eq]
      exact jump_rrcPpcBranch _
    have hrun := Ppc.Movable.iterate hm hback hkeeps hwordsAt hin
    rw [hlen] at hrun
    exact hrun

end Game

/-- A game whose one section has the DVD functions of region `P`, without instructions. -/
def dvdGame : Memory :=
  let header : Memory := Memory.write (fun _ => 0) 0x80901000 (be32 0x100)
  (header.write 0x80901048 (be32 0x8015df00)).write 0x80901090 (be32 0x1000)

/-- The game of the example has one section; all others are empty. -/
theorem dvdGame_size :
    ∀ i < rrcDolSectionCount, dolSectionSize dvdGame 0x80901000 i = if i = 0 then 0x1000 else 0 := by
  decide +kernel

/-- What is staged of it is this section, behind the header. -/
theorem dvdGame_staged {i : ℕ} (hi : i < rrcDolSectionCount) {a : UInt32}
    (h : Staged dvdGame 0x80901000 i a) : i = 0 ∧ InRange 0x80901100 0x1000 a := by
  have hbase : (0x80901000 : UInt32) + dolSection dvdGame 0x80901000 0 = 0x80901100 := by
    decide +kernel
  rw [Staged, dvdGame_size i hi] at h
  split at h
  · rename_i hzero
    rw [hzero, hbase] at h
    exact ⟨hzero, h⟩
  · exact absurd h (Nat.not_lt_zero _)

/-- What `patch_dol` overwrites is where this section belongs, since there is no BSS. -/
theorem dvdGame_overwritten {a : UInt32} (h : Overwritten dvdGame 0x80901000 a) :
    InRange 0x8015df00 0x1000 a := by
  have hbss : dolBssSize dvdGame 0x80901000 = 0 := by decide +kernel
  have haddr : dolSectionAddr dvdGame 0x80901000 0 = 0x8015df00 := by decide +kernel
  rcases h with hin | ⟨i, hi, hin⟩
  · rw [InBss, hbss] at hin
    exact absurd hin (Nat.not_lt_zero _)
  · rw [InSection, dvdGame_size i hi] at hin
    split at hin
    · rename_i hzero
      rwa [hzero, haddr] at hin
    · exact absurd hin (Nat.not_lt_zero _)

/-- In this game the sections, the header, the trampolines and the DVD functions are apart, so
hooking it and booting it do not get in each other's way. -/
theorem dvdGame_boots (memPatches : UInt32) : BootsHooked dvdGame 0x80901000 .p memPatches 0 := by
  have hbss : dolBssSize dvdGame 0x80901000 = 0 := by decide +kernel
  have hsize : dolSectionSize dvdGame 0x80901000 0 = 0x1000 := by decide +kernel
  have haddr : dolSectionAddr dvdGame 0x80901000 0 = 0x8015df00 := by decide +kernel
  have hfound : ∀ fn, rrcBinaryFindSectionByAddr dvdGame 0x80901000 (rrcDvdfAddrs .p fn) =
      some (0x80901100 + (rrcDvdfAddrs .p fn - 0x8015df00), 0) := by
    intro fn
    cases fn <;> decide +kernel
  refine ⟨⟨fun fn => ⟨_, 0, hfound fn, ?_⟩, fun i hi j hj hne a hin hin' => ?_, fun i hi a hin => ?_,
    fun a hin => ⟨?_, fun i hi hin' => ?_⟩⟩, ⟨fun a hover => ?_, fun a hover j hj hin => ?_,
    fun a _ => Nat.not_lt_zero _, fun a i hi j hj hin hin' => ?_⟩, Or.inl hbss,
    fun j hj => absurd hj (Nat.not_lt_zero j), fun a hin => absurd hin (Nat.not_lt_zero _),
    fun a _ patch hp => absurd hp List.not_mem_nil, fun a hin hover => ?_⟩
  · rw [hsize, haddr]
    cases fn <;> decide
  · exact hne ((dvdGame_staged hi hin).1.trans (dvdGame_staged hj hin').1.symm)
  · exact Memory.not_inRange_of_le (dvdGame_staged hi hin).2 (Or.inr (by decide))
  · exact Memory.not_inRange_of_le hin (Or.inr (by decide))
  · exact Memory.not_inRange_of_le hin (Or.inr (by decide)) (dvdGame_staged hi hin').2
  · exact Memory.not_inRange_of_le (dvdGame_overwritten hover) (Or.inl (by decide))
  · exact Memory.not_inRange_of_le (dvdGame_overwritten hover) (Or.inl (by decide))
      (dvdGame_staged hj hin).2
  · have hzero : ∀ k < rrcDolSectionCount, InSection dvdGame 0x80901000 k a → k = 0 := by
      intro k hk hka
      by_contra hne
      rw [InSection, dvdGame_size k hk, if_neg hne] at hka
      exact Nat.not_lt_zero _ hka
    rw [hzero i hi hin, hzero j hj hin']
  · exact Memory.not_inRange_of_le (dvdGame_overwritten hover) (Or.inl (by decide)) hin

/-- The first instructions of a function with a stack frame: `stwu r1, -0xf0(r1)`, `mflr r0`,
`stw r0, 0xf4(r1)` and `stw r31, 0xec(r1)`. -/
def framePrologue : List UInt32 := [0x9421ff10, 0x7c0802a6, 0x900100f4, 0x93e100ec]

/-- The game, where `DVDOpen` of region `P` begins like that. -/
def frameGame : Memory := dvdGame.write 0x809014bc (framePrologue.flatMap be32)

/-- The instructions are none of the header, so the game boots as before. -/
theorem frameGame_boots : BootsHooked frameGame 0x80901000 .p 0 0 := by
  refine (dvdGame_boots 0).congr ⟨fun a ha => ?_, fun a ha => absurd ha (Nat.not_lt_zero _)⟩
  refine Memory.write_of_notInRange _ (Memory.not_inRange_of_le ha (Or.inl ?_))
  rw [Memory.length_flatMap_be32]
  decide

/-- What an instruction with a displacement adds to a register: its last 16 bits, with a sign. -/
def displacement (w : UInt32) : UInt32 :=
  UInt32.ofNat (Ppc.field w 0 16) - if Ppc.field w 15 1 = 1 then 0x10000 else 0

/-- Instructions that set up a stack frame: `stw`, `stwu` and `mflr`. -/
def frameInstruction (w : UInt32) (c : Ppc) : Ppc :=
  let rs := Ppc.regField w 21
  let ra := Ppc.regField w 16
  let ea := (if ra.val = 0 then 0 else c.gpr ra) + displacement w
  if Ppc.field w 26 6 = 36 then
    { c with mem := c.mem.write ea (be32 (c.gpr rs)), pc := c.pc + 4 }
  else if Ppc.field w 26 6 = 37 then
    { c with
      mem := c.mem.write ea (be32 (c.gpr rs))
      gpr := Function.update c.gpr ra ea
      pc := c.pc + 4 }
  else if Ppc.field w 26 6 = 31 ∧ Ppc.field w 1 10 = 339 ∧ Ppc.field w 11 10 = 256 then
    { c with gpr := Function.update c.gpr rs c.lr, pc := c.pc + 4 }
  else { c with pc := c.pc + 4 }

section Frame

variable (c : Ppc)

/-- `stwu r1, -240(r1)` stores the stack pointer at the bottom of the new frame and takes that for
the new one. -/
theorem exec_stwu : c.exec frameInstruction (Ppc.decode 0x9421ff10) =
    { c with
      mem := c.mem.write (c.gpr 1 + 0xffffff10) (be32 (c.gpr 1))
      gpr := Function.update c.gpr 1 (c.gpr 1 + 0xffffff10)
      pc := c.pc + 4 } := rfl

/-- `mflr r0` copies the link register to register 0, and nothing else changes but the program
counter. -/
theorem exec_mflr : c.exec frameInstruction (Ppc.decode 0x7c0802a6) =
    { c with gpr := Function.update c.gpr 0 c.lr, pc := c.pc + 4 } := rfl

/-- `stw r0, 244(r1)` stores it in the frame of the caller. -/
theorem exec_stw_r0 : c.exec frameInstruction (Ppc.decode 0x900100f4) =
    { c with mem := c.mem.write (c.gpr 1 + 0xf4) (be32 (c.gpr 0)), pc := c.pc + 4 } := rfl

/-- `stw r31, 236(r1)` saves a register in the new frame. -/
theorem exec_stw_r31 : c.exec frameInstruction (Ppc.decode 0x93e100ec) =
    { c with mem := c.mem.write (c.gpr 1 + 0xec) (be32 (c.gpr 31)), pc := c.pc + 4 } := rfl

/-- None of the four is a branch, so they can be moved. -/
theorem framePrologue_movable : ∀ w ∈ framePrologue, Ppc.Movable frameInstruction w := by
  simp only [framePrologue, List.forall_mem_cons, List.not_mem_nil, false_imp_iff, implies_true,
    and_true]
  exact ⟨fun _ _ => rfl, fun _ _ => rfl, fun _ _ => rfl, fun _ _ => rfl⟩

/-- With a stack in MEM1 below the trampolines, they do not write these. -/
theorem framePrologue_keeps (hstack : c.gpr 1 = 0x80399180) :
    Ppc.Keeps frameInstruction {a | InTrampolines a} c framePrologue := by
  have hword : ∀ (m : Memory) (p w a : UInt32), p.toNat + 4 ≤ rrcTrampolineStart.toNat →
      InTrampolines a → m.write p (be32 w) a = m a := fun m p w a hp ha =>
    Memory.write_of_notInRange m (Memory.not_inRange_of_le ha (Or.inr ⟨hp, by decide⟩))
  -- the stack pointer behind `stwu`
  have hframe : ∀ lr, Function.update (Function.update c.gpr 1 0x80399090) 0 lr 1 = 0x80399090 :=
    fun _ => rfl
  have hsum : (0x80399180 : UInt32) + 0xffffff10 = 0x80399090 := by decide
  simp only [framePrologue, Ppc.Keeps, exec_stwu, exec_mflr, exec_stw_r0, exec_stw_r31, hstack,
    hsum, hframe, implies_true, and_true, true_and]
  exact ⟨fun a ha => hword _ _ _ a (by decide) ha, fun a ha => hword _ _ _ a (by decide) ha,
    fun a ha => hword _ _ _ a (by decide) ha⟩

end Frame

/-- A call of `DVDOpen` goes to the runtime extension, and a call of its trampoline sets up the
stack frame and goes on in `DVDOpen` behind that. -/
theorem hooked_game_runs_frameGame :
    ∃ mem', patchDvdFunctions frameGame 0x80901000 'P' = .ok mem' ∧
      ∀ c : Ppc, c.mem = (patchDol mem' 0x80901000 0 0).1 → c.gpr 1 = 0x80399180 →
        (c.pc = 0x8015e2bc → (Ppc.step frameInstruction)^[4] c = c.jumped 9 0x81782ea0) ∧
        (c.pc = 0x81782da0 →
          let d := (Ppc.step frameInstruction)^[8] c
          d.pc = 0x8015e2cc ∧ d.gpr 1 = 0x80399090 ∧ d.gpr 0 = c.lr) := by
  have hregion : rrcRegionCharToRegion 'P' = some .p := rfl
  obtain ⟨mem', hpatch, -, hrun⟩ := hooked_game_runs frameGame_boots hregion
  have hprologue : prologue frameGame 0x80901000 .p .open = framePrologue := by decide +kernel
  refine ⟨mem', hpatch, fun c hc hstack => ?_⟩
  obtain ⟨hjump, htrampoline⟩ := hrun frameInstruction c (fun a _ => congrFun hc a) .open
  refine ⟨hjump, fun hpc => ?_⟩
  rw [hprologue] at htrampoline
  intro d
  have hd : d = _ := htrampoline (by rw [hpc]; rfl) framePrologue_movable
    (framePrologue_keeps c hstack)
  rw [hd]
  refine ⟨rfl, ?_, rfl⟩
  show c.gpr 1 + 0xffffff10 = 0x80399090
  rw [hstack]
  rfl

end RrLauncher
