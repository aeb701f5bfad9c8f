/-
# The launched game

A launch that enters the game (`Launches`) ends in one memory, which the runtime extension and the
game run in.  Each stage is known to leave some addresses alone, so that the hooks, the tables for
the runtime and what `main` read from the disc are there at the end (`launched_game`).
-/

import RrLauncher.Loader.Hooked
import RrLauncher.Loader.Launch
import RrLauncher.Loader.PatchEntries
import RrLauncher.Loader.Registrations
import RrLauncher.Runtime.Disc
import Mathlib.Data.List.Sort

namespace RrLauncher

open ByteReader (be32)
open CStr (lit)
open Memory (InRange)
open Mem1 (LoaderState FileReplacement start run publish storeDisc)

/-! ### What was parsed -/

section Published

variable {src : PatchSource} {qsort : List FileReplacement → List FileReplacement}
  {settings : RrcSettingsfile} {mem₀ mem : Memory} {mem1 : UInt32} {s : LoaderState}
  {disc : Mem1.RrcRiivoDisc}

/-- **What was parsed is found** by the runtime, in any memory that keeps what was published. -/
theorem finds_published (haligned : 32 ∣ mem1.toNat) (hqsort : SortsByHash qsort)
    (hpublish : publish qsort
      (run src.onCard (start mem₀ mem1) (src.documentWalk settings).steps) = some (s, disc))
    (hfits : s.arena.Fits) (hneeded : src.entriesNeeded settings ≤ maxMemoryPatches)
    (hkeeps : Keeps mem1 s disc mem) :
    (∀ path, Finds (runtimeDisc mem s.sdFiles.length)
      (rteDvdResolvePathToEntryNum (runtimeDisc mem s.sdFiles.length) path)
      (replacedBy src.onCard (src.registrations settings) path)) ∧
    ∀ e < s.sdFiles.length, (sdFileAt mem e).2 = 0 := by
  have hprev := hfits.of_prefix (Mem1.grows_publish hpublish)
  have hroom := room_start src.onCard mem₀ mem1 hprev hneeded
  rw [← countP_isMemory_documentWalk] at hroom
  have hptr := (Mem1.tables_run src.onCard mem₀ mem1 haligned _ hprev hroom).2
  have htables := tables_documentWalk src settings mem₀ mem1 haligned hprev hneeded
  have hagrees := agrees_handleFilePatches src.onCard (start mem₀ mem1).memPatches
    (src.registrations settings)
  rw [← htables] at hagrees
  have hpart := Mem1.run_memoryPart src.onCard mem₀ mem1 (src.documentWalk settings).steps
  have hinv := Mem1.Inv.run src.onCard mem₀ mem1 haligned (src.documentWalk settings).steps hprev hroom
  have hbase : (run src.onCard (start mem₀ mem1) (src.documentWalk settings).steps).memPatches =
      (start mem₀ mem1).memPatches := congrArg Prod.fst hpart
  rw [← hbase] at hinv
  obtain ⟨hpub, hinfo⟩ := publishes_runtimeDisc hqsort hpublish hinv hptr hfits hagrees.inv
    (Mem1.closed_run src.onCard mem₀ mem1 _) hkeeps
  have hsdFiles : s.sdFiles =
      (run src.onCard (start mem₀ mem1) (src.documentWalk settings).steps).sdFiles := by
    obtain ⟨sd, rep, fil, -, -, -, rfl, -⟩ := Mem1.publish_some hpublish
    rfl
  rw [htables] at hpub
  rw [hsdFiles]
  exact ⟨finds_replacedBy (lowered_registrations src settings) hpub, hinfo⟩

/-- **MEM1 is written** between the last and the first value of the pointer, and the memory patches
lie there. -/
theorem eqOn_published (hpublish : publish qsort
      (run src.onCard (start mem₀ mem1) (src.documentWalk settings).steps) = some (s, disc))
    (hfits : s.arena.Fits) (hneeded : src.entriesNeeded settings ≤ maxMemoryPatches) :
    (s.arena.top.toNat ≤ s.memPatches.toNat ∧
      s.memPatches.toNat + sizeofMemoryPatch * s.memPatchesCount ≤ mem1.toNat) ∧
    Set.EqOn s.arena.mem mem₀ (Memory.outside s.arena.top.toNat mem1.toNat) := by
  have hprev := hfits.of_prefix (Mem1.grows_publish hpublish)
  have hend := Mem1.end_memPatches src.onCard mem₀ mem1 hprev
  have hpart := Mem1.run_memoryPart src.onCard mem₀ mem1 (src.documentWalk settings).steps
  rw [countP_isMemory_documentWalk] at hpart
  obtain ⟨hle, heq⟩ := Mem1.eqOn_publish hpublish hfits
  obtain ⟨hle', heq'⟩ := Mem1.eqOn_run src.onCard mem₀ mem1 hprev
    ((countP_isMemory_documentWalk src settings).le.trans hneeded)
  have hkept : s.memoryPart =
      (run src.onCard (start mem₀ mem1) (src.documentWalk settings).steps).memoryPart := by
    obtain ⟨sd, rep, fil, -, -, -, rfl, -⟩ := Mem1.publish_some hpublish
    rfl
  rw [hpart] at hkept
  have hbase : s.memPatches = (start mem₀ mem1).memPatches := congrArg Prod.fst hkept
  have hcount : s.memPatchesCount = src.entriesNeeded settings :=
    congrArg (fun part => part.2.1) hkept
  have hmul := Nat.mul_le_mul_left sizeofMemoryPatch hneeded
  rw [hbase, hcount]
  refine ⟨⟨hle.trans hle', by omega⟩, ?_⟩
  exact (heq.mono (Memory.outside_subset (Nat.le_refl _) (by omega))).trans
    (heq'.mono (Memory.outside_subset hle (Nat.le_refl _)))

end Published

/-! ### What is left alone -/

/-- What the runtime reads: MEM1 from the last value of the pointer up to the runtime extension, and
the struct. -/
def forRuntime (top : UInt32) : Set UInt32 :=
  {a | top.toNat ≤ a.toNat ∧ a.toNat < rrcRuntimeExtDolSafeStart.toNat ∨
    InRange rrcRiivoDiscPtr sizeofRrcRiivoDisc a}

/-- The word that tells the game where MEM1 ends. -/
def mem1End : UInt32 := 0x80003110

/-- **What has to be apart** for a launch: the staged DOL, with the `replaced` bytes that were read
over it, is below what was published and not in `scratch`, `Loader.pul` ends in its section and
before no DVD function, and the game neither overwrites nor patches what was published. -/
structure Clear (src : LaunchSource) (dol : UInt32) (rg : RrcDvdRegion) (staged : Memory)
    (s : LoaderState) (replaced : ℕ) : Prop where
  top : 0x80901000 ≤ s.arena.top.toNat
  replaced : dol.toNat + replaced ≤ s.arena.top.toNat
  header : ∀ a, InHeader dol a → a ∉ scratch
  sections : ∀ i < rrcDolSectionCount, ∀ a, Staged staged dol i a →
    a.toNat < s.arena.top.toNat ∧ a ∉ scratch
  loaderPul : ∀ file virt i, src.loaderPul = .ok file →
    rrcBinaryFindSectionByAddr staged dol s.loaderPulDest = some (virt, i) →
      ∀ a, InRange virt file.length a →
        Staged staged dol i a ∧ ∀ fn, ¬ InRange (stagedFunction staged dol rg fn) 16 a
  game : ∀ a, a ∈ forRuntime s.arena.top ∨ InRange mem1End 4 a →
    ¬ Overwritten staged dol a ∧
      ∀ patch ∈ patchList staged s.memPatches s.memPatchesCount, ¬ InRange patch.addr 4 a

/-- The trampolines, the tables and the struct lie apart from each other and from the memory that
the launch uses for itself. -/
theorem forRuntime_apart {top a : UInt32} (hlo : 0x80901000 ≤ top.toNat)
    (hhi : top.toNat ≤ rrcRuntimeExtDolSafeStart.toNat) (ha : a ∈ forRuntime top) :
    ¬ InTrampolines a ∧ top.toNat ≤ a.toNat ∧ a ∉ scratch := by
  have hstart : rrcRuntimeExtDolSafeStart.toNat = 0x8175c900 := rfl
  have htrampolines : rrcTrampolineStart.toNat = 0x81782d60 := rfl
  have hdisc : rrcRiivoDiscPtr.toNat = 0x81782fa0 := rfl
  have hsize : sizeofRrcRiivoDisc = 20 := rfl
  have hcount : 32 * dvdFunctions.length = 160 := rfl
  rcases ha with ⟨hle, hlt⟩ | hin
  · refine ⟨fun hin => ?_, hle, not_scratch (by omega) (by omega)⟩
    have hbounds := Memory.bounds_of_inRange hin (by omega)
    omega
  · have hbounds := Memory.bounds_of_inRange hin (by omega)
    refine ⟨fun hin' => ?_, by omega, not_scratch (by omega) (by omega)⟩
    have hbounds' := Memory.bounds_of_inRange hin' (by omega)
    omega

/-- The trampolines lie outside of the memory that the launch uses for itself. -/
theorem trampolines_not_scratch {a : UInt32} (ha : InTrampolines a) : a ∉ scratch := by
  have htrampolines : rrcTrampolineStart.toNat = 0x81782d60 := rfl
  have hcount : 32 * dvdFunctions.length = 160 := rfl
  have hbounds := Memory.bounds_of_inRange ha (by omega)
  exact not_scratch (by omega) (by omega)

/-! ### The stages -/

section Stages

variable {src : LaunchSource} {settings : RrcSettingsfile} {bi2Dest mem1Hi mem2Hi dol : UInt32}
  {region : Char} {mem ext staged hooked loaded ready : Memory} {s : LoaderState}
  {game : Memory × UInt32}

/-- **A parse that succeeds** has published what the document says, in MEM1 and in the struct. -/
theorem parseInMemory_ok (h : parseInMemory src settings mem1Hi dol ext = .ok (staged, s)) :
    ∃ disc, publish src.qsort (run src.patches.onCard (start ext mem1Hi)
        (src.patches.documentWalk settings).steps) = some (s, disc) ∧
      staged = storeDisc (s.arena.mem.write dol
        (rrcRiivoPatchLoaderParse src.patches src.qsort settings ext mem1Hi []).dol) disc := by
  unfold parseInMemory at h
  dsimp only at h
  generalize hparsed : rrcRiivoPatchLoaderParse src.patches src.qsort settings ext mem1Hi [] = parsed
    at h ⊢
  rw [parse_eq] at hparsed
  cases hstop : (src.patches.documentWalk settings).stop with
  | some stop =>
    rw [hstop] at hparsed
    rw [← hparsed] at h
    cases h
  | none =>
    rw [hstop] at hparsed
    dsimp only at hparsed
    generalize run src.patches.onCard (start ext mem1Hi) (src.patches.documentWalk settings).steps =
      s₀ at hparsed ⊢
    unfold finishParse at hparsed
    dsimp only at hparsed
    cases hpublish : publish src.qsort s₀ with
    | none =>
      rw [hpublish] at hparsed
      rw [← hparsed] at h
      cases h
    | some out =>
      rw [hpublish] at hparsed
      rw [← hparsed] at h ⊢
      obtain ⟨hstaged, rfl⟩ := Prod.mk.inj (Except.ok.inj h)
      exact ⟨out.2, rfl, hstaged.symm⟩

/-- **`Loader.pul`** is read over the section that it belongs to. -/
theorem loaded_eq (h : rrcBinaryLoadPulsarLoader src.loaderPul hooked dol s.loaderPulDest =
    (loaded, .ok ())) :
    ∃ file virt i, src.loaderPul = .ok file ∧
      rrcBinaryFindSectionByAddr hooked dol s.loaderPulDest = some (virt, i) ∧
      ∀ a, ¬ InRange virt file.length a → loaded a = hooked a := by
  unfold rrcBinaryLoadPulsarLoader at h
  split at h
  · cases (Prod.mk.inj h).2
  rename_i virt i hfound
  split at h
  · cases (Prod.mk.inj h).2
  rename_i file hopen
  refine ⟨file, virt, i, hopen, hfound, fun a ha => ?_⟩
  rw [← (Prod.mk.inj h).1]
  exact readLoop_of_notInRange hooked ha

variable {rg : RrcDvdRegion} {replaced : ℕ}

/-- **The last stages** leave what is not staged alone, and the hooked functions. -/
theorem Launches.ready_eq (hlaunch : Launches src settings bi2Dest mem1Hi mem2Hi dol region mem ext
      staged hooked loaded ready s game) (hcode : src.code.patchDolLen ≤ 0xf00)
    (hclear : Clear src dol rg staged s replaced)
    (hheader : ∀ a, InHeader dol a → hooked a = staged a) {a : UInt32} (hscratch : a ∉ scratch)
    (ha : (∀ i < rrcDolSectionCount, ¬ Staged staged dol i a) ∨
      ∃ fn, InRange (stagedFunction staged dol rg fn) 16 a) : ready a = hooked a := by
  obtain ⟨file, virt, i, hopen, hfound, hloaded⟩ := loaded_eq hlaunch.loadsPul
  rw [find_congr hheader] at hfound
  have hlast : ready a = loaded a := by
    rw [hlaunch.finishes]
    exact eqOn_finalAssignments src settings bi2Dest s.arena.top mem2Hi hcode loaded hscratch
  rw [hlast]
  refine hloaded a fun hin => ?_
  obtain ⟨hstaged, hfns⟩ := hclear.loaderPul file virt i hopen hfound a hin
  rcases ha with hnot | ⟨fn, hfn⟩
  · exact hnot i (find_lt hfound) hstaged
  · exact hfns fn hfn

section Clear

variable (hmem1 : mem1Hi.toNat ≤ rrcRuntimeExtDolSafeStart.toNat)
  (hcode : src.code.patchDolLen ≤ 0xf00)
  (hneeded : src.patches.entriesNeeded settings ≤ maxMemoryPatches)
  (hlaunch : Launches src settings bi2Dest mem1Hi mem2Hi dol region mem ext staged hooked loaded
    ready s game) (hfits : s.arena.Fits)
  (hboots : BootsHooked staged dol rg s.memPatches s.memPatchesCount)
  (hclear : Clear src dol rg staged s replaced)
  (hothers : ∀ a, ¬ InTrampolines a → (∀ fn, ¬ InRange (stagedFunction staged dol rg fn) 16 a) →
    hooked a = staged a)

include hcode hlaunch hboots hclear hothers

/-- What is neither hooked nor staged is as the parse left it. -/
theorem Launches.ready_kept {a : UInt32} (htrampolines : ¬ InTrampolines a)
    (hnot : ∀ i < rrcDolSectionCount, ¬ Staged staged dol i a) (hscratch : a ∉ scratch) :
    ready a = staged a := by
  rw [hlaunch.ready_eq hcode hclear (hboots.sameBoot hothers).header hscratch (Or.inl hnot)]
  refine hothers a htrampolines fun fn hin => ?_
  obtain ⟨i, hi, hia⟩ := hboots.hookable.inRange hin
  exact hnot i hi hia

include hmem1 hneeded hfits

/-- **What `patch_dol` reads** is as the parse left it: nothing between the two writes to the header
or the patch list. -/
theorem Launches.sameBoot : SameBoot staged ready dol s.memPatches s.memPatchesCount := by
  obtain ⟨disc, hpublish, -⟩ := parseInMemory_ok hlaunch.parses
  obtain ⟨⟨htop, hlist⟩, -⟩ := eqOn_published hpublish hfits hneeded
  have hlo := hclear.top
  refine ⟨fun a ha => ?_, fun a ha => ?_⟩
  · exact hlaunch.ready_kept hcode hboots hclear hothers
      (fun hin => (hboots.hookable.trampolines a hin).1 ha)
      (fun i hi hin => hboots.hookable.header i hi a hin ha) (hclear.header a ha)
  · have hmem1Lt := mem1Hi.toNat_lt
    have hbounds := Memory.bounds_of_inRange ha (by omega)
    have hin : a ∈ forRuntime s.arena.top := Or.inl ⟨by omega, by omega⟩
    obtain ⟨-, -, hscratch⟩ := forRuntime_apart hlo (by omega) hin
    exact hlaunch.ready_kept hcode hboots hclear hothers (hboots.list a ha).1 (hboots.list a ha).2
      hscratch

/-- **What the runtime reads** is in the game as the parse left it. -/
theorem Launches.game_forRuntime {a : UInt32} (ha : a ∈ forRuntime s.arena.top) :
    game.1 a = staged a := by
  obtain ⟨disc, hpublish, -⟩ := parseInMemory_ok hlaunch.parses
  obtain ⟨⟨htop, hlist⟩, -⟩ := eqOn_published hpublish hfits hneeded
  have hsame := hlaunch.sameBoot hmem1 hcode hneeded hfits hboots hclear hothers
  obtain ⟨hover, hpatches⟩ := hclear.game a (Or.inl ha)
  obtain ⟨htrampolines, hle, hscratch⟩ := forRuntime_apart hclear.top (by omega) ha
  rw [hlaunch.enters, hboots.patchDol_kept hsame hover hpatches]
  exact hlaunch.ready_kept hcode hboots hclear hothers htrampolines
    (fun i hi hin => Nat.not_le.mpr (hclear.sections i hi a hin).1 hle) hscratch

end Clear

/-- **Where `main` puts the FST and the BI2 block**, of a disc whose FST is not larger than MEM1. -/
theorem placeFst_spec {headerFstSize : UInt32} {placed : DiscPlacement}
    (hplaced : placeFst headerFstSize = some placed)
    (hsize : (headerFstSize <<< 2).toNat ≤ rrcRuntimeExtDolSafeStart.toNat) :
    32 ∣ placed.bi2.addr.toNat ∧ placed.bi2.endAddr ≤ placed.fst.addr.toNat ∧
      placed.fst.endAddr ≤ rrcRuntimeExtDolSafeStart.toNat := by
  obtain ⟨hfst, hbi2⟩ := (placeFst_iff headerFstSize).mpr (Or.inl hsize) placed hplaced
  refine ⟨?_, hbi2, hfst.2⟩
  unfold placeFst at hplaced
  dsimp only at hplaced
  split at hplaced
  · cases hplaced
  obtain rfl := Option.some.inj hplaced
  have halign := toNat_alignDown (alignDown (rrcRuntimeExtDolSafeStart - headerFstSize <<< 2) 32 -
    rrcBi2Size) (k := 5) (by decide)
  exact ⟨_, halign.trans (Nat.mul_comm _ _)⟩

/-- **The game that is launched** is hooked, has the memory patches of the document applied in order
and keeps what was published, and its runtime resolves every path to what the document replaces it
by, with no replacement open.  The game is told that MEM1 ends below what was published, and the
FST and the BI2 block of the disc are still where `main` put them. -/
theorem launched_game {headerFstSize : UInt32} {placed : DiscPlacement}
    (hplaced : placeFst headerFstSize = some placed)
    (hsize : (headerFstSize <<< 2).toNat ≤ rrcRuntimeExtDolSafeStart.toNat)
    (hqsort : SortsByHash src.qsort) (hcode : src.code.patchDolLen ≤ 0xf00)
    (hneeded : src.patches.entriesNeeded settings ≤ maxMemoryPatches)
    (hends : ∀ file header, src.runtimeExt = .ok file →
      file.read 0 (UInt32.ofNat sizeofRrcDol) = some header →
        EndsInMemory (Memory.write (fun _ => 0) 0 header))
    (hregion : rrcRegionCharToRegion region = some rg)
    (hlaunch : Launches src settings placed.bi2.addr placed.bi2.addr mem2Hi dol region mem ext staged
      hooked loaded ready s game) (hfits : s.arena.Fits)
    (hboots : BootsHooked staged dol rg s.memPatches s.memPatchesCount)
    (hclear : Clear src dol rg staged s
      (rrcRiivoPatchLoaderParse src.patches src.qsort settings ext placed.bi2.addr []).dol.length) :
    HookedGame rg (prologue staged dol rg) game.1 ∧
      game.1 = (src.patches.memoryPatches settings).foldl applyPatch
        (imageOf ready dol rrcDolSectionCount) ∧
      (∃ disc, publish src.qsort (run src.patches.onCard (start ext placed.bi2.addr)
          (src.patches.documentWalk settings).steps) = some (s, disc) ∧
        Keeps placed.bi2.addr s disc game.1) ∧
      (∀ path, Finds (runtimeDisc game.1 s.sdFiles.length)
        (rteDvdResolvePathToEntryNum (runtimeDisc game.1 s.sdFiles.length) path)
        (replacedBy src.patches.onCard (src.patches.registrations settings) path)) ∧
      (∀ e < s.sdFiles.length, (sdFileAt game.1 e).2 = 0) ∧
      game.1.word mem1End = alignDown s.arena.top 32 ∧
      ∀ block ∈ [placed.fst, placed.bi2], ∀ a, InRange block.addr block.size.toNat a →
        game.1 a = mem a := by
  obtain ⟨haligned, hbi2, hfst⟩ := placeFst_spec hplaced hsize
  rw [Region.endAddr] at hbi2 hfst
  have hmem1 : placed.bi2.addr.toNat ≤ rrcRuntimeExtDolSafeStart.toNat := by omega
  have hstart : rrcRuntimeExtDolSafeStart.toNat = 0x8175c900 := rfl
  have hdiscPtr : rrcRiivoDiscPtr.toNat = 0x81782fa0 := rfl
  have hsizeof : sizeofRrcRiivoDisc = 20 := rfl
  obtain ⟨disc, hpublish, hstaged⟩ := parseInMemory_ok hlaunch.parses
  obtain ⟨⟨htop, hlist⟩, hwritten⟩ := eqOn_published hpublish hfits hneeded
  obtain ⟨mem', hhooks, hwords, hothers⟩ := hboots.hookable.patchDvdFunctions_spec hregion
  obtain rfl : mem' = hooked := Except.ok.inj (hhooks.symm.trans hlaunch.hooks)
  have hsame := hlaunch.sameBoot hmem1 hcode hneeded hfits hboots hclear hothers
  have hlate := fun {a : UInt32} => hlaunch.ready_eq hcode hclear (hboots.sameBoot hothers).header
    (a := a)
  have hruntime := fun (a : UInt32) (ha : a ∈ forRuntime s.arena.top) =>
    hlaunch.game_forRuntime hmem1 hcode hneeded hfits hboots hclear hothers ha
  -- MEM1 is above the staged DOL and below the struct
  have hmem : ∀ a : UInt32, s.arena.top.toNat ≤ a.toNat →
      a.toNat < rrcRuntimeExtDolSafeStart.toNat → staged a = s.arena.mem a := by
    intro a hle hlt
    rw [hstaged, Mem1.storeDisc_of_outside]
    · refine Memory.write_of_notInRange _ fun hin => ?_
      have hbelow := hclear.replaced
      have htopLt := s.arena.top.toNat_lt
      have hbounds := Memory.bounds_of_inRange hin (by omega)
      omega
    · intro hin
      have hbounds := Memory.bounds_of_inRange hin (by omega)
      omega
  have harena : ∀ a : UInt32, s.arena.top.toNat ≤ a.toNat →
      a.toNat < rrcRuntimeExtDolSafeStart.toNat → game.1 a = s.arena.mem a := fun a hle hlt =>
    (hruntime a (Or.inl ⟨hle, hlt⟩)).trans (hmem a hle hlt)
  have hpatches : patchList ready s.memPatches s.memPatchesCount =
      src.patches.memoryPatches settings := by
    rw [hsame.patchList, ← patchList_published hpublish hfits hneeded]
    refine patchList_eq fun a ha => ?_
    have hmem1Lt := placed.bi2.addr.toNat_lt
    have hbounds := Memory.bounds_of_inRange ha (by omega)
    exact hmem a (by omega) (by omega)
  have hkeeps : Keeps placed.bi2.addr s disc game.1 := by
    refine ⟨fun a hle hlt => harena a hle (hlt.trans_le hmem1), ?_⟩
    have hstruct := Mem1.storeDisc_words (s.arena.mem.write dol
      (rrcRiivoPatchLoaderParse src.patches src.qsort settings ext placed.bi2.addr []).dol) disc
    rw [← hstaged] at hstruct
    exact hstruct.congr fun a ha => hruntime a (Or.inr ha)
  obtain ⟨hfinds, hclosed⟩ := finds_published haligned hqsort hpublish hfits hneeded hkeeps
  refine ⟨?_, ?_, ⟨disc, hpublish, hkeeps⟩, hfinds, hclosed, ?_, ?_⟩
  · rw [hlaunch.enters]
    refine hboots.hookedGame (fun fn => ?_) (fun fn => ?_) hsame
    · refine (hwords fn).1.congr fun a ha => ?_
      have hin : InTrampolines a := InTrampolines.of_hookedAddr (index_lt fn) ha
      exact hlate (trampolines_not_scratch hin) (Or.inl (hboots.hookable.trampolines a hin).2)
    · refine (hwords fn).2.congr fun a ha => ?_
      obtain ⟨i, hi, hia⟩ := hboots.hookable.inRange ha
      exact hlate (hclear.sections i hi a hia).2 (Or.inr ⟨fn, ha⟩)
  · have hready := hboots.congr hsame
    rw [hlaunch.enters, patchDol_fst hready.separated hready.bssEnds hready.keeps, hpatches]
  · rw [← word_finalAssignments src settings placed.bi2.addr s.arena.top mem2Hi hcode loaded,
      ← hlaunch.finishes]
    refine Memory.word_congr fun a ha => ?_
    obtain ⟨hover, hpatches⟩ := hclear.game a (Or.inr ha)
    rw [hlaunch.enters]
    exact hboots.patchDol_kept hsame hover hpatches
  · intro block hblock a ha
    have hbounds : placed.bi2.addr.toNat ≤ a.toNat ∧ a.toNat < rrcRuntimeExtDolSafeStart.toNat := by
      rcases List.mem_pair.mp hblock with rfl | rfl
      · have hin := Memory.bounds_of_inRange ha (by omega)
        omega
      · have hin := Memory.bounds_of_inRange ha (by omega)
        omega
    rw [harena a (by omega) hbounds.2, hwritten (Or.inr hbounds.1)]
    exact eqOn_runtimeExt hlaunch.loadsExt hends fun hin => Nat.not_le.mpr hbounds.2 hin.1

end Stages

/-- The order that insertion sort leaves. -/
def sortByHash (l : List FileReplacement) : List FileReplacement :=
  l.insertionSort fun r r' => r.hash.toNat ≤ r'.hash.toNat

/-- The sorting function of the witness sorts as `qsort` is documented to: the same entries, in the
order of their hashes. -/
theorem sortsByHash : SortsByHash sortByHash := by
  let r : FileReplacement → FileReplacement → Prop := fun r r' => r.hash.toNat ≤ r'.hash.toNat
  have : Std.Total r := ⟨fun _ _ => Nat.le_total _ _⟩
  have : IsTrans FileReplacement r := ⟨fun _ _ _ => Nat.le_trans⟩
  exact ⟨fun l => List.perm_insertionSort r l, fun l => List.pairwise_insertionSort r l⟩

/-- A pack with a course and with `Loader.pul`. -/
def courseDocument : XmlNode :=
  .element (lit "wiidisc") []
    [.element (lit "option") [(lit "name", lit "Pack")]
      [.element (lit "choice") [] [.element (lit "patch") [(lit "id", lit "rr")] []]],
    .element (lit "patch") [(lit "id", lit "rr")]
      [.element (lit "file") [(lit "disc", lit "course.szs"), (lit "external", lit "/a.szs")] [],
        .element (lit "memory")
          [(lit "offset", lit "8015eef0"), (lit "valuefile", rrcLoaderPulPath)] []]]

/-- A runtime extension of which there is the version only. -/
def versionDol : DolFile where
  bytes := be32 228 ++ (List.replicate 68 0 ++ (be32 0x81782d50 ++ (List.replicate 68 0 ++
    (be32 12 ++ (List.replicate 68 0 ++ (be32 0x8175c900 ++ (List.replicate 8 0 ++
      (be32 0 ++ (be32 9 ++ be32 0)))))))))
  seeks _ := true
  errno := 0

/-- A card with the course. -/
def courseLaunch : LaunchSource where
  patches := { PatchSource.ofDocument courseDocument with onCard := fun _ => true }
  qsort := sortByHash
  runtimeExt := .ok versionDol
  loaderPul := .ok [1, 2, 3]
  videoMode := 0
  code := ⟨0x80010000, 0x100, 0x80010100, 0x80010140⟩

/-- The runtime of the witness ends in memory: neither its BSS nor one of its sections goes over the
highest address. -/
theorem versionDol_ends (file : DolFile) (header : List UInt8)
    (hopen : courseLaunch.runtimeExt = .ok file)
    (hread : file.read 0 (UInt32.ofNat sizeofRrcDol) = some header) :
    EndsInMemory (Memory.write (fun _ => 0) 0 header) := by
  obtain rfl : versionDol = file := Except.ok.inj hopen
  have hends : (versionDol.read 0 (UInt32.ofNat sizeofRrcDol)).all fun header =>
      let patchDol := Memory.write (fun _ => 0) 0 header
      decide ((dolBssAddr patchDol 0).toNat + (dolBssSize patchDol 0).toNat < 2 ^ 32 ∧
        ∀ i < rrcDolSectionCount, dolSectionAddr patchDol 0 i ≠ 0 →
          (dolSectionAddr patchDol 0 i).toNat + (dolSectionSize patchDol 0 i).toNat < 2 ^ 32) := by
    decide +kernel
  rw [hread] at hends
  obtain ⟨hbss, hsections⟩ := of_decide_eq_true hends
  exact ⟨hbss, hsections⟩

section Course

variable {ext staged : Memory} {s : LoaderState}
  (hext : rrcBinaryLoadRuntimeExt courseLaunch.runtimeExt 'P' dvdGame = .ok ext)
  (hparses : parseInMemory courseLaunch ⟨0, 0, 1⟩ 0x81756900 0x80901000 ext = .ok (staged, s))

include hext hparses

/-- What the parse of the course's document leaves: no DOL, strings that all fit, no memory patch,
and an arena that ends well above the staged game. -/
theorem courseLaunch_parsed :
    (rrcRiivoPatchLoaderParse courseLaunch.patches courseLaunch.qsort ⟨0, 0, 1⟩ ext 0x81756900 []).dol =
        [] ∧
      (∀ al ∈ s.arena.allocations, al.Fits) ∧ s.memPatchesCount = 0 ∧
      0x80903000 ≤ s.arena.top.toNat ∧ s.loaderPulDest = 0x8015eef0 := by
  have hdol : (rrcBinaryLoadRuntimeExt courseLaunch.runtimeExt 'P' dvdGame).toOption.all fun ext =>
      decide ((rrcRiivoPatchLoaderParse courseLaunch.patches courseLaunch.qsort ⟨0, 0, 1⟩ ext
        0x81756900 []).dol = []) := by
    decide +kernel
  have hparsed : (rrcBinaryLoadRuntimeExt courseLaunch.runtimeExt 'P' dvdGame).toOption.all fun ext =>
      (parseInMemory courseLaunch ⟨0, 0, 1⟩ 0x81756900 0x80901000 ext).toOption.all fun parsed =>
        decide ((∀ al ∈ parsed.2.arena.allocations, al.Fits) ∧ parsed.2.memPatchesCount = 0 ∧
          0x80903000 ≤ parsed.2.arena.top.toNat ∧ parsed.2.loaderPulDest = 0x8015eef0) := by
    decide +kernel
  rw [hext] at hdol hparsed
  simp only [Except.toOption, Option.all_some] at hparsed
  rw [hparses] at hparsed
  exact ⟨of_decide_eq_true hdol, of_decide_eq_true hparsed⟩

/-- The header of `dvdGame` is still there after the parse, as everything that the parse writes lies
above it. -/
theorem courseLaunch_sameBoot : SameBoot dvdGame staged 0x80901000 s.memPatches 0 := by
  obtain ⟨hdol, hfits, -, htop, -⟩ := courseLaunch_parsed hext hparses
  obtain ⟨disc, hpublish, hstaged⟩ := parseInMemory_ok hparses
  obtain ⟨-, hwritten⟩ := eqOn_published hpublish hfits (by decide +kernel)
  refine ⟨fun a ha => ?_, fun a ha => absurd ha (Nat.not_lt_zero _)⟩
  have hbounds := Memory.bounds_of_inRange ha (by decide)
  have hheader : (0x80901000 : UInt32).toNat + sizeofRrcDol = 0x809010e4 := rfl
  have hstart : rrcRuntimeExtDolSafeStart.toNat = 0x8175c900 := rfl
  rw [hstaged, hdol, Mem1.storeDisc_of_outside, Memory.write_of_notInRange _ (Nat.not_lt_zero _),
    hwritten (Or.inl (by omega))]
  · refine eqOn_runtimeExt hext versionDol_ends fun hin => ?_
    have hle := hin.1
    omega
  · intro hin
    have hbounds' := Memory.bounds_of_inRange hin (by decide)
    have hdisc : rrcRiivoDiscPtr.toNat = 0x81782fa0 := rfl
    omega

/-- The areas that the launch writes to are clear of each other for the course: what is staged, what
is parsed, and where the game goes. -/
theorem courseLaunch_clear :
    Clear courseLaunch 0x80901000 .p staged s ([] : List UInt8).length := by
  obtain ⟨-, -, hcount, htop, hdest⟩ := courseLaunch_parsed hext hparses
  have hsame := courseLaunch_sameBoot hext hparses
  have hbase : (0x80901000 : UInt32).toNat = 0x80901000 := rfl
  have hstagedBase : (0x80901100 : UInt32).toNat = 0x80901100 := rfl
  have hsection : ∀ i < rrcDolSectionCount, ∀ a, Staged staged 0x80901000 i a →
      i = 0 ∧ 0x80901100 ≤ a.toNat ∧ a.toNat < 0x80902100 := by
    intro i hi a ha
    obtain ⟨hzero, hin⟩ := dvdGame_staged hi ((hsame.staged hi).mp ha)
    have hbounds := Memory.bounds_of_inRange hin (by decide)
    exact ⟨hzero, by omega, by omega⟩
  have hnone : ([] : List UInt8).length = 0 := rfl
  refine ⟨by omega, by omega, fun a ha => ?_, fun i hi a ha => ?_, ?_, fun a ha => ?_⟩
  · have hbounds := Memory.bounds_of_inRange ha (by decide)
    have hsize : sizeofRrcDol = 228 := rfl
    exact not_scratch (by omega) (by omega)
  · obtain ⟨-, hle, hlt⟩ := hsection i hi a ha
    exact ⟨by omega, not_scratch (by omega) (by omega)⟩
  · rintro file virt i ⟨rfl⟩ hfound a ha
    have hfind : rrcBinaryFindSectionByAddr dvdGame 0x80901000 0x8015eef0 = some (0x809020f0, 0) := by
      decide +kernel
    have hfns : ∀ fn, (stagedFunction dvdGame 0x80901000 .p fn).toNat + 16 ≤ 0x809020f0 := by
      intro fn
      cases fn <;> decide +kernel
    rw [find_congr hsame.header, hdest, hfind] at hfound
    obtain ⟨rfl, rfl⟩ := Prod.mk.inj (Option.some.inj hfound)
    have hbounds := Memory.bounds_of_inRange ha (by decide)
    have hvirt : (0x809020f0 : UInt32).toNat = 0x809020f0 := rfl
    refine ⟨(hsame.staged (by decide)).mpr ?_, fun fn hin => ?_⟩
    · have hoffset : (0x80901000 : UInt32) + dolSection dvdGame 0x80901000 0 = 0x80901100 := by
        decide +kernel
      have hlen : [(1 : UInt8), 2, 3].length = 3 := rfl
      rw [Staged, hoffset, dvdGame_size 0 (by decide), if_pos rfl, InRange, UInt32.toNat_sub,
        hstagedBase, show (0x1000 : UInt32).toNat = 0x1000 from rfl]
      omega
    · have hstagedFn : stagedFunction staged 0x80901000 .p fn =
          stagedFunction dvdGame 0x80901000 .p fn := by
        rw [stagedFunction, stagedFunction, find_congr hsame.header]
      rw [hstagedFn] at hin
      have hend := hfns fn
      have hbounds' := Memory.bounds_of_inRange hin (by omega)
      omega
  · rw [hcount]
    refine ⟨fun hover => ?_, fun patch hp => absurd hp List.not_mem_nil⟩
    have hin := dvdGame_overwritten ((overwritten_congr hsame.header).mp hover)
    have hbounds := Memory.bounds_of_inRange hin (by decide)
    have hgame : (0x8015df00 : UInt32).toNat = 0x8015df00 := rfl
    have hend : mem1End.toNat = 0x80003110 := rfl
    rcases ha with (⟨hle, -⟩ | hdisc) | hword
    · omega
    · have hbounds' := Memory.bounds_of_inRange hdisc (by decide)
      have hptr : rrcRiivoDiscPtr.toNat = 0x81782fa0 := rfl
      omega
    · have hbounds' := Memory.bounds_of_inRange hword (by decide)
      omega

end Course

/-- The game is launched, and finds its course on the card. -/
theorem launched_game_course :
    ∃ game, rrcLoaderLoad courseLaunch ⟨0, 0, 1⟩ 0x81756900 0x81756900 0x93400000 0x80901000 'P'
        dvdGame = .ok game ∧
      game.1.WordsAt (rrcDvdfAddrs .p .open) (rrcDvdfJmpToCustomInstrs .open) ∧
      ∃ n e, rteDvdResolvePathToEntryNum (runtimeDisc game.1 n) (lit "/Race/Course.szs") = some e ∧
        ((runtimeDisc game.1 n).sdFiles[e]?).map (·.path) = some (lit "/a.szs") := by
  have hok : (rrcLoaderLoad courseLaunch ⟨0, 0, 1⟩ 0x81756900 0x81756900 0x93400000 0x80901000 'P'
      dvdGame).toOption.isSome := by decide +kernel
  obtain ⟨game, hgame⟩ : ∃ game, rrcLoaderLoad courseLaunch ⟨0, 0, 1⟩ 0x81756900 0x81756900 0x93400000
      0x80901000 'P' dvdGame = .ok game := by
    revert hok
    cases rrcLoaderLoad courseLaunch ⟨0, 0, 1⟩ 0x81756900 0x81756900 0x93400000 0x80901000 'P'
      dvdGame with
    | error stop => exact nofun
    | ok game => exact fun _ => ⟨game, rfl⟩
  obtain ⟨ext, staged, hooked, loaded, ready, s, hlaunch⟩ :=
    (rrcLoaderLoad_ok_iff _ _ _ _ _ _ _ _).mp hgame
  obtain ⟨hdol, hfits, hcount, -, -⟩ := courseLaunch_parsed hlaunch.loadsExt hlaunch.parses
  have hsame := courseLaunch_sameBoot hlaunch.loadsExt hlaunch.parses
  have hboots := (dvdGame_boots s.memPatches).congr hsame
  rw [← hcount] at hboots
  have hclear := courseLaunch_clear hlaunch.loadsExt hlaunch.parses
  have hpath : replacedBy courseLaunch.patches.onCard (courseLaunch.patches.registrations ⟨0, 0, 1⟩)
      (lit "/Race/Course.szs") = some (lit "/a.szs") := by decide +kernel
  have hplaced : placeFst 0x1000 = some ⟨⟨0x81758900, 0x4000⟩, ⟨0x81756900, 0x2000⟩⟩ := by decide
  rw [← hdol] at hclear
  obtain ⟨hhooked, -, -, hfinds, -⟩ := launched_game hplaced (by decide) sortsByHash (by decide)
    (by decide +kernel) versionDol_ends rfl hlaunch hfits hboots hclear
  have hfound := hfinds (lit "/Race/Course.szs")
  rw [hpath] at hfound
  exact ⟨game, hgame, hhooked.functions .open, _, hfound⟩

end RrLauncher
