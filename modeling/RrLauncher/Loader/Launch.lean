/-
# Launching the game

`rrc_loader_load`: the runtime extension is loaded and its version compared, the patches are
parsed, the DVD functions are hooked, `Loader.pul` is read, the words of low memory and those for
the game are set, and the code that copies the game is itself copied and called.  The game is
staged behind its header at `dol` all the time, and all of it happens in one memory.

What is set and copied at the end goes to addresses of its own (`scratch`), whatever is there
(`eqOn_finalAssignments`).
-/

import RrLauncher.Loader.Published
import RrLauncher.Loader.RuntimeExt
import RrLauncher.Loader.Trampolines
import RrLauncher.Update.Versionutils

namespace RrLauncher

open ByteReader (be32)
open Memory (InRange Assignment setWord)
open Mem1 (LoaderState FileReplacement storeDisc)

/-! ### The version -/

/-- `RRC_RUNTIME_EXT_INTERNAL_VERSION`. -/
def rrcRuntimeExtInternalVersion : UInt32 := 0x81782d50

/-- A word that is an `int`. -/
def cIntOf (v : UInt32) : Decimal.CInt := Decimal.saturate (intOfU32 v)

/-- `*version`, for a pointer to it. -/
def versionAt (mem : Memory) (version : UInt32) : RrcVersion :=
  ⟨cIntOf (mem.word version), cIntOf (mem.word (version + 4)), cIntOf (mem.word (version + 8))⟩

/-- `RRC_INTERNAL_VERSION`. -/
def rrcInternalVersion : RrcVersion := ⟨cIntOf 0, cIntOf 9, cIntOf 0⟩

/-- The text of a version that is another one. -/
def versionMismatch : String :=
  "runtime-ext version does not match channel\nversion!\n\nConsider manually updating the channel " ++
    "at this time,\nor join our discord if you need further help:\nhttps://discord.gg/retrorewind"

/-! ### The last words -/

/-- The bit flags that the game gets, by the settings. -/
def bitflags (settings : RrcSettingsfile) : UInt8 :=
  let savegame : UInt8 := if settings.separateSavegame ≠ 0 then (1 : UInt8) <<< 0 else 0
  let myStuff : UInt8 :=
    if settings.myStuff = 1 then (1 : UInt8) <<< 3
    else if settings.myStuff = 2 then (1 : UInt8) <<< 4
    else if settings.myStuff = 3 then (1 : UInt8) <<< 5
    else if settings.myStuff = 4 then (1 : UInt8) <<< 6
    else 0
  savegame ||| myStuff

/-- `RRC_PATCH_COPY_ADDRESS`. -/
def rrcPatchCopyAddress : UInt32 := 0x80900000

/-- Where the code of the launcher is that is copied, and `PATCH_DOL_LEN`. -/
structure LauncherCode where
  patchDol : UInt32
  patchDolLen : ℕ
  icInvalidateRange : UInt32
  dcFlushRange : UInt32

/-- What `rrc_loader_load` finds on the card and in the system: the files, the order that `qsort`
leaves, and what `rrc_gui_video_fix` makes of the video settings. -/
structure LaunchSource where
  patches : PatchSource
  qsort : List FileReplacement → List FileReplacement
  runtimeExt : Except ℕ DolFile
  loaderPul : Except ℕ (List UInt8)
  videoMode : UInt32
  code : LauncherCode

section Final

variable (src : LaunchSource) (settings : RrcSettingsfile) (bi2Dest mem1Hi mem2Hi : UInt32)

/-- What is set in low memory. -/
def lowAssignments : List Assignment :=
  [setWord 0x80000034 0,
    setWord 0x800000ec 0x81800000,
    setWord 0x800000f0 0x01800000,
    setWord 0x800000f4 bi2Dest,
    setWord 0x800000f8 0x0e7be2c0,
    setWord 0x800000fc 0x2b73a840,
    setWord 0x80003110 (alignDown mem1Hi 32),
    setWord 0x80003124 0x90000800,
    setWord 0x80003128 (alignDown mem2Hi 32),
    ⟨0x80003180, fun mem => be32 (mem.word 0x80000000)⟩,
    ⟨0x80003188, fun mem => be32 (mem.word 0x80003140)⟩,
    ⟨0x8000319c, fun mem => if mem.word (bi2Dest + 0x30) = 0x7ed40000 then [0x81] else [0x80]⟩]

/-- What is set for the game at the end of MEM1. -/
def highAssignments : List Assignment :=
  [setWord rrcSignatureAddress 0xdeadbeef,
    setWord 0x817ffffc 1,
    ⟨0x817ffff0, fun _ => [bitflags settings]⟩]

/-- The copies of `patch_dol` and of the functions that it is given. -/
def codeCopies : List Assignment :=
  let code := src.code
  let copied := rrcPatchCopyAddress + UInt32.ofNat code.patchDolLen
  [⟨rrcPatchCopyAddress, fun mem => mem.bytesAt code.patchDol code.patchDolLen⟩,
    ⟨alignUp copied 32, fun mem => mem.bytesAt code.icInvalidateRange 64⟩,
    ⟨alignUp (copied + 64) 32, fun mem => mem.bytesAt code.dcFlushRange 64⟩]

/-- The assignments and copies from `rrc_gui_video_fix` on. -/
def finalAssignments : List Assignment :=
  setWord 0x800000cc src.videoMode :: setWord 0xcd006c00 0 ::
    (lowAssignments bi2Dest mem1Hi mem2Hi ++ (highAssignments settings ++ codeCopies src))

/-! ### The launch -/

variable (dol : UInt32) (region : Char) (mem : Memory)

/-- `rrc_riivo_patch_loader_parse` in the memory that has the game and the struct of the runtime,
too.  The replacement of `main.dol` is read before the arrays are copied, and here it is behind
them; they are apart as long as it ends below them. -/
def parseInMemory : Except (Stdio.Stop RrcResultError) (Memory × LoaderState) :=
  let parsed := rrcRiivoPatchLoaderParse src.patches src.qsort settings mem mem1Hi []
  let replaced := parsed.state.arena.mem.write dol parsed.dol
  match parsed.result with
  | .error stop => .error stop
  | .ok () =>
    match parsed.disc with
    | none => .ok (replaced, parsed.state)
    | some disc => .ok (storeDisc replaced disc, parsed.state)

/-- `rrc_loader_load`: the memory when the game is entered, and the entry point. -/
def rrcLoaderLoad : Except (Stdio.Stop RrcResultError) (Memory × UInt32) :=
  match rrcBinaryLoadRuntimeExt src.runtimeExt region mem with
  | .error stop => .error stop
  | .ok mem =>
    if ¬ rrcVersionEquals (versionAt mem rrcRuntimeExtInternalVersion) rrcInternalVersion then
      .error (.error (rrcResultCreateErrorVersionMismatch versionMismatch))
    else
      match parseInMemory src settings mem1Hi dol mem with
      | .error stop => .error stop
      | .ok (mem, riivoOut) =>
        match patchDvdFunctions mem dol region with
        | .error stop => .error stop
        | .ok mem =>
          match rrcBinaryLoadPulsarLoader src.loaderPul mem dol riivoOut.loaderPulDest with
          | (_, .error stop) => .error stop
          | (mem, .ok ()) =>
            let mem := mem.assignAll (finalAssignments src settings bi2Dest riivoOut.arena.top mem2Hi)
            .ok (patchDol mem dol riivoOut.memPatches riivoOut.memPatchesCount)

/-- **The stages of a launch** that enters the game: the memory with the runtime extension, with
the patches, with the hooks, with `Loader.pul` and with the last words. -/
structure Launches (ext staged hooked loaded ready : Memory) (s : LoaderState)
    (game : Memory × UInt32) : Prop where
  loadsExt : rrcBinaryLoadRuntimeExt src.runtimeExt region mem = .ok ext
  sameVersion : versionAt ext rrcRuntimeExtInternalVersion = rrcInternalVersion
  parses : parseInMemory src settings mem1Hi dol ext = .ok (staged, s)
  hooks : patchDvdFunctions staged dol region = .ok hooked
  loadsPul : rrcBinaryLoadPulsarLoader src.loaderPul hooked dol s.loaderPulDest = (loaded, .ok ())
  finishes : ready = loaded.assignAll (finalAssignments src settings bi2Dest s.arena.top mem2Hi)
  enters : game = patchDol ready dol s.memPatches s.memPatchesCount

/-- **A launch enters the game** if it goes through all stages. -/
theorem rrcLoaderLoad_ok_iff {game : Memory × UInt32} :
    rrcLoaderLoad src settings bi2Dest mem1Hi mem2Hi dol region mem = .ok game ↔
      ∃ ext staged hooked loaded ready s,
        Launches src settings bi2Dest mem1Hi mem2Hi dol region mem ext staged hooked loaded ready s
          game := by
  unfold rrcLoaderLoad
  constructor
  · intro h
    split at h
    · cases h
    rename_i ext hext
    split at h
    · cases h
    rename_i hversion
    split at h
    · cases h
    rename_i staged s hstaged
    split at h
    · cases h
    rename_i hooked hhooked
    split at h
    · cases h
    rename_i loaded hloaded
    exact ⟨ext, staged, hooked, loaded, _, s, hext,
      (rrcVersionEquals_iff _ _).mp (not_not.mp hversion), hstaged, hhooked, hloaded, rfl,
      (Except.ok.inj h).symm⟩
  · rintro ⟨ext, staged, hooked, loaded, ready, s, h⟩
    have hversion := (rrcVersionEquals_iff _ _).mpr h.sameVersion
    rw [h.loadsExt]
    dsimp only
    rw [if_neg (not_not.mpr hversion), h.parses]
    dsimp only
    rw [h.hooks]
    dsimp only
    rw [h.loadsPul, h.enters, h.finishes]

end Final

/-! ### What the last words leave alone -/

/-- The addresses that the end of the launch writes to: low memory, the copied code, the words for
the game, and the registers. -/
def scratch : Set UInt32 :=
  {a | a.toNat < 0x80004000 ∨ 0x80900000 ≤ a.toNat ∧ a.toNat < 0x80901000 ∨ 0x817ffff0 ≤ a.toNat}

/-- Nothing is written between the copied code and the words for the game. -/
theorem not_scratch {a : UInt32} (hlo : 0x80901000 ≤ a.toNat) (hhi : a.toNat < 0x817ffff0) :
    a ∉ scratch := by
  rintro (hlow | ⟨-, hcode⟩ | hwords)
  · omega
  · omega
  · omega

/-- Where a copy of some code begins: at most 31 bytes behind the copy in front of it, and in the
memory that is set aside for these. -/
theorem toNat_alignUp_copied {n : ℕ} (hn : n ≤ 0xf40) :
    0x80900000 ≤ (alignUp (rrcPatchCopyAddress + UInt32.ofNat n) 32).toNat ∧
      (alignUp (rrcPatchCopyAddress + UInt32.ofNat n) 32).toNat ≤ 0x80900000 + n + 31 := by
  have hbase : rrcPatchCopyAddress.toNat = 0x80900000 := rfl
  have haddr : (rrcPatchCopyAddress + UInt32.ofNat n).toNat = 0x80900000 + n :=
    Memory.toNat_behind (by omega)
  have halign : (alignUp (rrcPatchCopyAddress + UInt32.ofNat n) 32).toNat =
      (0x80900000 + n + 31) % 2 ^ 32 / 32 * 32 := by
    rw [← haddr]
    exact toNat_alignUp _ (k := 5) (by decide)
  omega

/-- Everything that is set in low memory lies below the place where the game begins. -/
theorem lowAssignments_within (bi2Dest mem1Hi mem2Hi : UInt32) :
    ∀ s ∈ lowAssignments bi2Dest mem1Hi mem2Hi, s.Within 0x80000000 0x80004000 := by
  have hwithin : ∀ (p : UInt32) (value : Memory → List UInt8),
      0x80000000 ≤ p.toNat ∧ p.toNat + 4 ≤ 0x80004000 → (∀ mem, (value mem).length ≤ 4) →
        Assignment.Within ⟨p, value⟩ 0x80000000 0x80004000 := fun p value hp hvalue =>
    ⟨hp.1, fun mem => (Nat.add_le_add_left (hvalue mem) _).trans hp.2⟩
  have hword : ∀ w : Memory → UInt32, ∀ mem, (be32 (w mem)).length ≤ 4 := fun w mem => Nat.le_refl 4
  simp only [lowAssignments, setWord, List.forall_mem_cons, List.not_mem_nil, false_implies,
    implies_true, and_true]
  refine ⟨hwithin _ _ (by decide) (hword _), hwithin _ _ (by decide) (hword _),
    hwithin _ _ (by decide) (hword _), hwithin _ _ (by decide) (hword _),
    hwithin _ _ (by decide) (hword _), hwithin _ _ (by decide) (hword _),
    hwithin _ _ (by decide) (hword _), hwithin _ _ (by decide) (hword _),
    hwithin _ _ (by decide) (hword _), hwithin _ _ (by decide) (hword _),
    hwithin _ _ (by decide) (hword _), hwithin _ _ (by decide) fun mem => ?_⟩
  split
  · decide
  · decide

/-- Everything that is set for the game at the end of MEM1 lies in its last sixteen bytes. -/
theorem highAssignments_within (settings : RrcSettingsfile) :
    ∀ s ∈ highAssignments settings, s.Within 0x817ffff0 (2 ^ 32) := by
  simp only [highAssignments, List.forall_mem_cons, List.not_mem_nil, false_implies,
    implies_true, and_true]
  have haddr : (0x817ffff0 : UInt32).toNat = 0x817ffff0 := rfl
  exact ⟨Memory.setWord_within _ (by decide) (by decide),
    Memory.setWord_within _ (by decide) (by decide), haddr.ge,
    fun _ => show (0x817ffff0 : UInt32).toNat + 1 ≤ 2 ^ 32 by omega⟩

/-- The copies of the code end below the staged DOL, if `patch_dol` is short enough. -/
theorem codeCopies_within {src : LaunchSource} (hlen : src.code.patchDolLen ≤ 0xf00) :
    ∀ s ∈ codeCopies src, s.Within 0x80900000 0x80901000 := by
  have hic := toNat_alignUp_copied (show src.code.patchDolLen ≤ 0xf40 by omega)
  have hdc := toNat_alignUp_copied (show src.code.patchDolLen + 64 ≤ 0xf40 by omega)
  have hbase : rrcPatchCopyAddress.toNat = 0x80900000 := rfl
  rw [UInt32.ofNat_add, ← UInt32.add_assoc] at hdc
  have hdc' : 0x80900000 ≤ (alignUp (rrcPatchCopyAddress + UInt32.ofNat src.code.patchDolLen + 64)
      32).toNat ∧ (alignUp (rrcPatchCopyAddress + UInt32.ofNat src.code.patchDolLen + 64) 32).toNat ≤
        0x80900000 + (src.code.patchDolLen + 64) + 31 := hdc
  simp only [codeCopies, Assignment.Within, Memory.length_bytesAt, List.forall_mem_cons,
    List.not_mem_nil, false_implies, implies_true, and_true, forall_const]
  omega

/-- **The end of the launch** writes to `scratch` only: low memory, the last bytes of MEM1 and the
place for the copied code. -/
theorem eqOn_finalAssignments (src : LaunchSource) (settings : RrcSettingsfile)
    (bi2Dest mem1Hi mem2Hi : UInt32) (hlen : src.code.patchDolLen ≤ 0xf00) (mem : Memory) :
    Set.EqOn (mem.assignAll (finalAssignments src settings bi2Dest mem1Hi mem2Hi)) mem scratchᶜ := by
  refine Memory.eqOn_assignAll mem fun s hs m a ha hin => ha ?_
  have hlow : s.Within 0x80000000 0x80004000 → a ∈ scratch := fun h =>
    Or.inl (h.bounds (by decide) hin).2
  have hhigh : s.Within 0x817ffff0 (2 ^ 32) → a ∈ scratch := fun h =>
    Or.inr (Or.inr (h.bounds (Nat.le_refl _) hin).1)
  rcases List.mem_cons.mp hs with rfl | hs
  · exact hlow (Memory.setWord_within _ (by decide) (by decide))
  rcases List.mem_cons.mp hs with rfl | hs
  · exact hhigh (Memory.setWord_within _ (by decide) (by decide))
  rcases List.mem_append.mp hs with hs | hs
  · exact hlow (lowAssignments_within _ _ _ s hs)
  rcases List.mem_append.mp hs with hs | hs
  · exact hhigh (highAssignments_within settings s hs)
  · exact Or.inr (Or.inl ((codeCopies_within hlen s hs).bounds (by decide) hin))

/-- **The end of MEM1** that the game is told is the one that the launch is given, rounded down to
32 bytes. -/
theorem word_finalAssignments (src : LaunchSource) (settings : RrcSettingsfile)
    (bi2Dest mem1Hi mem2Hi : UInt32) (hlen : src.code.patchDolLen ≤ 0xf00) (mem : Memory) :
    (mem.assignAll (finalAssignments src settings bi2Dest mem1Hi mem2Hi)).word 0x80003110 =
      alignDown mem1Hi 32 := by
  have hhead : (finalAssignments src settings bi2Dest mem1Hi mem2Hi)[8]? =
      some (setWord 0x80003110 (alignDown mem1Hi 32)) := rfl
  refine Memory.word_assignAll mem hhead fun s hs m a ha hin => ?_
  have hbounds := Memory.bounds_of_inRange ha (show (0x80003110 : UInt32).toNat + 4 ≤ 2 ^ 32 by decide)
  have hstart : (0x80003110 : UInt32).toNat = 0x80003110 := rfl
  -- all that is set later is behind it
  have hbehind : ∃ hi ≤ 2 ^ 32, s.Within 0x80003114 hi := by
    have hdrop : (finalAssignments src settings bi2Dest mem1Hi mem2Hi).drop 9 =
        (lowAssignments bi2Dest mem1Hi mem2Hi).drop 7 ++ (highAssignments settings ++ codeCopies src) :=
      rfl
    rw [hdrop] at hs
    rcases List.mem_append.mp hs with hs | hs
    · have hend := (lowAssignments_within _ _ _ s (List.mem_of_mem_drop hs)).2
      have haddr : ∀ p ∈ ((lowAssignments bi2Dest mem1Hi mem2Hi).drop 7).map (·.addr),
          0x80003114 ≤ p.toNat := by
        show ∀ p ∈ [(0x80003124 : UInt32), 0x80003128, 0x80003180, 0x80003188, 0x8000319c],
          0x80003114 ≤ p.toNat
        simp only [List.forall_mem_cons, List.not_mem_nil, false_implies, implies_true, and_true]
        exact ⟨by decide, by decide, by decide, by decide, by decide⟩
      exact ⟨_, by decide, haddr _ (List.mem_map_of_mem hs), hend⟩
    rcases List.mem_append.mp hs with hs | hs
    · have hwithin := highAssignments_within settings s hs
      exact ⟨_, Nat.le_refl _, (show 0x80003114 ≤ 0x817ffff0 by decide).trans hwithin.1, hwithin.2⟩
    · have hwithin := codeCopies_within hlen s hs
      exact ⟨_, by decide, (show 0x80003114 ≤ 0x80900000 by decide).trans hwithin.1, hwithin.2⟩
  obtain ⟨hi, hhi, hwithin⟩ := hbehind
  have hlater := (hwithin.bounds hhi hin).1
  omega

end RrLauncher
