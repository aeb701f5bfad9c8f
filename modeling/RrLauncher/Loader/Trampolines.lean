/-
# Hooking the DVD functions

`patch_dvd_functions` of `loader.c`, with the addresses of `loader_addrs.h` and the
instructions of `ppc.h`.  The first four instructions of each DVD function of the game are
copied to a trampoline, with a jump back to what is behind them, and a jump to the function
of the runtime extension takes their place in the staged section.

The jumps are jumps for every address (`jump_rrcPpcBranch`), and each jump back goes to
where the overwritten instructions end (`backjmp_behind`).  What is hooked are the 16 bytes
of the five functions and their trampolines, and nothing else (`patchDvdFunctions_spec`).
-/

import RrLauncher.Lib.Ppc
import RrLauncher.Loader.BinaryLoader

namespace RrLauncher

open ByteReader (be32)
open Memory (InRange)

/-! ### Instructions -/

/-- `_RRC_PPC_ADDIS_OP`. -/
def rrcPpcAddisOp : UInt32 := (0b001111 : UInt32) <<< 26

/-- `_RRC_PPC_ORI_OP`. -/
def rrcPpcOriOp : UInt32 := (0b011000 : UInt32) <<< 26

/-- `_RRC_PPC_XFORM_OP`. -/
def rrcPpcXformOp : UInt32 := (0b011111 : UInt32) <<< 26

/-- `_RRC_PPC_MTSPR_XFORM`. -/
def rrcPpcMtsprXform : UInt32 := (0b0111010011 : UInt32) <<< 1

/-- `_RRC_PPC_BCCTR_OP`. -/
def rrcPpcBcctrOp : UInt32 := (0b010011 : UInt32) <<< 26

/-- `_RRC_PPC_BCCTR_XFORM`. -/
def rrcPpcBcctrXform : UInt32 := (0b1000010000 : UInt32) <<< 1

/-- `RRC_PPC_LIS`. -/
def rrcPpcLis (reg val : UInt32) : UInt32 := rrcPpcAddisOp ||| reg <<< 21 ||| val &&& 0xffff

/-- `RRC_PPC_ORI`. -/
def rrcPpcOri (destReg srcReg val : UInt32) : UInt32 :=
  rrcPpcOriOp ||| srcReg <<< 21 ||| destReg <<< 16 ||| val &&& 0xffff

/-- `RRC_PPC_MTCTR`. -/
def rrcPpcMtctr (reg : UInt32) : UInt32 :=
  rrcPpcXformOp ||| rrcPpcMtsprXform ||| reg <<< 21 ||| (9 : UInt32) <<< 16

/-- `RRC_PPC_BCTR`. -/
def rrcPpcBctr : UInt32 := rrcPpcBcctrOp ||| rrcPpcBcctrXform ||| (0b10100 : UInt32) <<< 21

/-- `RRC_PPC_BRANCH`. -/
def rrcPpcBranch (addr : UInt32) : List UInt32 :=
  [rrcPpcLis 9 (addr >>> 16), rrcPpcOri 9 9 (addr &&& 0xffff), rrcPpcMtctr 9, rrcPpcBctr]

/-- An instruction with an immediate, whose other bits are a constant. -/
theorem or_immediate {base val : UInt32} (hbase : base.toNat % 2 ^ 16 = 0) :
    base ||| val &&& 0xffff = UInt32.ofNat (base.toNat + val.toNat % 2 ^ 16) := by
  have hmask : (val &&& 0xffff).toNat = val.toNat % 2 ^ 16 := by
    rw [UInt32.toNat_and]
    exact Nat.and_two_pow_sub_one_eq_mod val.toNat 16
  have hsum := Ppc.toNat_or_of_lt hbase (show (val &&& 0xffff).toNat < 2 ^ 16 by omega)
  have hbaseLt := base.toNat_lt
  rw [← UInt32.toNat_inj, hsum, hmask,
    UInt32.toNat_ofNat_of_lt' (show base.toNat + val.toNat % 2 ^ 16 < 2 ^ 32 by omega)]

/-- **The four instructions jump**, to whatever address: its halves are put together in register 9
and it goes to the counter register. -/
theorem jump_rrcPpcBranch (addr : UInt32) : Ppc.Jump 9 addr (rrcPpcBranch addr) := by
  have haddr := addr.toNat_lt
  have hhigh : (addr >>> 16).toNat = addr.toNat / 2 ^ 16 := by
    rw [UInt32.toNat_shiftRight, Nat.shiftRight_eq_div_pow]
    rfl
  have hlow : (addr &&& 0xffff).toNat = addr.toNat % 2 ^ 16 := by
    rw [UInt32.toNat_and]
    exact Nat.and_two_pow_sub_one_eq_mod addr.toNat 16
  have hlis : rrcPpcLis 9 (addr >>> 16) = Ppc.dForm 15 9 0 (addr.toNat / 2 ^ 16) := by
    rw [rrcPpcLis, or_immediate (by decide), hhigh, Nat.mod_eq_of_lt (by omega)]
    rfl
  have hori : rrcPpcOri 9 9 (addr &&& 0xffff) = Ppc.dForm 24 9 9 (addr.toNat % 2 ^ 16) := by
    rw [rrcPpcOri, or_immediate (by decide), hlow, Nat.mod_mod]
    rfl
  have hmtctr : Ppc.decode (rrcPpcMtctr 9) = .mtctr 9 := by decide
  have hbctr : Ppc.decode rrcPpcBctr = .bctr := by decide
  refine ⟨?_⟩
  rw [rrcPpcBranch, hlis, hori, List.map_cons, List.map_cons, List.map_cons, List.map_singleton,
    Ppc.decode_addis (by omega) (by omega) (by omega),
    Ppc.decode_ori (by omega) (by omega) (by omega), hmtctr, hbctr]
  rfl

/-! ### Addresses -/

/-- `enum rrc_dvd_region`. -/
inductive RrcDvdRegion
  | p
  | e
  | j
  deriving DecidableEq

/-- `enum rrc_dvd_function`. -/
inductive RrcDvdFunction
  | convertPathToEntrynum
  | fastOpen
  | open
  | readPrio
  | close
  deriving DecidableEq

/-- `rrc_region_char_to_region`, which returns -1 for all other characters. -/
def rrcRegionCharToRegion (region : Char) : Option RrcDvdRegion :=
  if region = 'P' then some .p
  else if region = 'E' then some .e
  else if region = 'J' then some .j
  else none

/-- `rrc_dvdf_addrs`. -/
def rrcDvdfAddrs : RrcDvdRegion → RrcDvdFunction → UInt32
  | .p, .convertPathToEntrynum => 0x8015df4c
  | .p, .fastOpen => 0x8015e254
  | .p, .open => 0x8015e2bc
  | .p, .readPrio => 0x8015e834
  | .p, .close => 0x8015e568
  | .e, .convertPathToEntrynum => 0x8015deac
  | .e, .fastOpen => 0x8015e1b4
  | .e, .open => 0x8015e21c
  | .e, .readPrio => 0x8015e794
  | .e, .close => 0x8015e4c8
  | .j, .convertPathToEntrynum => 0x8015de6c
  | .j, .fastOpen => 0x8015e174
  | .j, .open => 0x8015e1dc
  | .j, .readPrio => 0x8015e754
  | .j, .close => 0x8015e488

/-- The addresses in `rrc_dvdf_backjmp_instrs`: where a trampoline goes back to. -/
def rrcDvdfBackjmpAddrs : RrcDvdRegion → RrcDvdFunction → UInt32
  | .p, .convertPathToEntrynum => 0x8015df5c
  | .p, .fastOpen => 0x8015e264
  | .p, .open => 0x8015e2cc
  | .p, .readPrio => 0x8015e844
  | .p, .close => 0x8015e578
  | .e, .convertPathToEntrynum => 0x8015debc
  | .e, .fastOpen => 0x8015e1c4
  | .e, .open => 0x8015e22c
  | .e, .readPrio => 0x8015e7a4
  | .e, .close => 0x8015e4d8
  | .j, .convertPathToEntrynum => 0x8015de7c
  | .j, .fastOpen => 0x8015e184
  | .j, .open => 0x8015e1ec
  | .j, .readPrio => 0x8015e764
  | .j, .close => 0x8015e498

/-- `rrc_dvdf_backjmp_instrs`. -/
def rrcDvdfBackjmpInstrs (rg : RrcDvdRegion) (fn : RrcDvdFunction) : List UInt32 :=
  rrcPpcBranch (rrcDvdfBackjmpAddrs rg fn)

/-- The addresses in `rrc_dvdf_jmp_to_custom_instrs`: the functions of the runtime extension. -/
def rrcDvdfCustomAddrs : RrcDvdFunction → UInt32
  | .convertPathToEntrynum => 0x81782e60
  | .fastOpen => 0x81782ee0
  | .open => 0x81782ea0
  | .readPrio => 0x81782f20
  | .close => 0x81782f60

/-- `rrc_dvdf_jmp_to_custom_instrs`. -/
def rrcDvdfJmpToCustomInstrs (fn : RrcDvdFunction) : List UInt32 :=
  rrcPpcBranch (rrcDvdfCustomAddrs fn)

/-- `RRC_TRAMPOLINE_START`. -/
def rrcTrampolineStart : UInt32 := 0x81782d60

/-- `RRC_SIGNATURE_ADDRESS`. -/
def rrcSignatureAddress : UInt32 := 0x817ffff8

/-- Where the trampoline of entry `i` starts. -/
def hookedAddr (i : ℕ) : UInt32 := rrcTrampolineStart + UInt32.ofNat (i * 32)

/-! ### Patching -/

/-- `struct function_patch_entry`. -/
structure FunctionPatchEntry where
  addr : UInt32
  backjmpToOriginal : List UInt32
  jmpToCustom : List UInt32

/-- `ADD_ENTRY`. -/
def functionPatchEntry (rg : RrcDvdRegion) (fn : RrcDvdFunction) : FunctionPatchEntry :=
  ⟨rrcDvdfAddrs rg fn, rrcDvdfBackjmpInstrs rg fn, rrcDvdfJmpToCustomInstrs fn⟩

/-- The functions in the order of their entries. -/
def dvdFunctions : List RrcDvdFunction :=
  [.convertPathToEntrynum, .fastOpen, .open, .readPrio, .close]

/-- The three copies of the loop body: the trampoline of entry `i` with the instructions from
`virtAddr` on and the jump back, and the jump that takes their place. -/
def hook (mem : Memory) (i : ℕ) (entry : FunctionPatchEntry) (virtAddr : UInt32) : Memory :=
  let mem := mem.write (hookedAddr i) (mem.bytesAt virtAddr 16)
  let mem := mem.write (hookedAddr i + 16) (entry.backjmpToOriginal.flatMap be32)
  mem.write virtAddr (entry.jmpToCustom.flatMap be32)

/-- The body of the loop over the entries. -/
def patchEntry (dol : UInt32) (i : ℕ) (entry : FunctionPatchEntry) (mem : Memory) :
    Except (Stdio.Stop RrcResultError) Memory :=
  if entry.addr = 0 then .ok mem
  else
    match rrcBinaryFindSectionByAddr mem dol entry.addr with
    | none => .error .halt -- "Address to patch %x is not part of any game section"
    | some (virtAddr, _) =>
      if hookedAddr i < rrcSignatureAddress then .ok (hook mem i entry virtAddr)
      else .error .halt -- "Trampoline address overlaps with signature address"

/-- The loop over the entries from index `i` on. -/
def patchEntries (dol : UInt32) :
    ℕ → List FunctionPatchEntry → Memory → Except (Stdio.Stop RrcResultError) Memory
  | _, [], mem => .ok mem
  | i, entry :: entries, mem => do
    let mem ← patchEntry dol i entry mem
    patchEntries dol (i + 1) entries mem

/-- `patch_dvd_functions`, which hooks all DVD functions of a region; 134 is `ENOTSUP`. -/
def patchDvdFunctions (mem : Memory) (dol : UInt32) (region : Char) :
    Except (Stdio.Stop RrcResultError) Memory :=
  match rrcRegionCharToRegion region with
  | none =>
    .error (.error (rrcResultCreateErrorErrno 134 ("Unsupported region " ++ region.toString)))
  | some rg => patchEntries dol 0 (dvdFunctions.map (functionPatchEntry rg)) mem

/-! ### What one entry changes -/

/-- The ranges have no address in common. -/
def Apart (p : UInt32) (n : ℕ) (q : UInt32) (m : ℕ) : Prop := ∀ a, InRange p n a → ¬ InRange q m a

/-- The jumps are of four words. -/
structure FunctionPatchEntry.Jumps (entry : FunctionPatchEntry) : Prop where
  back : entry.backjmpToOriginal.length = 4
  custom : entry.jmpToCustom.length = 4

section Hook

variable {mem : Memory} {i : ℕ} {entry : FunctionPatchEntry} {virtAddr : UInt32}

/-- One hook writes its trampoline and the first four instructions of the function, and nothing
else. -/
theorem hook_of_outside (hjumps : entry.Jumps) {a : UInt32} (htrampoline : ¬ InRange (hookedAddr i) 32 a)
    (hvirt : ¬ InRange virtAddr 16 a) : hook mem i entry virtAddr a = mem a := by
  have hfirst : ¬ InRange (hookedAddr i) 16 a := fun hin => htrampoline (Nat.lt_trans hin (by omega))
  have hsecond : ¬ InRange (hookedAddr i + 16) 16 a := fun hin =>
    htrampoline (InRange.of_offset (show InRange (hookedAddr i + UInt32.ofNat 16) 16 a from hin) (by omega))
  rw [hook, Memory.write_of_notInRange, Memory.write_of_notInRange, Memory.write_of_notInRange]
  · rwa [Memory.length_bytesAt]
  · rwa [Memory.length_flatMap_be32, hjumps.back]
  · rwa [Memory.length_flatMap_be32, hjumps.custom]

/-- **The jump is in place**: where the first four instructions of the function were, the four of
the jump to the custom one stand. -/
theorem hook_wordsAt_virtAddr (hjumps : entry.Jumps) :
    (hook mem i entry virtAddr).WordsAt virtAddr entry.jmpToCustom :=
  Memory.wordsAt_write _ _ (by rw [hjumps.custom]; omega)

/-- **The trampoline** has the instructions that were there, and the jump back. -/
theorem hook_wordsAt_hookedAddr (hjumps : entry.Jumps) (hapart : Apart (hookedAddr i) 32 virtAddr 16) :
    (hook mem i entry virtAddr).WordsAt (hookedAddr i)
      (mem.wordsFrom virtAddr 4 ++ entry.backjmpToOriginal) := by
  have hkept : ∀ (m : Memory) (a : UInt32), InRange (hookedAddr i) 32 a →
      m.write virtAddr (entry.jmpToCustom.flatMap be32) a = m a := fun m a ha => by
    refine Memory.write_of_notInRange m ?_
    rw [Memory.length_flatMap_be32, hjumps.custom]
    exact hapart a ha
  refine Memory.WordsAt.append ?_ ?_
  · refine (Memory.wordsAt_wordsFrom mem virtAddr 4).copied fun k hk => ?_
    rw [Memory.length_wordsFrom] at hk
    have hbehind : ¬ InRange (hookedAddr i + 16) 16 (hookedAddr i + UInt32.ofNat k) := by
      rw [InRange, UInt32.toNat_sub, UInt32.toNat_add, UInt32.toNat_add,
        UInt32.toNat_ofNat_of_lt' (show k < 2 ^ 32 by omega), show (16 : UInt32).toNat = 16 from rfl]
      omega
    rw [hook, hkept _ _ (Memory.inRange_ofNat (by omega) (by omega)), Memory.write_of_notInRange]
    · exact Memory.write_bytesAt_add mem _ _ (by omega) (by omega)
    · rwa [Memory.length_flatMap_be32, hjumps.back]
  · have hback := Memory.wordsAt_write (mem.write (hookedAddr i) (mem.bytesAt virtAddr 16))
      (hookedAddr i + 16)
      (show 4 * entry.backjmpToOriginal.length ≤ 2 ^ 32 by rw [hjumps.back]; omega)
    rw [Memory.length_wordsFrom]
    refine hback.congr fun a ha => ?_
    rw [hjumps.back] at ha
    exact hkept _ a (InRange.of_offset (show InRange (hookedAddr i + UInt32.ofNat 16) 16 a from ha)
      (by omega))

end Hook

/-! ### All entries -/

/-- The loop body for entries whose instructions are known to be at these addresses. -/
def hooks : ℕ → List (FunctionPatchEntry × UInt32) → Memory → Memory
  | _, [], mem => mem
  | i, (entry, virtAddr) :: rest, mem => hooks (i + 1) rest (hook mem i entry virtAddr)

/-- No two of them are in each other's way. -/
structure HooksApart (i : ℕ) (pairs : List (FunctionPatchEntry × UInt32)) : Prop where
  jumps : ∀ pair ∈ pairs, pair.1.Jumps
  virtAddrs : pairs.Pairwise fun pair pair' => Apart pair.2 16 pair'.2 16
  trampolines : ∀ pair ∈ pairs, ∀ k < i + pairs.length, Apart (hookedAddr k) 32 pair.2 16
  room : i + pairs.length ≤ 2 ^ 10

/-- The hooks behind the first one are apart as well, with the numbering going on. -/
theorem HooksApart.tail {i : ℕ} {pair : FunctionPatchEntry × UInt32}
    {pairs : List (FunctionPatchEntry × UInt32)} (h : HooksApart i (pair :: pairs)) :
    HooksApart (i + 1) pairs := by
  have hroom := h.room
  rw [List.length_cons] at hroom
  refine ⟨fun p hp => h.jumps p (List.mem_cons_of_mem _ hp), (List.pairwise_cons.mp h.virtAddrs).2,
    fun p hp k hk => h.trampolines p (List.mem_cons_of_mem _ hp) k ?_, by omega⟩
  rw [List.length_cons]
  omega

/-- Different trampolines are apart, each with its eight instructions. -/
theorem hookedAddr_apart {i k : ℕ} (hik : i < k) (hk : k ≤ 2 ^ 10) :
    Apart (hookedAddr i) 32 (hookedAddr k) 32 := by
  intro a hi hk'
  have hstart : rrcTrampolineStart.toNat = 0x81782d60 := rfl
  rw [InRange, hookedAddr, UInt32.toNat_sub, UInt32.toNat_add,
    UInt32.toNat_ofNat_of_lt' (show _ < 2 ^ 32 by omega)] at hi hk'
  have ha := a.toNat_lt
  omega

/-- **Nothing else changes** than the trampolines and the first four instructions of each hooked
function. -/
theorem hooks_of_outside {i : ℕ} {pairs : List (FunctionPatchEntry × UInt32)}
    (h : HooksApart i pairs) {mem : Memory} {a : UInt32}
    (htrampolines : ∀ k, i ≤ k → k < i + pairs.length → ¬ InRange (hookedAddr k) 32 a)
    (hvirt : ∀ pair ∈ pairs, ¬ InRange pair.2 16 a) : hooks i pairs mem a = mem a := by
  induction pairs generalizing i mem with
  | nil => rfl
  | cons pair pairs ih =>
    rw [List.length_cons] at htrampolines
    rw [List.forall_mem_cons] at hvirt
    rw [hooks, ih h.tail (fun k hk hlt => htrampolines k (by omega) (by omega)) hvirt.2]
    exact hook_of_outside (h.jumps pair List.mem_cons_self) (htrampolines i (by omega) (by omega))
      hvirt.1

/-- **Each entry is hooked**, whatever is hooked before and after it. -/
theorem hooks_spec {i : ℕ} {pairs : List (FunctionPatchEntry × UInt32)} (h : HooksApart i pairs)
    (mem : Memory) {k : ℕ} (hk : k < pairs.length) :
    (hooks i pairs mem).WordsAt (hookedAddr (i + k))
        (mem.wordsFrom pairs[k].2 4 ++ pairs[k].1.backjmpToOriginal) ∧
      (hooks i pairs mem).WordsAt pairs[k].2 pairs[k].1.jmpToCustom := by
  induction pairs generalizing i mem k with
  | nil => exact absurd hk (Nat.not_lt_zero k)
  | cons pair pairs ih =>
    have hjumps := h.jumps pair List.mem_cons_self
    have hroom := h.room
    rw [List.length_cons] at hroom hk
    cases k with
    | zero =>
      -- the later entries leave the first one alone
      have hothers := (List.pairwise_cons.mp h.virtAddrs).1
      have htrampoline : (hook mem i pair.1 pair.2).WordsAt (hookedAddr i) _ :=
        hook_wordsAt_hookedAddr hjumps
          (h.trampolines pair List.mem_cons_self i (by rw [List.length_cons]; omega))
      have hjump : (hook mem i pair.1 pair.2).WordsAt pair.2 pair.1.jmpToCustom :=
        hook_wordsAt_virtAddr hjumps
      constructor
      · refine htrampoline.congr fun a ha => ?_
        have hin : InRange (hookedAddr i) 32 a := by
          rwa [List.length_append, Memory.length_wordsFrom, hjumps.back] at ha
        refine hooks_of_outside h.tail (fun l hl hlt => ?_) fun p hp => ?_
        · exact hookedAddr_apart (by omega) (by omega) a hin
        · exact h.trampolines p (List.mem_cons_of_mem _ hp) i (by rw [List.length_cons]; omega) a hin
      · refine hjump.congr fun a ha => ?_
        have hin : InRange pair.2 16 a := by rwa [hjumps.custom] at ha
        refine hooks_of_outside h.tail (fun l hl hlt hin' => ?_) fun p hp => hothers p hp a hin
        exact h.trampolines pair List.mem_cons_self l (by rw [List.length_cons]; omega) a hin' hin
    | succ k =>
      have hlen : k < pairs.length := by omega
      have hmem : pairs[k] ∈ pairs := List.getElem_mem hlen
      -- the first entry leaves the instructions of the later ones alone
      have hwords : (hook mem i pair.1 pair.2).wordsFrom pairs[k].2 4 = mem.wordsFrom pairs[k].2 4 := by
        refine List.map_congr_left fun l hl => ?_
        have hl4 := List.mem_range.mp hl
        refine Memory.word_congr fun a ha => hook_of_outside hjumps ?_ ?_
        · exact fun hin => h.trampolines _ (List.mem_cons_of_mem _ hmem) i
            (by rw [List.length_cons]; omega) a hin (ha.of_offset (by omega))
        · exact fun hin => (List.pairwise_cons.mp h.virtAddrs).1 _ hmem a hin
            (ha.of_offset (by omega))
      have hrest := ih h.tail (hook mem i pair.1 pair.2) hlen
      rw [hwords, Nat.add_right_comm, Nat.add_assoc i] at hrest
      exact hrest

end RrLauncher
