/-
# What the patch loader hands out

As long as the pointer into MEM1 does not wrap around, what is handed out never overlaps,
and the strings read back (`mem1_allocations_disjoint`).  So the vectors stand for the
tables of strings that `Loader.FilePatch` is about (`tables_run`, in
`Loader.Mem1Tables`).
-/

import RrLauncher.Loader.Mem1

namespace RrLauncher

open Memory (Arena Allocation Block Carved)
open ByteReader (be32)

namespace Mem1

/-! ### The arena -/

/-- **The invariant of MEM1**, which began at `mem1`, with the memory patches at
`memPatches`. -/
structure Inv (mem1 memPatches : UInt32) (arena : Arena) : Prop where
  carved : Carved mem1.toNat memPatches.toNat arena
  top_le : arena.top.toNat ≤ memPatches.toNat
  memPatches_le : memPatches.toNat ≤ mem1.toNat
  aligned : ∀ al ∈ arena.allocations, al.text = none → 4 ∣ al.block.addr.toNat

/-- A string is allocated behind everything that was allocated before, and none of that is moved or
taken away. -/
theorem grows_bumpAllocString (arena : Arena) (src : CStr) :
    arena.allocations <+: (bumpAllocString arena src).1.allocations := List.prefix_append _ _

/-- The string is where the pointer says that is handed out for it. -/
theorem hasString_bumpAllocString (arena : Arena) (src : CStr) :
    (bumpAllocString arena src).1.HasString (bumpAllocString arena src).2 src :=
  ⟨_, List.mem_append_right _ (List.mem_singleton_self _), rfl, rfl⟩

/-- **Handing out a block** keeps the invariant, if the block ends at or below the pointer, has the
bytes that are written to it, and its text, if it has one, is what they are. -/
theorem Inv.carve {mem1 memPatches : UInt32} {arena : Arena} (h : Inv mem1 memPatches arena)
    (al : Allocation) {bytes : List UInt8} (hstop : al.block.stop ≤ arena.top.toNat)
    (hlen : bytes.length = al.block.size) (htext : ∀ s, al.text = some s → bytes = s.bytes ++ [0])
    (haligned : al.text = none → 4 ∣ al.block.addr.toNat) :
    Inv mem1 memPatches
      ⟨arena.mem.write al.block.addr bytes, al.block.addr, arena.allocations ++ [al]⟩ := by
  have htop := h.top_le
  have hle : al.block.addr.toNat ≤ al.block.stop := Nat.le_add_right _ _
  constructor
  · exact h.carved.carve mem1.toNat_lt.le al (htop.trans h.memPatches_le) hstop hlen fun s hs =>
      ⟨hstop.trans htop, htext s hs⟩
  · exact (hle.trans hstop).trans htop
  · exact h.memPatches_le
  · intro al' hal' hnone
    rcases List.mem_append.mp hal' with hold | hnew
    · exact h.aligned al' hold hnone
    · obtain rfl := List.mem_singleton.mp hnew
      exact haligned hnone

/-- **Copying a string** keeps the invariant, if the pointer does not wrap around: the block has the
bytes of the string and its NUL. -/
theorem Inv.bumpAllocString {mem1 memPatches : UInt32} {arena : Arena} {src : CStr}
    (h : Inv mem1 memPatches arena) (hfits : (bumpAllocString arena src).1.Fits) :
    Inv mem1 memPatches (Mem1.bumpAllocString arena src).1 := by
  have hroom : src.len + 1 ≤ arena.top.toNat :=
    hfits _ (List.mem_append_right _ (List.mem_singleton_self _))
  have hdest : (arena.top - (UInt32.ofNat src.len + 1)).toNat = arena.top.toNat - (src.len + 1) := by
    rw [show UInt32.ofNat src.len + 1 = UInt32.ofNat (src.len + 1) from (UInt32.ofNat_add _ _).symm]
    exact Memory.toNat_below hroom
  refine h.carve ⟨arena.top, ⟨_, src.len + 1⟩, some src⟩ ?_ ?_ ?_ nofun
  · show (arena.top - (UInt32.ofNat src.len + 1)).toNat + (src.len + 1) ≤ arena.top.toNat
    omega
  · rw [List.length_append, List.length_singleton, CStr.len]
  · rintro s ⟨rfl⟩
    rfl

/-- Elements of one size, written one behind the other, have as many bytes as the size times their
number. -/
theorem length_flatten {sizeof : ℕ} {elements : List (List UInt8)}
    (h : ∀ e ∈ elements, e.length = sizeof) : elements.flatten.length = sizeof * elements.length := by
  induction elements with
  | nil => rfl
  | cons e rest ih =>
    rw [List.forall_mem_cons] at h
    rw [List.flatten_cons, List.length_append, h.1, ih h.2, List.length_cons, Nat.mul_succ,
      Nat.add_comm]

/-- **Copying an array** keeps the invariant, if the pointer does not wrap around: the block is
aligned downwards, so it may end below the one before. -/
theorem Inv.allocArray {mem1 memPatches : UInt32} {arena : Arena} {sizeof : ℕ}
    {elements : List (List UInt8)} (h : Inv mem1 memPatches arena)
    (hsizeof : ∀ e ∈ elements, e.length = sizeof)
    (hfits : (allocArray arena sizeof elements).1.Fits) :
    Inv mem1 memPatches (Mem1.allocArray arena sizeof elements).1 := by
  have hroom : sizeof * elements.length ≤ arena.top.toNat :=
    hfits _ (List.mem_append_right _ (List.mem_singleton_self _))
  have hdest : (alignDown (arena.top - UInt32.ofNat (sizeof * elements.length))
      (UInt32.ofNat (2 ^ 2))).toNat = (arena.top.toNat - sizeof * elements.length) / 2 ^ 2 * 2 ^ 2 := by
    rw [toNat_alignDown _ (by decide), Memory.toNat_below hroom]
  refine h.carve ⟨arena.top, ⟨_, sizeof * elements.length⟩, none⟩ ?_ (length_flatten hsizeof) nofun
    fun _ => ?_
  · show (alignDown _ _).toNat + sizeof * elements.length ≤ arena.top.toNat
    omega
  · show 4 ∣ (alignDown _ _).toNat
    omega

/-- Writing to the memory patches, or above them, keeps it. -/
theorem Inv.write {mem1 memPatches : UInt32} {arena : Arena} (h : Inv mem1 memPatches arena)
    (p : UInt32) (bytes : List UInt8) (hp : memPatches.toNat ≤ p.toNat)
    (hend : p.toNat + bytes.length ≤ 2 ^ 32) :
    Inv mem1 memPatches { arena with mem := arena.mem.write p bytes } :=
  ⟨h.carved.write mem1.toNat_lt.le hend (Or.inr hp), h.top_le, h.memPatches_le, h.aligned⟩

/-- **A memory patch** keeps the invariant: its entry lies in the array that was set aside at the
top, or above it, where there are no strings. -/
theorem Inv.pushMemoryPatch {mem1 : UInt32} {s : LoaderState} (h : Inv mem1 s.memPatches s.arena)
    (patch : RrcRiivoMemoryPatch)
    (hroom : s.memPatches.toNat + sizeofMemoryPatch * (s.memPatchesCount + 1) ≤ 2 ^ 32) :
    Inv mem1 s.memPatches (pushMemoryPatch s patch).arena := by
  unfold sizeofMemoryPatch at hroom
  have hdist : (s.memPatches + UInt32.ofNat (16 * s.memPatchesCount)).toNat =
      s.memPatches.toNat + 16 * s.memPatchesCount := Memory.toNat_behind (by omega)
  unfold Mem1.pushMemoryPatch sizeofMemoryPatch
  generalize s.memPatches + UInt32.ofNat (16 * s.memPatchesCount) = dist at hdist ⊢
  have hfour : ∀ x : UInt32, (be32 x).length = 4 := ByteAt.length_be32
  have hfield : ∀ {arena : Arena} (n : ℕ) (bytes : List UInt8), n + bytes.length ≤ 16 → n < 16 →
      Inv mem1 s.memPatches arena →
      Inv mem1 s.memPatches { arena with mem := arena.mem.write (dist + UInt32.ofNat n) bytes } := by
    intro arena n bytes hn hlt hinv
    have haddr : (dist + UInt32.ofNat n).toNat = dist.toNat + n := Memory.toNat_behind (by omega)
    exact hinv.write _ bytes (by omega) (by omega)
  have haddr := h.write dist (be32 patch.addr) (by omega) (by rw [hfour]; omega)
  have hvalue := hfield 4 (be32 patch.value) (by rw [hfour]; omega) (by omega) haddr
  have hinit := hfield 12 [0] (by decide) (by omega) hvalue
  cases patch.original with
  | none => exact hinit
  | some original =>
    have horiginal := hfield 8 (be32 original) (by rw [hfour]; omega) (by omega) hinit
    exact hfield 12 [1] (by decide) (by omega) horiginal

/-! ### The run -/

/-- Strings that are allocated one after the other. -/
def bumpAllocStrings (arena : Arena) (srcs : List CStr) : Arena :=
  srcs.foldl (fun arena src => (bumpAllocString arena src).1) arena

/-- Strings that are allocated one after the other add their allocations at the end, and each of
them is a text. -/
theorem grows_bumpAllocStrings (arena : Arena) (srcs : List CStr) :
    ∃ strings, (bumpAllocStrings arena srcs).allocations = arena.allocations ++ strings ∧
      ∀ al ∈ strings, al.text ≠ none := by
  induction srcs generalizing arena with
  | nil => exact ⟨[], (List.append_nil _).symm, by simp⟩
  | cons src rest ih =>
    obtain ⟨strings, hgrow, htext⟩ := ih (bumpAllocString arena src).1
    refine ⟨_ :: strings, hgrow.trans (List.append_assoc _ _ _), ?_⟩
    rw [List.forall_mem_cons]
    exact ⟨nofun, htext⟩

/-- Allocating strings one after the other keeps the invariant of the arena, provided that all of
them fit into what is left of it. -/
theorem Inv.bumpAllocStrings {mem1 memPatches : UInt32} {arena : Arena} {srcs : List CStr}
    (h : Inv mem1 memPatches arena) (hfits : (bumpAllocStrings arena srcs).Fits) :
    Inv mem1 memPatches (Mem1.bumpAllocStrings arena srcs) := by
  induction srcs generalizing arena with
  | nil => exact h
  | cons src rest ih =>
    refine ih (h.bumpAllocString (hfits.of_prefix ?_)) hfits
    obtain ⟨strings, hgrow, -⟩ := grows_bumpAllocStrings (Mem1.bumpAllocString arena src).1 rest
    exact ⟨strings, hgrow.symm⟩

/-- What registering a replacement does to MEM1: one string is allocated, the disc path without its
leading slash. -/
theorem registerReplacement_arena (s : LoaderState) (discPath : CStr) (entrynum : ℕ) :
    (registerReplacement s discPath entrynum).arena =
      bumpAllocStrings s.arena [skipSlash discPath] := by
  unfold registerReplacement
  dsimp only
  split <;> rfl

/-- The fields that a registration does not change. -/
def LoaderState.memoryPart (s : LoaderState) : UInt32 × ℕ × List ℕ :=
  (s.memPatches, s.memPatchesCount, s.entriesWritten)

/-- Registering a replacement touches the tables alone: the arena and the memory patches stay as
they are. -/
theorem registerReplacement_memoryPart (s : LoaderState) (discPath : CStr) (entrynum : ℕ) :
    (registerReplacement s discPath entrynum).memoryPart = s.memoryPart := by
  unfold registerReplacement
  dsimp only
  split <;> rfl

/-- **What a registration does to MEM1**: it copies some strings. -/
theorem handleFilePatch_arena (onCard : CStr → Bool) (s : LoaderState) (r : Registration) :
    (rrcRiivoHandleFilePatch onCard s r).memoryPart = s.memoryPart ∧
      ∃ srcs, (rrcRiivoHandleFilePatch onCard s r).arena = bumpAllocStrings s.arena srcs := by
  unfold rrcRiivoHandleFilePatch
  split
  · exact ⟨rfl, [], rfl⟩
  split
  · exact ⟨rfl, [], rfl⟩
  split
  · exact ⟨registerReplacement_memoryPart _ _ _, _, registerReplacement_arena _ _ _⟩
  split
  · exact ⟨rfl, [], rfl⟩
  · exact ⟨registerReplacement_memoryPart _ _ _, [r.externalPath, skipSlash r.discPath],
      registerReplacement_arena _ _ _⟩

/-- A step fills an entry of the memory patches or none. -/
theorem perform_memoryPart (onCard : CStr → Bool) (s : LoaderState) (step : LoaderStep) :
    (perform onCard s step).memoryPart =
      if step.isMemory then
        (s.memPatches, s.memPatchesCount + 1, s.entriesWritten ++ [s.memPatchesCount])
      else s.memoryPart := by
  cases step with
  | file r => exact (handleFilePatch_arena onCard s r).1
  | loaderPul dest => rfl
  | memory patch => rfl

/-- What a step hands out are strings, behind everything that was handed out before. Only publishing
hands out arrays. -/
theorem grows_perform (onCard : CStr → Bool) (s : LoaderState) (step : LoaderStep) :
    ∃ strings, (perform onCard s step).arena.allocations = s.arena.allocations ++ strings ∧
      ∀ al ∈ strings, al.text ≠ none := by
  cases step with
  | file r =>
    obtain ⟨-, srcs, harena⟩ := handleFilePatch_arena onCard s r
    obtain ⟨strings, hgrow, htext⟩ := grows_bumpAllocStrings s.arena srcs
    exact ⟨strings, (congrArg Arena.allocations harena).trans hgrow, htext⟩
  | loaderPul dest => exact ⟨[], (List.append_nil _).symm, by simp⟩
  | memory patch => exact ⟨[], (List.append_nil _).symm, by simp⟩

/-- **A step keeps the invariant**, whether it registers a file, keeps the path for `main.dol` or
adds a memory patch. -/
theorem Inv.perform {mem1 : UInt32} {s : LoaderState} (h : Inv mem1 s.memPatches s.arena)
    (onCard : CStr → Bool) (step : LoaderStep) (hfits : (perform onCard s step).arena.Fits)
    (hroom : s.memPatches.toNat + sizeofMemoryPatch * (perform onCard s step).memPatchesCount ≤
      2 ^ 32) :
    Inv mem1 s.memPatches (perform onCard s step).arena := by
  cases step with
  | file r =>
    obtain ⟨-, srcs, harena⟩ := handleFilePatch_arena onCard s r
    rw [Mem1.perform, harena] at hfits ⊢
    exact h.bumpAllocStrings hfits
  | loaderPul dest => exact h
  | memory patch => exact h.pushMemoryPatch patch hroom

section Run

variable (onCard : CStr → Bool) (mem : Memory) (mem1 : UInt32)

/-- One more step at the end of a run is performed in the state that the run leaves. The induction
over runs goes along this equation. -/
theorem run_append_singleton (s : LoaderState) (steps : List LoaderStep) (step : LoaderStep) :
    run onCard s (steps ++ [step]) = perform onCard (run onCard s steps) step :=
  List.foldl_concat _ _ _ _

/-- **The entries of the memory patches** that a run fills are the first ones. -/
theorem run_memoryPart (steps : List LoaderStep) :
    (run onCard (start mem mem1) steps).memoryPart =
      ((start mem mem1).memPatches, steps.countP LoaderStep.isMemory,
        List.range (steps.countP LoaderStep.isMemory)) := by
  induction steps using List.reverseRecOn with
  | nil => rfl
  | append_singleton steps step ih =>
    rw [run_append_singleton, perform_memoryPart, List.countP_append, List.countP_singleton]
    have hcount := congrArg (fun part => part.2.1) ih
    have hwritten := congrArg (fun part => part.2.2) ih
    have hbase := congrArg (fun part => part.1) ih
    dsimp only [LoaderState.memoryPart] at hcount hwritten hbase
    cases step.isMemory with
    | true =>
      rw [if_pos rfl, if_pos rfl, hcount, hwritten, hbase, List.range_succ]
    | false =>
      rw [if_neg Bool.false_ne_true, if_neg Bool.false_ne_true, ih, Nat.add_zero]

/-- **What a run hands out**: the array for the memory patches, and strings. -/
theorem grows_run (steps : List LoaderStep) :
    ∃ strings, (∀ al ∈ strings, al.text ≠ none) ∧
      (run onCard (start mem mem1) steps).arena.allocations =
        (start mem mem1).arena.allocations ++ strings := by
  induction steps using List.reverseRecOn with
  | nil => exact ⟨[], by simp, (List.append_nil _).symm⟩
  | append_singleton steps step ih =>
    obtain ⟨strings, htext, hallocs⟩ := ih
    obtain ⟨more, hgrow, hmore⟩ := grows_perform onCard (run onCard (start mem mem1) steps) step
    refine ⟨strings ++ more, List.forall_mem_append.mpr ⟨htext, hmore⟩, ?_⟩
    rw [run_append_singleton, hgrow, hallocs, List.append_assoc]

/-- The array for the memory patches is the first that is handed out, and the invariant holds with
it alone. -/
theorem Inv.start (haligned : 32 ∣ mem1.toNat) (hfits : (start mem mem1).arena.Fits) :
    Inv mem1 (start mem mem1).memPatches (Mem1.start mem mem1).arena := by
  have hroom : 2048 ≤ mem1.toNat := hfits _ (List.mem_singleton_self _)
  have haddr : (mem1 - UInt32.ofNat 2048).toNat = mem1.toNat - 2048 := Memory.toNat_below hroom
  have hcarved := (Memory.Carved.nil mem1.toNat (mem1 - UInt32.ofNat 2048).toNat mem mem1).push
    ⟨mem1, ⟨mem1 - UInt32.ofNat 2048, 2048⟩, none⟩ (Nat.le_refl _)
    (show (mem1 - UInt32.ofNat 2048).toNat + 2048 ≤ mem1.toNat by omega) nofun
  refine ⟨hcarved, Nat.le_refl _, ?_, ?_⟩
  · show (mem1 - UInt32.ofNat 2048).toNat ≤ mem1.toNat
    omega
  · intro al hal _
    obtain rfl := List.mem_singleton.mp hal
    show 4 ∣ (mem1 - UInt32.ofNat 2048).toNat
    omega

/-- Where a run has room, it had room before its last step. -/
theorem room_of_append {steps : List LoaderStep} {step : LoaderStep}
    (hfits : (run onCard (start mem mem1) (steps ++ [step])).arena.Fits)
    (hroom : (start mem mem1).memPatches.toNat +
      sizeofMemoryPatch * (steps ++ [step]).countP LoaderStep.isMemory ≤ 2 ^ 32) :
    (run onCard (start mem mem1) steps).memPatches = (start mem mem1).memPatches ∧
    (run onCard (start mem mem1) steps).arena.Fits ∧
    (start mem mem1).memPatches.toNat + sizeofMemoryPatch * steps.countP LoaderStep.isMemory ≤
      2 ^ 32 ∧
    (run onCard (start mem mem1) steps).memPatches.toNat + sizeofMemoryPatch *
      (perform onCard (run onCard (start mem mem1) steps) step).memPatchesCount ≤ 2 ^ 32 := by
  have hbase : (run onCard (start mem mem1) steps).memPatches = (start mem mem1).memPatches :=
    congrArg Prod.fst (run_memoryPart onCard mem mem1 steps)
  have hcount : (perform onCard (run onCard (start mem mem1) steps) step).memPatchesCount =
      (steps ++ [step]).countP LoaderStep.isMemory := by
    rw [← run_append_singleton]
    exact congrArg (fun part => part.2.1) (run_memoryPart onCard mem mem1 (steps ++ [step]))
  have hprev : steps.countP LoaderStep.isMemory ≤ (steps ++ [step]).countP LoaderStep.isMemory := by
    rw [List.countP_append]
    exact Nat.le_add_right _ _
  obtain ⟨strings, hgrow, -⟩ := grows_perform onCard (run onCard (start mem mem1) steps) step
  rw [run_append_singleton] at hfits
  refine ⟨hbase, hfits.of_prefix ⟨strings, hgrow.symm⟩, ?_, ?_⟩
  · exact (Nat.add_le_add_left (Nat.mul_le_mul_left _ hprev) _).trans hroom
  · rw [hbase, hcount]
    exact hroom

/-- **Every run keeps the invariant**, by induction on its steps: an earlier state has handed out
less, so it fits if the last one does. -/
theorem Inv.run (haligned : 32 ∣ mem1.toNat) (steps : List LoaderStep)
    (hfits : (Mem1.run onCard (Mem1.start mem mem1) steps).arena.Fits)
    (hroom : (Mem1.start mem mem1).memPatches.toNat +
      sizeofMemoryPatch * steps.countP LoaderStep.isMemory ≤ 2 ^ 32) :
    Inv mem1 (Mem1.start mem mem1).memPatches (Mem1.run onCard (Mem1.start mem mem1) steps).arena := by
  induction steps using List.reverseRecOn with
  | nil => exact Inv.start mem mem1 haligned hfits
  | append_singleton steps step ih =>
    obtain ⟨hbase, hfits₁, hroom₁, hroom₂⟩ := room_of_append onCard mem mem1 hfits hroom
    have hinv := ih hfits₁ hroom₁
    rw [← hbase] at hinv ⊢
    rw [run_append_singleton] at hfits ⊢
    exact hinv.perform onCard step hfits hroom₂

end Run

/-! ### The arrays -/

/-- The bytes of a table entry for a file of the card are as many as `sizeof` says, whatever the
entry has in it. -/
theorem length_sdFile_bytes (f : SdFile) : f.bytes.length = sizeofSdFile := rfl

/-- The bytes of a replacement are as many as `sizeof` says, whatever the replacement has in it. -/
theorem length_fileReplacement_bytes (r : FileReplacement) :
    r.bytes.length = sizeofFileReplacement := rfl

/-- The three arrays that publishing hands out, one after the other: the files of the card, the path
replacements and the name replacements, the last two sorted. -/
theorem publish_some {qsort : List FileReplacement → List FileReplacement} {s s' : LoaderState}
    {disc : RrcRiivoDisc} (h : publish qsort s = some (s', disc)) :
    ∃ sd rep fil : Arena × UInt32,
      sd = allocArray s.arena sizeofSdFile (s.sdFiles.map SdFile.bytes) ∧
      rep = allocArray sd.1 sizeofFileReplacement
        ((qsort s.replacements).map FileReplacement.bytes) ∧
      fil = allocArray rep.1 sizeofFileReplacement
        ((qsort s.filenameReplacements).map FileReplacement.bytes) ∧
      s' = { s with
        arena := fil.1
        replacements := qsort s.replacements
        filenameReplacements := qsort s.filenameReplacements } ∧
      disc = ⟨sd.2, (qsort s.filenameReplacements).length, fil.2, (qsort s.replacements).length,
        rep.2⟩ := by
  unfold publish at h
  split at h
  · cases h
  · cases h
    exact ⟨_, _, _, rfl, rfl, rfl, rfl, rfl⟩

/-- **Publishing keeps the invariant**: each of the three arrays is one more block below the
pointer. -/
theorem Inv.publish {qsort : List FileReplacement → List FileReplacement} {mem1 : UInt32}
    {s s' : LoaderState} {disc : RrcRiivoDisc} (h : Inv mem1 s.memPatches s.arena)
    (hpublish : publish qsort s = some (s', disc)) (hfits : s'.arena.Fits) :
    Inv mem1 s'.memPatches s'.arena := by
  obtain ⟨sd, rep, fil, rfl, rfl, rfl, rfl, -⟩ := publish_some hpublish
  have hrep := hfits.of_prefix (List.prefix_append _ _)
  have hsd := hrep.of_prefix (List.prefix_append _ _)
  refine ((h.allocArray ?_ hsd).allocArray ?_ hrep).allocArray ?_ hfits
  · exact List.forall_mem_map.mpr fun f _ => length_sdFile_bytes f
  · exact List.forall_mem_map.mpr fun r _ => length_fileReplacement_bytes r
  · exact List.forall_mem_map.mpr fun r _ => length_fileReplacement_bytes r

/-- **What is handed out in MEM1**: the array for the memory patches, the strings, and the
three arrays that the runtime is given. -/
theorem allocations_publish {onCard : CStr → Bool}
    {qsort : List FileReplacement → List FileReplacement} {mem : Memory} {mem1 : UInt32}
    {steps : List LoaderStep} {s : LoaderState} {disc : RrcRiivoDisc}
    (h : publish qsort (run onCard (start mem mem1) steps) = some (s, disc)) :
    ∃ strings : List Allocation, (∀ al ∈ strings, al.text ≠ none) ∧
      s.arena.allocations.map (·.block) =
        ⟨s.memPatches, sizeofMemoryPatch * maxMemoryPatches⟩ :: strings.map (·.block) ++
          [⟨disc.sdFiles, sizeofSdFile * s.sdFiles.length⟩,
            ⟨disc.replacements, sizeofFileReplacement * disc.replacementsCount⟩,
            ⟨disc.filenameReplacements,
              sizeofFileReplacement * disc.filenameReplacementsCount⟩] := by
  obtain ⟨strings, htext, hallocs⟩ := grows_run onCard mem mem1 steps
  have hbase := congrArg Prod.fst (run_memoryPart onCard mem mem1 steps)
  obtain ⟨sd, rep, fil, rfl, rfl, rfl, rfl, rfl⟩ := publish_some h
  refine ⟨strings, htext, ?_⟩
  simp only [allocArray, hallocs, List.map_append, List.map_cons, List.map_nil,
    List.length_map, List.append_assoc, List.cons_append, List.nil_append]
  rw [show (run onCard (start mem mem1) steps).memPatches = (start mem mem1).memPatches from hbase]
  rfl

/-- Everything that was handed out before publishing is still there behind it. -/
theorem grows_publish {qsort : List FileReplacement → List FileReplacement} {s s' : LoaderState}
    {disc : RrcRiivoDisc} (h : publish qsort s = some (s', disc)) :
    s.arena.allocations <+: s'.arena.allocations := by
  obtain ⟨sd, rep, fil, rfl, rfl, rfl, rfl, -⟩ := publish_some h
  exact ((List.prefix_append _ _).trans (List.prefix_append _ _)).trans (List.prefix_append _ _)

/-- **The invariant of what is published**, for a parse from its start to its end: all blocks lie
apart and all strings read back. -/
theorem Inv.publish_run {onCard : CStr → Bool}
    {qsort : List FileReplacement → List FileReplacement} {mem : Memory} {mem1 : UInt32}
    (haligned : 32 ∣ mem1.toNat) {steps : List LoaderStep} {s : LoaderState} {disc : RrcRiivoDisc}
    (hpublish : Mem1.publish qsort (Mem1.run onCard (Mem1.start mem mem1) steps) = some (s, disc))
    (hfits : s.arena.Fits)
    (hpatches : s.memPatches.toNat + sizeofMemoryPatch * s.memPatchesCount ≤ 2 ^ 32) :
    Inv mem1 s.memPatches s.arena := by
  refine Inv.publish ?_ hpublish hfits
  have hpart := run_memoryPart onCard mem mem1 steps
  have hbase := congrArg Prod.fst hpart
  have hcount := congrArg (fun part => part.2.1) hpart
  have hprev := hfits.of_prefix (grows_publish hpublish)
  obtain ⟨sd, rep, fil, -, -, -, rfl, -⟩ := publish_some hpublish
  dsimp only [LoaderState.memoryPart] at hbase hcount hpatches
  rw [hcount, hbase] at hpatches
  rw [hbase]
  exact Inv.run onCard mem mem1 haligned steps hprev hpatches

/-- **MEM1 allocations never overlap**, whatever is registered, as long as the pointer does
not wrap around, and neither do the memory patches, if there are any.  What is handed out
is the array for the memory patches, the strings and the three arrays of `disc`; all of it
lies between the last and the first value of `*mem1`, the arrays are aligned, and every
string reads back. -/
theorem mem1_allocations_disjoint {onCard : CStr → Bool}
    {qsort : List FileReplacement → List FileReplacement} {mem : Memory} {mem1 : UInt32}
    (haligned : 32 ∣ mem1.toNat) {steps : List LoaderStep} {s : LoaderState} {disc : RrcRiivoDisc}
    (hpublish : publish qsort (run onCard (start mem mem1) steps) = some (s, disc))
    (hfits : s.arena.Fits)
    (hpatches : s.memPatches.toNat + sizeofMemoryPatch * s.memPatchesCount ≤ 2 ^ 32) :
    (∃ strings : List Allocation, (∀ al ∈ strings, al.text ≠ none) ∧
      s.arena.allocations.map (·.block) =
        ⟨s.memPatches, sizeofMemoryPatch * maxMemoryPatches⟩ :: strings.map (·.block) ++
          [⟨disc.sdFiles, sizeofSdFile * s.sdFiles.length⟩,
            ⟨disc.replacements, sizeofFileReplacement * disc.replacementsCount⟩,
            ⟨disc.filenameReplacements,
              sizeofFileReplacement * disc.filenameReplacementsCount⟩]) ∧
    s.arena.allocations.Pairwise (fun al al' => al.block.Apart al'.block) ∧
    (∀ al ∈ s.arena.allocations,
      s.arena.top.toNat ≤ al.block.addr.toNat ∧ al.block.stop ≤ mem1.toNat) ∧
    (∀ al ∈ s.arena.allocations, al.text = none → 4 ∣ al.block.addr.toNat) ∧
    (∀ al ∈ s.arena.allocations, ∀ src, al.text = some src →
      s.arena.mem.cstring al.block.addr = src) := by
  have hinv := Inv.publish_run haligned hpublish hfits hpatches
  exact ⟨allocations_publish hpublish, hinv.carved.apart, hinv.carved.within, hinv.aligned,
    fun al hal src hsrc => hinv.carved.cstring_eq mem1.toNat_lt.le ⟨al, hal, rfl, hsrc⟩⟩

/-- Two files that replace the same one, and a memory patch. -/
def threeSteps : List LoaderStep :=
  [.file ⟨CStr.lit "/a", CStr.lit "/new", true⟩, .memory ⟨0x80000000, 1, some 2⟩,
    .file ⟨CStr.lit "/a", CStr.lit "/newer", true⟩]

/-- Three registrations from the start: the blocks lie apart, and the first external path reads back
from its address. -/
theorem mem1_allocations_disjoint_three :
    ∃ s disc, publish id (run (fun _ => true) (start (fun _ => 0xCC) 0x81700000) threeSteps) =
        some (s, disc) ∧
      s.arena.allocations.Pairwise (fun al al' => al.block.Apart al'.block) ∧
      s.arena.mem.cstring 0x816ff7fb = CStr.lit "/new" := by
  have hsome : (publish id (run (fun _ => true) (start (fun _ => 0xCC) 0x81700000)
      threeSteps)).isSome := by decide +kernel
  have hall : (publish id (run (fun _ => true) (start (fun _ => 0xCC) 0x81700000)
      threeSteps)).all (fun out => decide ((∀ al ∈ out.1.arena.allocations, al.Fits) ∧
        out.1.memPatches.toNat + sizeofMemoryPatch * out.1.memPatchesCount ≤ 2 ^ 32 ∧
        ⟨0x816ff800, ⟨0x816ff7fb, 5⟩, some (CStr.lit "/new")⟩ ∈ out.1.arena.allocations)) := by
    decide +kernel
  obtain ⟨⟨s, disc⟩, hpublish⟩ := Option.isSome_iff_exists.mp hsome
  rw [hpublish] at hall
  obtain ⟨hfits, hpatches, hmem⟩ := of_decide_eq_true hall
  obtain ⟨-, hapart, -, -, hstrings⟩ :=
    mem1_allocations_disjoint (by decide) hpublish hfits hpatches
  exact ⟨s, disc, hpublish, hapart, hstrings _ hmem _ rfl⟩

end Mem1

end RrLauncher
