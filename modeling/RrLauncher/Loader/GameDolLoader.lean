/-
# Launching the game

`patch_dol` of `game_dol_loader.c`, the last code of the launcher that runs: it zeroes the
BSS, copies the staged sections to where the game expects them and applies the memory
patches, all over the one memory that also holds what it reads.  The functions for the
caches leave the memory as it is, and the code itself lies where nothing is written.

If nothing that is written by the first two steps is read later, the memory at the entry
point is the one that the header describes (`patch_dol_image`).  This takes a BSS that ends
before the last address, since the end is a pointer too, and a patch list in which no patch that
is applied writes into an entry that is still to come (`patch_dol_not_image`).
-/

import RrLauncher.Loader.Mem1
import RrLauncher.Shared.Dol

namespace RrLauncher

open ByteReader (be32)
open Memory (InRange)

/-- The loop that zeroes the BSS. -/
def zeroBss (mem : Memory) (dol : UInt32) : Memory :=
  let start := dolBssAddr mem dol
  let stop := start + dolBssSize mem dol
  mem.fill start stop 0

/-- The body of the loop over the sections. -/
def copySection (dol : UInt32) (mem : Memory) (sectionIndex : ℕ) : Memory :=
  let src := dol + dolSection mem dol sectionIndex
  let dest := dolSectionAddr mem dol sectionIndex
  let size := dolSectionSize mem dol sectionIndex
  mem.copy dest src size 0

/-- The loop over the sections. -/
def copySections (mem : Memory) (dol : UInt32) : Memory :=
  (List.range rrcDolSectionCount).foldl (copySection dol) mem

/-- `&mem_patches[i]`. -/
def memPatchAddr (memPatches : UInt32) (i : ℕ) : UInt32 :=
  memPatches + UInt32.ofNat (sizeofMemoryPatch * i)

/-- The body of the loop over the memory patches. -/
def runMemPatch (memPatches : UInt32) (mem : Memory) (i : ℕ) : Memory :=
  let patch := memPatchAddr memPatches i
  let dest := mem.word patch
  let value := mem.word dest
  if mem (patch + 12) ≠ 0 ∧ mem.word (patch + 8) ≠ value then mem
  else mem.write dest (be32 (mem.word (patch + 4)))

/-- The loop over the memory patches. -/
def runMemPatches (mem : Memory) (memPatches : UInt32) (memPatchCount : ℕ) : Memory :=
  (List.range memPatchCount).foldl (runMemPatch memPatches) mem

/-- `patch_dol`: the memory when it calls the entry point, and the entry point. -/
def patchDol (mem : Memory) (dol memPatches : UInt32) (memPatchCount : ℕ) : Memory × UInt32 :=
  let mem := zeroBss mem dol
  let mem := copySections mem dol
  let mem := runMemPatches mem memPatches memPatchCount
  (mem, dolEntryPoint mem dol)

/-! ### What the header describes -/

section Image

variable (mem : Memory) (dol : UInt32)

/-- The address is one of the BSS. -/
def InBss (a : UInt32) : Prop := InRange (dolBssAddr mem dol) (dolBssSize mem dol).toNat a

/-- The address is one where section `i` belongs. -/
def InSection (i : ℕ) (a : UInt32) : Prop :=
  InRange (dolSectionAddr mem dol i) (dolSectionSize mem dol i).toNat a

instance (a : UInt32) : Decidable (InBss mem dol a) := inferInstanceAs (Decidable (InRange _ _ _))

instance (i : ℕ) (a : UInt32) : Decidable (InSection mem dol i a) :=
  inferInstanceAs (Decidable (InRange _ _ _))

/-- The memory with the BSS zeroed and the first `n` sections where they belong. -/
def imageOf (n : ℕ) : Memory := fun a =>
  match (List.range n).find? fun i => InSection mem dol i a with
  | some i => mem (dol + dolSection mem dol i + (a - dolSectionAddr mem dol i))
  | none => if InBss mem dol a then 0 else mem a

/-- The address is overwritten before the patches are applied. -/
def Overwritten (a : UInt32) : Prop :=
  InBss mem dol a ∨ ∃ i < rrcDolSectionCount, InSection mem dol i a

end Image

/-- What an entry of the patch list says. -/
def patchAt (mem : Memory) (memPatches : UInt32) (i : ℕ) : RrcRiivoMemoryPatch :=
  let patch := memPatchAddr memPatches i
  { addr := mem.word patch
    value := mem.word (patch + 4)
    original := if mem (patch + 12) = 0 then none else some (mem.word (patch + 8)) }

/-- The patch is not skipped in this memory: it has no original, or the original is what is
there. -/
def Applies (patch : RrcRiivoMemoryPatch) (mem : Memory) : Prop :=
  patch.original = none ∨ patch.original = some (mem.word patch.addr)

instance (patch : RrcRiivoMemoryPatch) (mem : Memory) : Decidable (Applies patch mem) :=
  inferInstanceAs (Decidable (_ ∨ _))

/-- **What a patch is for**: its value is written if it has no original, or the original is what
is there. -/
def applyPatch (mem : Memory) (patch : RrcRiivoMemoryPatch) : Memory :=
  if Applies patch mem then mem.write patch.addr (be32 patch.value) else mem

/-- The patch list as it stands in memory, entry by entry. -/
def patchList (mem : Memory) (memPatches : UInt32) (memPatchCount : ℕ) : List RrcRiivoMemoryPatch :=
  (List.range memPatchCount).map (patchAt mem memPatches)

/-- What is overwritten is neither read later nor overwritten twice by sections. -/
structure Separated (mem : Memory) (dol memPatches : UInt32) (memPatchCount : ℕ) : Prop where
  header : ∀ a, Overwritten mem dol a → ¬ InHeader dol a
  staged : ∀ a, Overwritten mem dol a → ∀ j < rrcDolSectionCount, ¬ Staged mem dol j a
  patches : ∀ a, Overwritten mem dol a → ¬ InRange memPatches (sizeofMemoryPatch * memPatchCount) a
  sections : ∀ a, ∀ i < rrcDolSectionCount, ∀ j < rrcDolSectionCount, InSection mem dol i a →
    InSection mem dol j a → i = j

/-- The pointer to the end of the BSS is not below its beginning. -/
def BssEnds (mem : Memory) (dol : UInt32) : Prop :=
  dolBssSize mem dol = 0 ∨ (dolBssAddr mem dol).toNat + (dolBssSize mem dol).toNat < 2 ^ 32

/-- When the patches are applied to `image`, none that is applied writes into an entry of the list
that comes after it.  A patch that is skipped, since the word at its address is not its original,
may be for any address. -/
def KeepsPatchList (image mem : Memory) (memPatches : UInt32) (memPatchCount : ℕ) : Prop :=
  ∀ j < memPatchCount, ∀ i < j,
    Applies (patchAt mem memPatches i) ((patchList mem memPatches i).foldl applyPatch image) →
      ∀ a, InRange (patchAt mem memPatches i).addr 4 a →
        ¬ InRange (memPatchAddr memPatches j) sizeofMemoryPatch a

/-- No patch is for an address in an entry of the list that comes after it, whether it is applied
or not.  This can be read off the list alone. -/
def PatchListApart (mem : Memory) (memPatches : UInt32) (memPatchCount : ℕ) : Prop :=
  ∀ j < memPatchCount, ∀ i < j, ∀ a, InRange (patchAt mem memPatches i).addr 4 a →
    ¬ InRange (memPatchAddr memPatches j) sizeofMemoryPatch a

/-- Such a list is kept, whatever memory the patches are applied to. -/
theorem PatchListApart.keeps {mem : Memory} {memPatches : UInt32} {memPatchCount : ℕ}
    (h : PatchListApart mem memPatches memPatchCount) (image : Memory) :
    KeepsPatchList image mem memPatches memPatchCount := fun j hj i hij _ => h j hj i hij

/-! ### The sections -/

section Sections

variable {mem : Memory} {dol memPatches : UInt32} {memPatchCount : ℕ}

/-- **The BSS is zeroed**: the memory is the image with no section copied yet. -/
theorem zeroBss_eq (hbss : BssEnds mem dol) : zeroBss mem dol = imageOf mem dol 0 := by
  funext a
  have ha := a.toNat_lt
  have hstart := (dolBssAddr mem dol).toNat_lt
  rw [zeroBss, Memory.fill_apply]
  refine if_congr ?_ rfl rfl
  rw [InBss, InRange, UInt32.toNat_sub]
  rcases hbss with hempty | hends
  · rw [hempty, UInt32.add_zero, UInt32.toNat_zero]
    omega
  · rw [UInt32.toNat_add]
    omega

/-- What is neither in the BSS nor in a section is as it was. -/
theorem imageOf_of_not_overwritten {n : ℕ} (hn : n ≤ rrcDolSectionCount) {a : UInt32}
    (h : ¬ Overwritten mem dol a) : imageOf mem dol n a = mem a := by
  rw [Overwritten, not_or] at h
  have hnone : (List.range n).find? (fun i => InSection mem dol i a) = none := by
    rw [List.find?_eq_none]
    intro i hi hin
    exact h.2 ⟨i, Nat.lt_of_lt_of_le (List.mem_range.mp hi) hn, of_decide_eq_true hin⟩
  rw [imageOf, hnone]
  exact if_neg h.1

/-- The fields of the header are not overwritten, so the loop reads the same ones in all of its
turns. -/
theorem dolField_imageOf (h : Separated mem dol memPatches memPatchCount) {n k : ℕ}
    (hn : n ≤ rrcDolSectionCount) (hk : k < 57) :
    dolField (imageOf mem dol n) dol k = dolField mem dol k :=
  dolField_congr hk fun a ha => imageOf_of_not_overwritten hn fun hover => h.header a hover ha

/-- **One more section** is copied to where it belongs, out of bytes that nothing has overwritten so
far. -/
theorem copySection_imageOf (h : Separated mem dol memPatches memPatchCount) {n : ℕ}
    (hn : n < rrcDolSectionCount) :
    copySection dol (imageOf mem dol n) n = imageOf mem dol (n + 1) := by
  have hcount : rrcDolSectionCount = 18 := rfl
  have hoffset : dolSection (imageOf mem dol n) dol n = dolSection mem dol n :=
    dolField_imageOf h hn.le (by omega)
  have haddr : dolSectionAddr (imageOf mem dol n) dol n = dolSectionAddr mem dol n :=
    dolField_imageOf h hn.le (by omega)
  have hsize : dolSectionSize (imageOf mem dol n) dol n = dolSectionSize mem dol n :=
    dolField_imageOf h hn.le (by omega)
  have hapart : ∀ a, InSection mem dol n a → ¬ Staged mem dol n a := fun a ha =>
    h.staged a (Or.inr ⟨n, hn, ha⟩) n hn
  funext a
  rw [copySection, hoffset, haddr, hsize, Memory.copy_apply hapart, imageOf.eq_def mem dol (n + 1),
    List.range_succ, List.find?_append]
  by_cases ha : InSection mem dol n a
  · -- no section before has this address, and what is copied is not overwritten
    have hfirst : (List.range n).find? (fun i => InSection mem dol i a) = none := by
      rw [List.find?_eq_none]
      intro i hi hin
      have hlt := List.mem_range.mp hi
      exact Nat.ne_of_lt hlt (h.sections a i (hlt.trans hn) n hn (of_decide_eq_true hin) ha)
    have hsrc : Staged mem dol n (dol + dolSection mem dol n + (a - dolSectionAddr mem dol n)) :=
      Memory.inRange_add ha
    rw [if_pos ⟨Nat.zero_le _, ha⟩, hfirst, Option.none_or,
      List.find?_cons_of_pos (p := fun i => decide (InSection mem dol i a)) (decide_eq_true ha)]
    exact imageOf_of_not_overwritten hn.le fun hover => h.staged _ hover n hn hsrc
  · rw [if_neg fun hin => ha hin.2, List.find?_cons_of_neg (by simpa using ha), List.find?_nil,
      Option.or_none]
    rfl

/-- **All sections** are copied, one after the other, from the image with the first ones to the one
with all of them. That they are staged apart from what is overwritten makes each copy read what was
staged. -/
theorem copySections_imageOf (h : Separated mem dol memPatches memPatchCount) :
    copySections (imageOf mem dol 0) dol = imageOf mem dol rrcDolSectionCount := by
  have hfirst : ∀ n ≤ rrcDolSectionCount,
      (List.range n).foldl (copySection dol) (imageOf mem dol 0) = imageOf mem dol n := by
    intro n hn
    induction n with
    | zero => rfl
    | succ n ih =>
      rw [List.range_succ, List.foldl_append, ih (Nat.le_of_succ_le hn)]
      exact copySection_imageOf h hn
  exact hfirst _ (Nat.le_refl _)

end Sections

/-! ### The patches -/

section Patches

variable {mem : Memory} {memPatches : UInt32} {memPatchCount : ℕ}

/-- The body of the loop, which compares and writes words of the memory, applies the patch that
the entry says: `original_init` is the difference between an original of zero and none. -/
theorem runMemPatch_eq (mem : Memory) (memPatches : UInt32) (i : ℕ) :
    runMemPatch memPatches mem i = applyPatch mem (patchAt mem memPatches i) := by
  have happlies : Applies (patchAt mem memPatches i) mem ↔
      ¬ (mem (memPatchAddr memPatches i + 12) ≠ 0 ∧
        mem.word (memPatchAddr memPatches i + 8) ≠ mem.word (mem.word (memPatchAddr memPatches i))) := by
    rw [Applies, patchAt, not_and_or, not_ne_iff, not_ne_iff]
    by_cases hinit : mem (memPatchAddr memPatches i + 12) = 0
    · simp only [hinit, if_true, true_or]
    · simp only [hinit, if_false, false_or, reduceCtorEq, Option.some.injEq]
  rw [runMemPatch, applyPatch]
  by_cases happly : Applies (patchAt mem memPatches i) mem
  · rw [if_neg (happlies.mp happly), if_pos happly]
    rfl
  · rw [if_pos (not_not.mp (mt happlies.mpr happly)), if_neg happly]

/-- A patch writes the four bytes at its address at most. -/
theorem applyPatch_of_notInRange {patch : RrcRiivoMemoryPatch} {a : UInt32}
    (h : ¬ InRange patch.addr 4 a) : applyPatch mem patch a = mem a := by
  rw [applyPatch]
  split
  · exact Memory.write_of_notInRange mem h
  · rfl

/-- An entry says the same in two memories that have the same thirteen bytes there, the word for
the address, that for the value, that for the original and whether there is one. -/
theorem patchAt_congr {mem' : Memory} {i : ℕ}
    (h : ∀ a, InRange (memPatchAddr memPatches i) sizeofMemoryPatch a → mem' a = mem a) :
    patchAt mem' memPatches i = patchAt mem memPatches i := by
  have hword : ∀ k, k + 4 ≤ sizeofMemoryPatch →
      mem'.word (memPatchAddr memPatches i + UInt32.ofNat k) =
        mem.word (memPatchAddr memPatches i + UInt32.ofNat k) := fun k hk =>
    Memory.word_congr fun a ha => h a (ha.of_offset hk)
  have haddr : mem'.word (memPatchAddr memPatches i) = mem.word (memPatchAddr memPatches i) := by
    simpa using hword 0 (by decide)
  have hvalue : mem'.word (memPatchAddr memPatches i + 4) = mem.word (memPatchAddr memPatches i + 4) :=
    hword 4 (by decide)
  have horiginal :
      mem'.word (memPatchAddr memPatches i + 8) = mem.word (memPatchAddr memPatches i + 8) :=
    hword 8 (by decide)
  rw [patchAt, patchAt, haddr, hvalue, horiginal, h _ (Memory.inRange_add (by decide))]

/-- **The patches are applied** as they were listed before the game was copied, since neither the
image nor an earlier patch changes a later entry. -/
theorem runMemPatches_eq {image : Memory}
    (hkeeps : KeepsPatchList image mem memPatches memPatchCount)
    (himage : ∀ a, InRange memPatches (sizeofMemoryPatch * memPatchCount) a → image a = mem a) :
    runMemPatches image memPatches memPatchCount =
      (patchList mem memPatches memPatchCount).foldl applyPatch image := by
  -- the entries that are still to come are as they were
  have hfirst : ∀ n ≤ memPatchCount,
      (List.range n).foldl (runMemPatch memPatches) image =
          (patchList mem memPatches n).foldl applyPatch image ∧
        ∀ j < memPatchCount, n ≤ j → ∀ a, InRange (memPatchAddr memPatches j) sizeofMemoryPatch a →
          (patchList mem memPatches n).foldl applyPatch image a = mem a := by
    intro n hn
    induction n with
    | zero =>
      refine ⟨rfl, fun j hj _ a ha => himage a (ha.of_offset ?_)⟩
      rw [sizeofMemoryPatch]
      omega
    | succ n ih =>
      obtain ⟨hrun, hentries⟩ := ih (Nat.le_of_succ_le hn)
      have hlist : patchList mem memPatches (n + 1) =
          patchList mem memPatches n ++ [patchAt mem memPatches n] := by
        rw [patchList, patchList, List.range_succ, List.map_append, List.map_singleton]
      rw [hlist, List.foldl_append, List.range_succ, List.foldl_append, hrun]
      refine ⟨?_, fun j hj hle a ha => ?_⟩
      · have hentry := patchAt_congr (hentries n hn (Nat.le_refl n))
        rw [List.foldl_cons, List.foldl_nil, List.foldl_cons, List.foldl_nil, runMemPatch_eq, hentry]
      · rw [List.foldl_cons, List.foldl_nil]
        by_cases happlies : Applies (patchAt mem memPatches n)
            ((patchList mem memPatches n).foldl applyPatch image)
        · rw [applyPatch_of_notInRange fun hin => hkeeps j hj n hle happlies a hin ha]
          exact hentries j hj (Nat.le_of_succ_le hle) a ha
        · rw [applyPatch, if_neg happlies]
          exact hentries j hj (Nat.le_of_succ_le hle) a ha
  exact (hfirst memPatchCount (Nat.le_refl _)).1

end Patches

/-! ### The memory at the entry point -/

/-- **The memory at the entry point** is the one with the BSS zeroed, the sections where they
belong and the patches applied in order; all other bytes are as they were. -/
theorem patch_dol_image {mem : Memory} {dol memPatches : UInt32} {memPatchCount : ℕ}
    (h : Separated mem dol memPatches memPatchCount) (hbss : BssEnds mem dol)
    (hkeeps : KeepsPatchList (imageOf mem dol rrcDolSectionCount) mem memPatches memPatchCount) :
    (patchDol mem dol memPatches memPatchCount).1 =
        (patchList mem memPatches memPatchCount).foldl applyPatch
          (imageOf mem dol rrcDolSectionCount) ∧
      ∀ a, ¬ Overwritten mem dol a →
        (∀ patch ∈ patchList mem memPatches memPatchCount, ¬ InRange patch.addr 4 a) →
        (patchDol mem dol memPatches memPatchCount).1 a = mem a := by
  have himage : (patchDol mem dol memPatches memPatchCount).1 =
      (patchList mem memPatches memPatchCount).foldl applyPatch
        (imageOf mem dol rrcDolSectionCount) := by
    rw [patchDol]
    dsimp only
    rw [zeroBss_eq hbss, copySections_imageOf h]
    exact runMemPatches_eq hkeeps fun a ha =>
      imageOf_of_not_overwritten (Nat.le_refl _) fun hover => h.patches a hover ha
  refine ⟨himage, fun a hover hpatches => ?_⟩
  rw [himage, ← imageOf_of_not_overwritten (Nat.le_refl _) hover]
  generalize imageOf mem dol rrcDolSectionCount = image
  generalize patchList mem memPatches memPatchCount = patches at hpatches
  induction patches generalizing image with
  | nil => rfl
  | cons patch patches ih =>
    rw [List.forall_mem_cons] at hpatches
    rw [List.foldl_cons, ih _ hpatches.2, applyPatch_of_notInRange hpatches.1]

/-- A game with one section of a word, a BSS of a word and a patch for the section. -/
def smallGame : Memory :=
  let header : Memory := Memory.write (fun _ => 0) 0x80901000 (be32 0x100)
  let header := (header.write 0x80901048 (be32 0x80004000)).write 0x80901090 (be32 4)
  let header := header.write 0x809010d8 (be32 0x80005000 ++ be32 4)
  let staged := (header.write 0x80901100 (be32 5)).write 0x80005000 (be32 9)
  staged.write 0x81700000 (be32 0x80004000 ++ (be32 7 ++ (be32 5 ++ [1])))

/-- The game of the witness has one section, of four bytes. -/
theorem smallGame_size :
    ∀ i < rrcDolSectionCount, dolSectionSize smallGame 0x80901000 i = if i = 0 then 4 else 0 := by
  decide +kernel

/-- It overwrites two words: that of its BSS, and that of its section. -/
theorem smallGame_overwritten {a : UInt32} (h : Overwritten smallGame 0x80901000 a) :
    InRange 0x80005000 4 a ∨ InRange 0x80004000 4 a := by
  have hbss : dolBssAddr smallGame 0x80901000 = 0x80005000 ∧ dolBssSize smallGame 0x80901000 = 4 := by
    decide +kernel
  have haddr : dolSectionAddr smallGame 0x80901000 0 = 0x80004000 := by decide +kernel
  rcases h with hin | ⟨i, hi, hin⟩
  · rw [InBss, hbss.1, hbss.2] at hin
    exact Or.inl hin
  · rw [InSection, smallGame_size i hi] at hin
    split at hin
    · rename_i hzero
      rw [hzero, haddr] at hin
      exact Or.inr hin
    · exact absurd hin (Nat.not_lt_zero _)

/-- What it overwrites is apart from its staged header and section, and from its list of patches. -/
theorem smallGame_separated : Separated smallGame 0x80901000 0x81700000 1 := by
  have hempty : ∀ {i : ℕ}, i < rrcDolSectionCount → i ≠ 0 → ∀ p a,
      ¬ InRange p (dolSectionSize smallGame 0x80901000 i).toNat a := fun hi hne p a hin => by
    rw [smallGame_size _ hi, if_neg hne] at hin
    exact Nat.not_lt_zero _ hin
  have hstaged : (0x80901000 : UInt32) + dolSection smallGame 0x80901000 0 = 0x80901100 := by
    decide +kernel
  refine ⟨fun a hover => ?_, fun a hover j hj hin => ?_, fun a hover => ?_,
    fun a i hi j hj hin hin' => ?_⟩
  · rcases smallGame_overwritten hover with h | h
    · exact Memory.not_inRange_of_le h (Or.inl (by decide))
    · exact Memory.not_inRange_of_le h (Or.inl (by decide))
  · by_cases hzero : j = 0
    · rw [hzero, Staged, smallGame_size 0 (by decide), hstaged] at hin
      rcases smallGame_overwritten hover with h | h
      · exact Memory.not_inRange_of_le h (Or.inl (by decide)) hin
      · exact Memory.not_inRange_of_le h (Or.inl (by decide)) hin
    · exact hempty hj hzero _ a hin
  · rcases smallGame_overwritten hover with h | h
    · exact Memory.not_inRange_of_le h (Or.inl (by decide))
    · exact Memory.not_inRange_of_le h (Or.inl (by decide))
  · have hi0 : i = 0 := by_contra fun hne => hempty hi hne _ a hin
    have hj0 : j = 0 := by_contra fun hne => hempty hj hne _ a hin'
    rw [hi0, hj0]

/-- A game with one section and one patch for its word: the word is the patched one, and the BSS is
cleared. -/
theorem patch_dol_image_small :
    (patchDol smallGame 0x80901000 0x81700000 1).1.word 0x80004000 = 7 ∧
      (patchDol smallGame 0x80901000 0x81700000 1).1.word 0x80005000 = 0 := by
  have hapart : PatchListApart smallGame 0x81700000 1 := fun j hj i hij =>
    absurd hij (by omega)
  rw [(patch_dol_image smallGame_separated (Or.inr (by decide +kernel)) (hapart.keeps _)).1]
  decide +kernel

/-! ### Where the memory is another one -/

/-- With nothing to copy, and an end of the BSS that is not behind its beginning, there are only
the patches. -/
theorem patchDol_of_empty {mem : Memory} {dol : UInt32}
    (hbss : ¬ dolBssAddr mem dol < dolBssAddr mem dol + dolBssSize mem dol)
    (hsections : ∀ i < rrcDolSectionCount, dolSectionSize mem dol i = 0) (memPatches : UInt32)
    (memPatchCount : ℕ) :
    (patchDol mem dol memPatches memPatchCount).1 = runMemPatches mem memPatches memPatchCount := by
  have hzero : zeroBss mem dol = mem := by rw [zeroBss, Memory.fill, if_neg hbss]
  have hcopy : ∀ l : List ℕ, (∀ i ∈ l, i < rrcDolSectionCount) →
      l.foldl (copySection dol) mem = mem := by
    intro l hl
    induction l with
    | nil => rfl
    | cons i l ih =>
      rw [List.forall_mem_cons] at hl
      have hcopied : copySection dol mem i = mem := by
        rw [copySection]
        rw [hsections i hl.1, Memory.copy_zero]
      rw [List.foldl_cons, hcopied]
      exact ih hl.2
  rw [patchDol]
  dsimp only
  rw [hzero, copySections, hcopy _ fun i hi => List.mem_range.mp hi]

/-- With nothing to copy only the BSS can be in the way. -/
theorem Separated.of_empty {mem : Memory} {dol memPatches : UInt32} {memPatchCount : ℕ}
    (hsections : ∀ i < rrcDolSectionCount, dolSectionSize mem dol i = 0)
    (hheader : ∀ a, InBss mem dol a → ¬ InHeader dol a)
    (hpatches : ∀ a, InBss mem dol a → ¬ InRange memPatches (sizeofMemoryPatch * memPatchCount) a) :
    Separated mem dol memPatches memPatchCount := by
  have hempty : ∀ i < rrcDolSectionCount, ∀ p a,
      ¬ InRange p (dolSectionSize mem dol i).toNat a := fun i hi p a hin => by
    rw [hsections i hi] at hin
    exact Nat.not_lt_zero _ hin
  have hover : ∀ a, Overwritten mem dol a → InBss mem dol a := by
    rintro a (hin | ⟨i, hi, hin⟩)
    · exact hin
    · exact absurd hin (hempty i hi _ a)
  exact ⟨fun a h => hheader a (hover a h), fun a _ j hj => hempty j hj _ a,
    fun a h => hpatches a (hover a h), fun a i hi _ _ hin => absurd hin (hempty i hi _ a)⟩

/-- A patch list whose first patch is for the value of the second one. -/
def chainedPatches : Memory :=
  Memory.write (fun _ => 0) 0x81700000
    (be32 0x81700014 ++ (be32 7 ++ (be32 0 ++ (be32 0 ++ (be32 0x80004000 ++ be32 1)))))

/-- A BSS that ends at the highest address. -/
def highBss : Memory :=
  (Memory.write (fun _ => 0) 0x809010d8 (be32 0xfffffff0 ++ be32 0x10)).write 0xfffffff0 [1]

/-- Both conditions are needed: a patch for an address in a later entry of the list changes that
entry before it is read, and a BSS whose end wraps around is not zeroed at all. -/
theorem patch_dol_not_image :
    (¬ ∀ (mem : Memory) (dol memPatches : UInt32) (memPatchCount : ℕ),
      Separated mem dol memPatches memPatchCount → BssEnds mem dol →
        (patchDol mem dol memPatches memPatchCount).1 =
          (patchList mem memPatches memPatchCount).foldl applyPatch
            (imageOf mem dol rrcDolSectionCount)) ∧
    ¬ ∀ (mem : Memory) (dol memPatches : UInt32) (memPatchCount : ℕ),
      Separated mem dol memPatches memPatchCount →
        KeepsPatchList (imageOf mem dol rrcDolSectionCount) mem memPatches memPatchCount →
        (patchDol mem dol memPatches memPatchCount).1 =
          (patchList mem memPatches memPatchCount).foldl applyPatch
            (imageOf mem dol rrcDolSectionCount) := by
  constructor
  · intro h
    have hsections : ∀ i < rrcDolSectionCount, dolSectionSize chainedPatches 0x80901000 i = 0 := by
      decide +kernel
    have hbss : dolBssSize chainedPatches 0x80901000 = 0 := by decide +kernel
    have hnone : ∀ a, ¬ InBss chainedPatches 0x80901000 a := fun a hin => by
      rw [InBss, hbss] at hin
      exact Nat.not_lt_zero _ hin
    have himage := h chainedPatches 0x80901000 0x81700000 2
      (Separated.of_empty hsections (fun a ha => absurd ha (hnone a))
        fun a ha => absurd ha (hnone a)) (Or.inl hbss)
    rw [patchDol_of_empty (by rw [hbss]; decide +kernel) hsections] at himage
    exact absurd (congrFun himage 0x80004003) (by decide +kernel)
  · intro h
    have hsections : ∀ i < rrcDolSectionCount, dolSectionSize highBss 0x80901000 i = 0 := by
      decide +kernel
    have hbss : dolBssAddr highBss 0x80901000 = 0xfffffff0 ∧ dolBssSize highBss 0x80901000 = 16 := by
      decide +kernel
    have himage := h highBss 0x80901000 0 0
      (Separated.of_empty hsections (fun a ha => by
        rw [InBss, hbss.1, hbss.2] at ha
        exact Memory.not_inRange_of_le ha (Or.inr (by decide))) fun a _ => Nat.not_lt_zero _)
      fun j hj => absurd hj (Nat.not_lt_zero j)
    rw [patchDol_of_empty (by decide +kernel) hsections] at himage
    exact absurd (congrFun himage 0xfffffff0) (by decide +kernel)

end RrLauncher
