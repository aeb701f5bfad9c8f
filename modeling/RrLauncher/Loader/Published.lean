/-
# What the runtime is given

At its end `rrc_riivo_patch_loader_parse` copies its vectors to arrays in MEM1 and stores where
they are, and how long two of them are, in the `struct rrc_riivo_disc` of the runtime.  The
runtime extension is another program, so what it gets are these bytes.

The arrays are there as long as nobody writes to the part of MEM1 that was handed out or to the
struct (`HoldsArrays.congr`).
-/

import RrLauncher.Lib.Memory.Records
import RrLauncher.Loader.Parse

namespace RrLauncher

open ByteReader (be32)
open Memory (InRange)

/-- `RRC_RIIVO_DISC_PTR`. -/
def rrcRiivoDiscPtr : UInt32 := 0x81782fa0

/-- `sizeof(struct rrc_riivo_disc)`. -/
def sizeofRrcRiivoDisc : ℕ := 20

namespace Mem1

/-- The assignments to the fields of `*riivo_disc`. -/
def storeDisc (mem : Memory) (disc : RrcRiivoDisc) : Memory :=
  let mem := mem.write rrcRiivoDiscPtr (be32 disc.sdFiles)
  let mem := mem.write (rrcRiivoDiscPtr + 16) (be32 disc.replacements)
  let mem := mem.write (rrcRiivoDiscPtr + 12) (be32 (UInt32.ofNat disc.replacementsCount))
  let mem := mem.write (rrcRiivoDiscPtr + 8) (be32 disc.filenameReplacements)
  mem.write (rrcRiivoDiscPtr + 4) (be32 (UInt32.ofNat disc.filenameReplacementsCount))

/-- The words of the struct. -/
def RrcRiivoDisc.words (disc : RrcRiivoDisc) : List UInt32 :=
  [disc.sdFiles, UInt32.ofNat disc.filenameReplacementsCount, disc.filenameReplacements,
    UInt32.ofNat disc.replacementsCount, disc.replacements]

/-! ### The struct -/

/-- A field of the struct lies in it, so nothing that leaves the struct alone changes the field. -/
theorem inRange_field {k : ℕ} (hk : k < 5) {a : UInt32}
    (ha : InRange (rrcRiivoDiscPtr + UInt32.ofNat (4 * k)) 4 a) :
    InRange rrcRiivoDiscPtr sizeofRrcRiivoDisc a :=
  ha.of_offset (show 4 * k + 4 ≤ 20 by omega)

/-- **Only the struct is written** when the tables are published. The arrays it points to were
written before. -/
theorem storeDisc_of_outside (mem : Memory) (disc : RrcRiivoDisc) {a : UInt32}
    (ha : ¬ InRange rrcRiivoDiscPtr sizeofRrcRiivoDisc a) : storeDisc mem disc a = mem a := by
  have hout : ∀ k < 5, ¬ InRange (rrcRiivoDiscPtr + UInt32.ofNat (4 * k)) 4 a := fun k hk hin =>
    ha (inRange_field hk hin)
  rw [storeDisc, Memory.write_of_notInRange _ (hout 1 (by decide)),
    Memory.write_of_notInRange _ (hout 2 (by decide)),
    Memory.write_of_notInRange _ (hout 3 (by decide)),
    Memory.write_of_notInRange _ (hout 4 (by decide)), Memory.write_of_notInRange _ (hout 0 (by decide))]

/-- A word that is written is there: most significant byte first on both sides. -/
theorem word_write (mem : Memory) (p w : UInt32) : (mem.write p (be32 w)).word p = w :=
  Memory.word_of_holds (Memory.holds_write mem p (show (be32 w).length ≤ 2 ^ 32 from by
    rw [ByteAt.length_be32]
    decide))

/-- Another word stays, whatever is written, if neither of the two places wraps around and they have
no byte in common. -/
theorem word_write_apart (mem : Memory) {p q : UInt32} {bytes : List UInt8} (n : ℕ)
    (hlen : bytes.length = n) (h : p.toNat + 4 ≤ q.toNat ∧ q.toNat + n ≤ 2 ^ 32 ∨
      q.toNat + n ≤ p.toNat ∧ p.toNat + 4 ≤ 2 ^ 32) : (mem.write q bytes).word p = mem.word p := by
  rw [← hlen] at h
  exact Memory.word_congr fun _ ha =>
    Memory.write_of_notInRange mem (Memory.not_inRange_of_le ha h)

/-- Writing a word leaves a word that lies apart from it. -/
theorem word_write_of_apart (mem : Memory) {p q : UInt32} (w : UInt32)
    (h : p.toNat + 4 ≤ q.toNat ∧ q.toNat + 4 ≤ 2 ^ 32 ∨ q.toNat + 4 ≤ p.toNat ∧ p.toNat + 4 ≤ 2 ^ 32) :
    (mem.write q (be32 w)).word p = mem.word p := word_write_apart mem 4 rfl h

/-- **The struct holds** what was stored: the three pointers and the two counts, in the order of its
declaration. -/
theorem storeDisc_words (mem : Memory) (disc : RrcRiivoDisc) :
    (storeDisc mem disc).WordsAt rrcRiivoDiscPtr disc.words := by
  intro k hk
  have hk' : k < 5 := hk
  unfold storeDisc
  match k, hk' with
  | 0, _ =>
    rw [word_write_of_apart, word_write_of_apart, word_write_of_apart, word_write_of_apart]
    · exact word_write _ _ _
    all_goals decide
  | 1, _ => exact word_write _ _ _
  | 2, _ =>
    rw [word_write_of_apart]
    · exact word_write _ _ _
    · decide
  | 3, _ =>
    rw [word_write_of_apart, word_write_of_apart]
    · exact word_write _ _ _
    all_goals decide
  | 4, _ =>
    rw [word_write_of_apart, word_write_of_apart, word_write_of_apart]
    · exact word_write _ _ _
    all_goals decide

/-! ### The arrays -/

section Arrays

variable {arena : Memory.Arena} {sizeof : ℕ} {elements : List (List UInt8)}

/-- **An array that is handed out** holds its elements, between the pointer behind it and that
before it. -/
theorem holdsIn_allocArray (hsizeof : ∀ e ∈ elements, e.length = sizeof)
    (hfits : (allocArray arena sizeof elements).1.Fits) :
    (allocArray arena sizeof elements).1.mem.HoldsIn (allocArray arena sizeof elements).1.top.toNat
      arena.top.toNat (allocArray arena sizeof elements).2 elements.flatten := by
  have htop := arena.top.toNat_lt
  have hroom : sizeof * elements.length ≤ arena.top.toNat :=
    hfits _ (List.mem_append_right _ (List.mem_singleton_self _))
  have hlen := length_flatten hsizeof
  have hdest : (allocArray arena sizeof elements).2.toNat =
      (arena.top.toNat - sizeof * elements.length) / 2 ^ 2 * 2 ^ 2 := by
    rw [allocArray, toNat_alignDown _ (by decide), Memory.toNat_below hroom]
  exact ⟨Nat.le_refl _, by omega, Memory.holds_write _ _ (by omega)⟩

/-- What stands above the pointer is still there behind an array. -/
theorem HoldsIn.allocArray (hsizeof : ∀ e ∈ elements, e.length = sizeof)
    (hfits : (allocArray arena sizeof elements).1.Fits) {hi : ℕ} {p : UInt32} {bytes : List UInt8}
    (h : arena.mem.HoldsIn arena.top.toNat hi p bytes) (hhi : hi ≤ 2 ^ 32) :
    (Mem1.allocArray arena sizeof elements).1.mem.HoldsIn
      (Mem1.allocArray arena sizeof elements).1.top.toNat hi p bytes := by
  have hnew := holdsIn_allocArray hsizeof hfits
  have hle := hnew.le_hi
  have htop := arena.top.toNat_lt
  refine (h.congr hhi fun a ha _ => ?_).mono (hnew.lo_le.trans (by omega)) (Nat.le_refl hi)
  exact Memory.write_of_outside _ (show (Mem1.allocArray arena sizeof elements).2.toNat + _ ≤ 2 ^ 32 by
    omega) (Or.inr (show (Mem1.allocArray arena sizeof elements).2.toNat + _ ≤ _ by omega))

end Arrays

/-- The three arrays of the struct are in memory, between two addresses. -/
structure HoldsArrays (mem : Memory) (lo hi : ℕ) (disc : RrcRiivoDisc) (sdFiles : List SdFile)
    (replacements filenameReplacements : List FileReplacement) : Prop where
  sdFiles : mem.HoldsIn lo hi disc.sdFiles (sdFiles.map SdFile.bytes).flatten
  replacements :
    mem.HoldsIn lo hi disc.replacements (replacements.map FileReplacement.bytes).flatten
  filenameReplacements : mem.HoldsIn lo hi disc.filenameReplacements
    (filenameReplacements.map FileReplacement.bytes).flatten

/-- The arrays that were published are held by every memory with the same bytes in their area. -/
theorem HoldsArrays.congr {mem mem' : Memory} {lo hi hi' : ℕ} {disc : RrcRiivoDisc}
    {sdFiles : List SdFile} {replacements filenameReplacements : List FileReplacement}
    (h : HoldsArrays mem lo hi disc sdFiles replacements filenameReplacements) (hle : hi ≤ hi')
    (hhi' : hi' ≤ 2 ^ 32) (hsame : ∀ a : UInt32, lo ≤ a.toNat → a.toNat < hi' → mem' a = mem a) :
    HoldsArrays mem' lo hi' disc sdFiles replacements filenameReplacements :=
  ⟨(h.sdFiles.mono (Nat.le_refl lo) hle).congr hhi' hsame,
    (h.replacements.mono (Nat.le_refl lo) hle).congr hhi' hsame,
    (h.filenameReplacements.mono (Nat.le_refl lo) hle).congr hhi' hsame⟩

/-- **What is published is in memory**, between the last value of the pointer and the one before
the arrays. -/
theorem holdsArrays_publish {qsort : List FileReplacement → List FileReplacement}
    {s s' : LoaderState} {disc : RrcRiivoDisc} (h : publish qsort s = some (s', disc))
    (hfits : s'.arena.Fits) :
    HoldsArrays s'.arena.mem s'.arena.top.toNat s.arena.top.toNat disc s.sdFiles
      (qsort s.replacements) (qsort s.filenameReplacements) := by
  obtain ⟨sd, rep, fil, rfl, rfl, rfl, rfl, rfl⟩ := publish_some h
  have hrepFits := hfits.of_prefix (List.prefix_append _ _)
  have hsdFits := hrepFits.of_prefix (List.prefix_append _ _)
  have hsdLen : ∀ e ∈ s.sdFiles.map SdFile.bytes, e.length = sizeofSdFile :=
    List.forall_mem_map.mpr fun f _ => length_sdFile_bytes f
  have hlen : ∀ l : List FileReplacement, ∀ e ∈ l.map FileReplacement.bytes,
      e.length = sizeofFileReplacement := fun l =>
    List.forall_mem_map.mpr fun r _ => length_fileReplacement_bytes r
  have hsd := holdsIn_allocArray hsdLen hsdFits
  have hrep := holdsIn_allocArray (hlen _) hrepFits
  have hfil := holdsIn_allocArray (hlen _) hfits
  -- each array is below the one before
  have hsdTop := hsd.lo_le.trans ((Nat.le_add_right _ _).trans hsd.le_hi)
  have hrepTop := hrep.lo_le.trans ((Nat.le_add_right _ _).trans hrep.le_hi)
  have hlt := s.arena.top.toNat_lt.le
  refine ⟨?_, ?_, hfil.mono (Nat.le_refl _) (hrepTop.trans hsdTop)⟩
  · exact HoldsIn.allocArray (hlen _) hfits (HoldsIn.allocArray (hlen _) hrepFits hsd hlt) hlt
  · exact (HoldsIn.allocArray (hlen _) hfits hrep (UInt32.toNat_lt _).le).mono (Nat.le_refl _) hsdTop

end Mem1

end RrLauncher
