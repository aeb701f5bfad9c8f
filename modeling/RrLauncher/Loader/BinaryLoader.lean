/-
# Loading `Loader.pul`

`rrc_binary_load_pulsar_loader` reads the file over the staged bytes of the section that
the address belongs to, up to the end of the file.  The end of the section is known to
`rrc_binary_find_section_by_addr` only, so a file that is longer than what is left of the
section goes on behind it (`pulsar_loader_overrun`).  With all others only staged bytes of
that section change (`pulsar_loader_inside_iff`).
-/

import RrLauncher.Lib.ByteReader
import RrLauncher.Loader.Walk
import RrLauncher.Shared.Dol

namespace RrLauncher

open ByteReader (be32)
open Memory (InRange)

/-- `rrc_binary_find_section_by_addr`: the address of `addr` in the staged section, and the
index of the section. -/
def rrcBinaryFindSectionByAddr (mem : Memory) (dol addr : UInt32) : Option (UInt32 × ℕ) :=
  (List.range rrcDolSectionCount).findSome? fun i =>
    if dolSectionAddr mem dol i ≤ addr ∧
        addr < dolSectionAddr mem dol i + dolSectionSize mem dol i then
      let sectionAddrOffset := addr - dolSectionAddr mem dol i
      some (dol + dolSection mem dol i + sectionAddrOffset, i)
    else none

/-- The loop over `fread`, which gets 4096 bytes at most, over what it gets in all. -/
def readLoop (mem : Memory) (virtLoaderAddr : UInt32) (file : List UInt8) : Memory :=
  let read := file.take 4096
  if read = [] then mem
  else readLoop (mem.write virtLoaderAddr read) (virtLoaderAddr + UInt32.ofNat read.length)
    (file.drop 4096)
termination_by file.length
decreasing_by
  rename_i h
  have hne : file ≠ [] := fun hnil => h (show file.take 4096 = [] by rw [hnil]; rfl)
  have hpos := List.length_pos_iff.mpr hne
  rw [List.length_drop]
  omega

/-- `rrc_binary_load_pulsar_loader`: the memory, and what is returned; `fopen` gives what can be
read of the file. -/
def rrcBinaryLoadPulsarLoader (fopen : Except ℕ (List UInt8)) (mem : Memory)
    (dol realLoaderAddr : UInt32) : Memory × Except (Stdio.Stop RrcResultError) Unit :=
  match rrcBinaryFindSectionByAddr mem dol realLoaderAddr with
  | none => (mem, .error .halt) -- "Pulsar loader address %x is not part of any game section"
  | some (virtLoaderAddr, _) =>
    match fopen with
    | .error errno =>
      (mem, .error (.error (rrcResultCreateErrorErrno errno
        "Failed to open /RetroRewind6/Binaries/Loader.pul")))
    | .ok file => (readLoop mem virtLoaderAddr file, .ok ())

/-! ### What the loop writes -/

/-- **Nothing outside the range of the file** is written: the loop stores as many bytes as the file
has, from the given address on. -/
theorem readLoop_of_notInRange (mem : Memory) {virt a : UInt32} {file : List UInt8}
    (h : ¬ InRange virt file.length a) : readLoop mem virt file a = mem a := by
  induction mem, virt, file using readLoop.induct with
  | case1 mem virt file read hread =>
    rw [readLoop, if_pos hread]
  | case2 mem virt file read hread ih =>
    have hlen : read.length ≤ file.length := List.length_take_le' 4096 file
    have hout : ¬ InRange virt read.length a := fun hin => h (Nat.lt_of_lt_of_le hin hlen)
    have hrest : ¬ InRange (virt + UInt32.ofNat read.length) (file.drop 4096).length a := by
      rw [InRange, Nat.not_lt] at h hout ⊢
      rw [Memory.toNat_sub_add hout, List.length_drop]
      have htake : read.length = min 4096 file.length := List.length_take
      omega
    rw [readLoop, if_neg hread, ih hrest]
    exact Memory.write_of_notInRange mem hout

/-- **Everything in it**, as a file of one byte shows. -/
theorem readLoop_of_inRange (mem : Memory) {virt a : UInt32} {file : List UInt8} {c : UInt8}
    (hfile : ∀ b ∈ file, b = c) (h : InRange virt file.length a) : readLoop mem virt file a = c := by
  induction mem, virt, file using readLoop.induct with
  | case1 mem virt file read hread =>
    have hnil : file = [] := by simpa [read] using hread
    rw [hnil] at h
    exact absurd h (Nat.not_lt_zero _)
  | case2 mem virt file read hread ih =>
    have htake : read.length = min 4096 file.length := List.length_take
    rw [readLoop, if_neg hread]
    by_cases hrest : InRange (virt + UInt32.ofNat read.length) (file.drop 4096).length a
    · exact ih (fun b hb => hfile b (List.mem_of_mem_drop hb)) hrest
    · -- what is not written later is written now
      rw [readLoop_of_notInRange _ hrest]
      have hin : InRange virt read.length a := by
        by_contra hout
        rw [InRange, Nat.not_lt] at hrest hout
        rw [Memory.toNat_sub_add hout, List.length_drop] at hrest
        rw [InRange] at h
        omega
      rw [Memory.write, List.getElem?_eq_getElem hin, Option.getD_some]
      exact hfile _ (List.mem_of_mem_take (List.getElem_mem hin))

/-! ### The section -/

/-- Only staged bytes of section `i` change. -/
structure StaysInSection (mem mem' : Memory) (dol : UInt32) (i : ℕ) : Prop where
  inside : ∀ a, mem' a ≠ mem a → Staged mem dol i a
  others : ∀ j < rrcDolSectionCount, j ≠ i → ∀ a, Staged mem dol j a → mem' a = mem a
  header : ∀ a, InHeader dol a → mem' a = mem a

/-- A load that succeeds stays in the section of the address, and one that fails changes
nothing. -/
def LoadsInSection (fopen : Except ℕ (List UInt8)) (mem : Memory) (dol addr : UInt32) : Prop :=
  let loaded := rrcBinaryLoadPulsarLoader fopen mem dol addr
  (loaded.2 = .ok () → ∃ virt i, rrcBinaryFindSectionByAddr mem dol addr = some (virt, i) ∧
    StaysInSection mem loaded.1 dol i) ∧
  (loaded.2 ≠ .ok () → loaded.1 = mem)

/-- A file of this length ends before the section does, and none of it comes over other staged
bytes or the header. -/
structure FitsInSection (mem : Memory) (dol addr virt : UInt32) (i n : ℕ) : Prop where
  length : (addr - dolSectionAddr mem dol i).toNat + n ≤ (dolSectionSize mem dol i).toNat
  others : ∀ j < rrcDolSectionCount, j ≠ i → ∀ a, InRange virt n a → ¬ Staged mem dol j a
  header : ∀ a, InRange virt n a → ¬ InHeader dol a

/-- A section that is found for an address has that address in it, and what is handed out is the
same offset in its staged bytes. -/
theorem find_some {mem : Memory} {dol addr virt : UInt32} {i : ℕ}
    (h : rrcBinaryFindSectionByAddr mem dol addr = some (virt, i)) :
    (addr - dolSectionAddr mem dol i).toNat < (dolSectionSize mem dol i).toNat ∧
      virt = dol + dolSection mem dol i + (addr - dolSectionAddr mem dol i) := by
  obtain ⟨j, -, hj⟩ := List.exists_of_findSome?_eq_some h
  split at hj
  · rename_i hin
    obtain ⟨hlo, hhi⟩ := hin
    cases hj
    refine ⟨?_, rfl⟩
    have hsum := UInt32.lt_iff_toNat_lt.mp hhi
    have hle := UInt32.le_iff_toNat_le.mp hlo
    have haddr := addr.toNat_lt
    rw [UInt32.toNat_add] at hsum
    rw [UInt32.toNat_sub_of_le _ _ hlo]
    -- a sum that wraps around is below the address
    have hsize := (dolSectionSize mem dol i).toNat_lt
    omega
  · cases hj

/-- Some file changes what is at an address that is written. -/
theorem exists_changes (mem : Memory) {virt a : UInt32} {n : ℕ} (h : InRange virt n a) :
    ∃ file : List UInt8, file.length = n ∧ readLoop mem virt file a ≠ mem a := by
  refine ⟨List.replicate n (mem a + 1), List.length_replicate, ?_⟩
  rw [readLoop_of_inRange mem (fun b hb => List.eq_of_mem_replicate hb)
    (List.length_replicate.symm ▸ h)]
  intro heq
  have hone : (1 : UInt8) = 0 := by
    rw [← UInt8.add_sub_cancel 1 (mem a), UInt8.add_comm, heq, UInt8.sub_self]
  cases hone

/-- **A file of some length stays in the section**, whatever its bytes are, exactly if it fits. -/
theorem staysInSection_iff {mem : Memory} {dol addr virt : UInt32} {i : ℕ}
    (h : rrcBinaryFindSectionByAddr mem dol addr = some (virt, i)) (n : ℕ) :
    (∀ file : List UInt8, file.length = n → StaysInSection mem (readLoop mem virt file) dol i) ↔
      FitsInSection mem dol addr virt i n := by
  obtain ⟨hoff, hvirt⟩ := find_some h
  constructor
  · intro hstays
    refine ⟨?_, fun j hj hne a ha hstaged => ?_, fun a ha hheader => ?_⟩
    · -- the first byte behind the section would change
      by_contra hlong
      let left := (dolSectionSize mem dol i).toNat - (addr - dolSectionAddr mem dol i).toNat
      have hin : InRange virt n (virt + UInt32.ofNat left) := by
        rw [InRange, Memory.toNat_offset]
        · omega
        · have hsize := (dolSectionSize mem dol i).toNat_lt
          omega
      obtain ⟨file, hlen, hchanges⟩ := exists_changes mem hin
      have hstaged := (hstays file hlen).inside _ hchanges
      rw [hvirt, Staged, InRange, UInt32.add_assoc, UInt32.add_comm (_ + _), UInt32.add_sub_cancel,
        Memory.toNat_behind] at hstaged
      · omega
      · have hsize := (dolSectionSize mem dol i).toNat_lt
        omega
    · obtain ⟨file, hlen, hchanges⟩ := exists_changes mem ha
      exact hchanges ((hstays file hlen).others j hj hne a hstaged)
    · obtain ⟨file, hlen, hchanges⟩ := exists_changes mem ha
      exact hchanges ((hstays file hlen).header a hheader)
  · rintro hfits file rfl
    have hrange : ∀ a, readLoop mem virt file a ≠ mem a → InRange virt file.length a := fun a ha => by
      by_contra hout
      exact ha (readLoop_of_notInRange mem hout)
    refine ⟨fun a ha => ?_, fun j hj hne a hstaged => ?_, fun a hheader => ?_⟩
    · have hin := hrange a ha
      rw [hvirt, ← UInt32.ofNat_toNat (x := addr - dolSectionAddr mem dol i)] at hin
      exact hin.of_offset hfits.length
    · by_contra ha
      exact hfits.others j hj hne a (hrange a ha) hstaged
    · by_contra ha
      exact hfits.header a (hrange a ha) hheader

/-- **`Loader.pul` stays inside its section** exactly if it ends before the section does, and the
section has these staged bytes for itself. -/
theorem pulsar_loader_inside_iff (mem : Memory) (dol addr : UInt32) (n : ℕ) :
    (∀ fopen : Except ℕ (List UInt8), (∀ file, fopen = .ok file → file.length = n) →
      LoadsInSection fopen mem dol addr) ↔
    ∀ virt i, rrcBinaryFindSectionByAddr mem dol addr = some (virt, i) →
      FitsInSection mem dol addr virt i n := by
  constructor
  · intro h virt i hfind
    refine (staysInSection_iff hfind n).mp fun file hlen => ?_
    have hload : rrcBinaryLoadPulsarLoader (.ok file) mem dol addr =
        (readLoop mem virt file, .ok ()) := by
      rw [rrcBinaryLoadPulsarLoader, hfind]
    obtain ⟨hok, -⟩ := h (.ok file) (fun file' heq => Except.ok.inj heq ▸ hlen)
    rw [hload] at hok
    obtain ⟨virt', i', hfind', hstays⟩ := hok rfl
    rw [hfind] at hfind'
    cases hfind'
    exact hstays
  · intro h fopen hlen
    rw [LoadsInSection, rrcBinaryLoadPulsarLoader]
    cases hfind : rrcBinaryFindSectionByAddr mem dol addr with
    | none => exact ⟨(fun hok => by cases hok), fun _ => rfl⟩
    | some found =>
      cases fopen with
      | error errno => exact ⟨(fun hok => by cases hok), fun _ => rfl⟩
      | ok file =>
        have hfits := h found.1 found.2 hfind
        exact ⟨fun _ => ⟨found.1, found.2, rfl,
          (staysInSection_iff hfind n).mpr hfits file (hlen file rfl)⟩, fun hne => absurd rfl hne⟩

/-- The header of a game with two sections of 16 bytes, staged one after the other. -/
def twoSections : Memory :=
  let section_ := be32 0x100 ++ (be32 0x110 ++ List.replicate 64 0)
  let sectionAddr := be32 0x80004000 ++ (be32 0x80005000 ++ List.replicate 64 0)
  let sectionSize := be32 16 ++ (be32 16 ++ List.replicate 64 0)
  Memory.write (fun _ => 0) 0x80901000 (section_ ++ sectionAddr ++ sectionSize)

/-- A file of 17 bytes changes the first byte of the next section. -/
theorem pulsar_loader_overrun :
    ¬ ∀ (mem : Memory) (dol addr : UInt32) (fopen : Except ℕ (List UInt8)),
      LoadsInSection fopen mem dol addr := by
  intro h
  have hfind : rrcBinaryFindSectionByAddr twoSections 0x80901000 0x80004000 =
      some (0x80901100, 0) := by decide +kernel
  have hfits := (staysInSection_iff hfind 17).mp fun file _ => by
    obtain ⟨hok, -⟩ := h twoSections 0x80901000 0x80004000 (.ok file)
    rw [rrcBinaryLoadPulsarLoader, hfind] at hok
    obtain ⟨virt, i, hfind', hstays⟩ := hok rfl
    cases hfind'
    exact hstays
  exact absurd hfits.length (by decide +kernel)

end RrLauncher
