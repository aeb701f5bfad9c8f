/-
# Loading the runtime extension

`rrc_binary_load_runtime_ext` reads a DOL file straight to where it is linked, in the part of
MEM1 between `RRC_RUNTIME_EXT_DOL_SAFE_START` and `RRC_RUNTIME_EXT_DOL_SAFE_END`: its BSS is
zeroed, and its sections are read, those with an address.  As each of them is checked
(`Loader.Guards`), nothing else is written, unless an end wraps around (`eqOn_runtimeExt`).
-/

import RrLauncher.Lib.Memory.Frames
import RrLauncher.Loader.GameDolLoader
import RrLauncher.Loader.Guards

namespace RrLauncher

open ByteReader (be32)
open Memory (InRange)

/-- An open DOL file: its bytes, whether `fseek` goes to an offset, and `errno` after a call that
fails. -/
structure DolFile where
  bytes : List UInt8
  seeks : UInt32 → Bool
  errno : ℕ

/-- `fread` of one item of some size, at an offset.  An item of no bytes is not read. -/
def DolFile.read (file : DolFile) (offset size : UInt32) : Option (List UInt8) :=
  let bytes := (file.bytes.drop offset.toNat).take size.toNat
  if size ≠ 0 ∧ bytes.length = size.toNat then some bytes else none

/-- `get_runtime_ext_path`. -/
def getRuntimeExtPath (region : Char) : String :=
  "/RetroRewindChannel/runtime-ext-" ++ region.toString ++ ".dol"

/-- `rrc_result_create_error_errno` with a text that `snprintf` puts into 64 bytes. -/
def runtimeExtError (errno : ℕ) (err : String) : Stdio.Stop RrcResultError :=
  .error (rrcResultCreateErrorErrno errno (String.ofList (err.toList.take 63)))

/-- The body of the loop over the sections of the header `patch_dol`, which is at address 0 of a
memory of its own. -/
def loadSection (file : DolFile) (path : String) (patchDol mem : Memory) (i : ℕ) :
    Except (Stdio.Stop RrcResultError) Memory :=
  let sec := dolSection patchDol 0 i
  let secAddr := dolSectionAddr patchDol 0 i
  let secSize := dolSectionSize patchDol 0 i
  if secAddr = 0 then .ok mem
  else if ¬ ensureSectionInbounds ⟨secAddr, secSize⟩ then .error .halt
  else if ¬ file.seeks sec then
    .error (runtimeExtError file.errno
      ("Failed to seek to section " ++ (intOfU32 sec).repr ++ " in " ++ path))
  else
    match file.read sec secSize with
    | none =>
      .error (runtimeExtError file.errno
        ("Failed to read section " ++ (intOfU32 sec).repr ++ " in " ++ path))
    | some bytes => .ok (mem.write secAddr bytes)

/-- `rrc_binary_load_runtime_ext`: the memory, where it returns. -/
def rrcBinaryLoadRuntimeExt (fopen : Except ℕ DolFile) (region : Char) (mem : Memory) :
    Except (Stdio.Stop RrcResultError) Memory :=
  let path := getRuntimeExtPath region
  match fopen with
  | .error errno => .error (runtimeExtError errno ("Failed to open " ++ path))
  | .ok file =>
    match file.read 0 (UInt32.ofNat sizeofRrcDol) with
    | none => .error (runtimeExtError file.errno ("Failed to read " ++ path))
    | some header =>
      let patchDol := Memory.write (fun _ => 0) 0 header
      let bssAddr := dolBssAddr patchDol 0
      let bssSize := dolBssSize patchDol 0
      if ¬ ensureSectionInbounds ⟨bssAddr, bssSize⟩ then .error .halt
      else
        let mem := mem.write bssAddr (List.replicate bssSize.toNat 0)
        (List.range rrcDolSectionCount).foldlM (loadSection file path patchDol) mem

/-! ### The reserved part -/

/-- The part of MEM1 that is kept for the runtime extension. -/
def reserved : Set UInt32 :=
  {a | rrcRuntimeExtDolSafeStart.toNat ≤ a.toNat ∧ a.toNat < rrcRuntimeExtDolSafeEnd.toNat}

/-- The ends of the BSS and of the sections that are loaded are addresses. -/
structure EndsInMemory (patchDol : Memory) : Prop where
  bss : (dolBssAddr patchDol 0).toNat + (dolBssSize patchDol 0).toNat < 2 ^ 32
  sections : ∀ i < rrcDolSectionCount, dolSectionAddr patchDol 0 i ≠ 0 →
    (dolSectionAddr patchDol 0 i).toNat + (dolSectionSize patchDol 0 i).toNat < 2 ^ 32

/-- A read that succeeds gives as many bytes as were asked for. -/
theorem DolFile.length_read {file : DolFile} {offset size : UInt32} {bytes : List UInt8}
    (h : file.read offset size = some bytes) : bytes.length = size.toNat := by
  unfold DolFile.read at h
  dsimp only at h
  split at h
  · rename_i hread
    rw [← Option.some.inj h]
    exact hread.2
  · cases h

/-- **What is in bounds** is written inside the reserved part. -/
theorem eqOn_write_reserved (mem : Memory) {addr size : UInt32} {bytes : List UInt8}
    (hcheck : ensureSectionInbounds ⟨addr, size⟩ = true)
    (hends : addr.toNat + size.toNat < 2 ^ 32) (hlen : bytes.length = size.toNat) :
    Set.EqOn (mem.write addr bytes) mem reservedᶜ := by
  obtain ⟨hlo, hhi⟩ := (ensureSectionInbounds_iff ⟨addr, size⟩).mpr (Or.inl hends) hcheck
  unfold Region.endAddr at hhi
  refine Memory.eqOn_write mem fun a ha hin => ha ?_
  rw [hlen] at hin
  have hbounds := Memory.bounds_of_inRange hin hends.le
  exact ⟨hlo.trans hbounds.1, hbounds.2.trans_le hhi⟩

section Load

variable {file : DolFile} {path : String} {patchDol mem ext : Memory}

/-- **A section** is read to memory that is reserved for the runtime, as the guard in front of it
sees to. -/
theorem eqOn_loadSection {i : ℕ} (h : loadSection file path patchDol mem i = .ok ext)
    (hends : dolSectionAddr patchDol 0 i ≠ 0 →
      (dolSectionAddr patchDol 0 i).toNat + (dolSectionSize patchDol 0 i).toNat < 2 ^ 32) :
    Set.EqOn ext mem reservedᶜ := by
  unfold loadSection at h
  dsimp only at h
  split at h
  · rw [← Except.ok.inj h]
    exact Set.eqOn_refl mem _
  rename_i hne
  split at h
  · cases h
  rename_i hcheck
  split at h
  · cases h
  split at h
  · cases h
  rename_i bytes hread
  rw [← Except.ok.inj h]
  exact eqOn_write_reserved mem (not_not.mp hcheck) (hends hne) (DolFile.length_read hread)

/-- Loading sections writes only to memory that is reserved for the runtime, if none of them goes
over the highest address. The guards of the loader are what the induction uses. -/
theorem eqOn_loadSections {l : List ℕ}
    (h : l.foldlM (loadSection file path patchDol) mem = .ok ext)
    (hends : ∀ i ∈ l, dolSectionAddr patchDol 0 i ≠ 0 →
      (dolSectionAddr patchDol 0 i).toNat + (dolSectionSize patchDol 0 i).toNat < 2 ^ 32) :
    Set.EqOn ext mem reservedᶜ := by
  induction l generalizing mem with
  | nil =>
    obtain rfl : mem = ext := Except.ok.inj h
    exact Set.eqOn_refl mem _
  | cons i l ih =>
    rw [List.forall_mem_cons] at hends
    rw [List.foldlM_cons] at h
    cases hfirst : loadSection file path patchDol mem i with
    | error stop =>
      rw [hfirst] at h
      cases h
    | ok first =>
      rw [hfirst] at h
      exact (ih h hends.2).trans (eqOn_loadSection hfirst hends.1)

/-- **The runtime extension stays in its part of MEM1**, if the ends of its BSS and of its
sections do not wrap around. -/
theorem eqOn_runtimeExt {fopen : Except ℕ DolFile} {region : Char}
    (h : rrcBinaryLoadRuntimeExt fopen region mem = .ok ext)
    (hends : ∀ file header, fopen = .ok file →
      file.read 0 (UInt32.ofNat sizeofRrcDol) = some header →
        EndsInMemory (Memory.write (fun _ => 0) 0 header)) :
    Set.EqOn ext mem reservedᶜ := by
  unfold rrcBinaryLoadRuntimeExt at h
  dsimp only at h
  split at h
  · cases h
  rename_i file
  split at h
  · cases h
  rename_i header hheader
  split at h
  · cases h
  rename_i hcheck
  have hin := hends file header rfl hheader
  refine (eqOn_loadSections h fun i hi => hin.sections i (List.mem_range.mp hi)).trans ?_
  exact eqOn_write_reserved mem (not_not.mp hcheck) hin.bss List.length_replicate

end Load

end RrLauncher
