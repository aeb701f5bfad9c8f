/-
# Hashes and replacement records shared by the loader and the runtime

`shared/hash.c` and `shared/riivo.h`: the two string hashes, the SD-file entries
and the file replacements.  The loader fills the tables and publishes them in a
`struct rrc_riivo_disc`; the runtime, a separate program, reads them through the
same declarations.

Both hashes are the multiplicative string hash with multiplier `31` on wrapping
`u32`s.  The loader hashes a disc path as it is, the runtime hashes the game's
path lowered on the fly, and the two agree on a lowered path
(`rrcHashStringLowercase_eq`).
-/

import RrLauncher.Lib.CStr

namespace RrLauncher

/-- `_RTE_HASH_STRING_MULTIPLIER`. -/
def rteHashStringMultiplier : UInt32 := 31

/-- `rrc_hash_string`. -/
def rrcHashString (str : CStr) : UInt32 :=
  str.bytes.foldl (fun hash c => hash * rteHashStringMultiplier + c.toUInt32) 0

/-- `rrc_hash_string_lowercase`. -/
def rrcHashStringLowercase (str : CStr) : UInt32 :=
  str.bytes.foldl (fun hash c => hash * rteHashStringMultiplier + (CStr.tolower c).toUInt32) 0

/-- **The two hashes agree on lowered strings**: that of the runtime, which lowers while it goes,
and that of the loader, which is given lowered paths. -/
theorem rrcHashStringLowercase_eq (str : CStr) :
    rrcHashStringLowercase str = rrcHashString str.lower := by
  rw [rrcHashString, CStr.lower_bytes, List.foldl_map, rrcHashStringLowercase]

/-- `MAX_CONCURRENT_FILES`: the slots of the runtime's table of open files. -/
abbrev maxConcurrentFiles : ℕ := 16

/-- A pointer to a slot of `open_files`. -/
abbrev OpenFilePtr := Fin maxConcurrentFiles

/-- `struct rrc_riivo_sd_file`; `fileInfo` is `none` for the null pointer. -/
structure RrcRiivoSdFile where
  path : CStr
  fileInfo : Option OpenFilePtr
  deriving DecidableEq

/-- `struct rrc_riivo_file_replacement`. -/
structure RrcRiivoFileReplacement where
  disc : CStr
  hash : UInt32
  entrynum : ℕ
  deriving DecidableEq

/-- `'/'`. -/
def slash : UInt8 := 47

/-- The path without one leading `/`: registered and looked-up paths are stored
and compared in this form. -/
def skipSlash (path : CStr) : CStr := if path.first = slash then path.advance else path

/-- No other byte becomes a slash when it is lowered, and a slash stays one. -/
theorem tolower_eq_slash {c : UInt8} : CStr.tolower c = slash ↔ c = slash :=
  CStr.tolower_eq_iff (Or.inl (by decide))

/-- Lowering keeps the leading slash, so whether a path or a name is meant does not depend on case.
-/
theorem lower_first_eq_slash (path : CStr) : path.lower.first = slash ↔ path.first = slash := by
  rw [CStr.first, CStr.first, CStr.lower_bytes]
  cases path.bytes with
  | nil => rfl
  | cons c s => exact tolower_eq_slash

/-- Trimming the slash and lowering commute, so loader and runtime may do them in different order.
-/
theorem lower_skipSlash (path : CStr) : (skipSlash path).lower = skipSlash path.lower := by
  by_cases h : path.first = slash
  · rw [skipSlash, if_pos h, skipSlash, if_pos ((lower_first_eq_slash path).mpr h),
      CStr.lower_advance]
  · rw [skipSlash, if_neg h, skipSlash, if_neg (mt (lower_first_eq_slash path).mp h)]

end RrLauncher
