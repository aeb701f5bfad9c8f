/-
# The settings file

`settingsfile.c`: a header of magic, version and number of entries, and the
entries, each a key with its length before it and a `u32` with its length before
it, all numbers as they lie in the memory of a big-endian machine.  The parser
starts from the defaults and overrides a setting each time its key occurs, also
where it fails later.

The writers are programs of `Stdio`.  `rrc_settingsfile_store` and
`rrc_settingsfile_create` take no notice of the result of
`rrc_settingsfile_write_header`, nor of that of `fclose`.
-/

import RrLauncher.Lib.ByteReader
import RrLauncher.Lib.CStr
import RrLauncher.Shared.Result

namespace RrLauncher

open Stdio ByteReader

/-- `RRC_SETTINGSFILE_PATH`, in a build that is not a beta. -/
def rrcSettingsfilePath : CStr := CStr.lit "/RetroRewind6/.settings"

/-- `RRC_SETTINGSFILE_MY_STUFF_KEY`. -/
def rrcSettingsfileMyStuffKey : CStr := CStr.lit "My Stuff"

/-- `RRC_SETTINGSFILE_SAVEGAME_KEY`. -/
def rrcSettingsfileSavegameKey : CStr := CStr.lit "Separate savegame"

/-- `RRC_SETTINGSFILE_AUTOUPDATE_KEY`. -/
def rrcSettingsfileAutoupdateKey : CStr := CStr.lit "Auto update"

/-- `RRC_SETTINGSFILE_MAGIC`. -/
def rrcSettingsfileMagic : UInt32 := 1920234103

/-- `RRC_SETTINGSFILE_VERSION`. -/
def rrcSettingsfileVersion : UInt32 := 0

/-- `struct rrc_settingsfile`. -/
structure RrcSettingsfile where
  myStuff : UInt32
  separateSavegame : UInt32
  autoUpdate : UInt32
  deriving DecidableEq

/-- `rrc_settingsfile_init_defaults`. -/
def rrcSettingsfileInitDefaults : RrcSettingsfile := ⟨0, 0, 1⟩

/-! ### Parsing -/

/-- `expect_read_u32`. -/
def expectReadU32 (what : String) : Reader RrcResultError UInt32 :=
  u32 (rrcResultCreateErrorCorruptedSettingsfile what)

/-- One turn of the loop of `rrc_settingsfile_parse`: a key, up to the first NUL
of its buffer, and its value. -/
def readEntry : Reader RrcResultError (CStr × UInt32) := do
  let keyLength ← expectReadU32 "Failed to read length of key"
  if keyLength ≥ 32 then
    throw (rrcResultCreateErrorCorruptedSettingsfile
      "Settings key cannot be longer than 32 characters")
  else do
    let key ← take keyLength.toNat
      (rrcResultCreateErrorCorruptedSettingsfile "Failed to fully read key")
    let valueLength ← expectReadU32 "Failed to read length of value"
    if valueLength ≠ 4 then
      throw (rrcResultCreateErrorCorruptedSettingsfile
        "Value length currently should always be 4 (u32)")
    else do
      let value ← expectReadU32 "Failed to fully read u32 value"
      return (CStr.ofBuffer key, value)

/-- The `strcmp`s of the loop. -/
def RrcSettingsfile.setKey (settings : RrcSettingsfile) (key : CStr) (value : UInt32) :
    RrcSettingsfile :=
  if key = rrcSettingsfileMyStuffKey then { settings with myStuff := value }
  else if key = rrcSettingsfileSavegameKey then { settings with separateSavegame := value }
  else if key = rrcSettingsfileAutoupdateKey then { settings with autoUpdate := value }
  else settings

/-- The loop of `rrc_settingsfile_parse`: the number of entries left, the bytes
left and the settings so far. -/
def parseEntries : ℕ → List UInt8 → RrcSettingsfile → Except RrcResultError Unit × RrcSettingsfile
  | 0, _, settings => (.ok (), settings)
  | n + 1, bytes, settings =>
    match readEntry bytes with
    | .error e => (.error e, settings)
    | .ok ((key, value), rest) => parseEntries n rest (settings.setKey key value)

/-- What `rrc_settingsfile_parse` reads before the loop: the number of entries. -/
def readHeader : Reader RrcResultError UInt32 := do
  let magic ← expectReadU32 "Failed to read magic bytes"
  if magic ≠ rrcSettingsfileMagic then
    throw (rrcResultCreateErrorCorruptedSettingsfile "Magic header mismatch")
  else do
    let _ ← expectReadU32 "Failed to read version number"
    expectReadU32 "Failed to read entry count"

/-- `rrc_settingsfile_parse` on a file that is open: its result, and the settings
that it leaves. -/
def parseContent (content : Bytes) : Except RrcResultError Unit × RrcSettingsfile :=
  match readHeader content with
  | .error e => (.error e, rrcSettingsfileInitDefaults)
  | .ok (entryCount, rest) => parseEntries entryCount.toNat rest rrcSettingsfileInitDefaults

/-! ### Writing -/

variable {κ : Type} [DecidableEq κ] (canon : CStr → κ)

/-- `rrc_result_create_error_errno(errno, context)` for the `errno` of the moment. -/
def onErrno (context : String) (eno : ℕ) : RrcResultError := rrcResultCreateErrorErrno eno context

/-- `rrc_settingsfile_write_header`: its result, and the file. -/
def rrcSettingsfileWriteHeader (file : File κ) (entryCount : UInt32) :
    Routine κ (Option RrcResultError × File κ) :=
  fwriteItems file
    [(be32 rrcSettingsfileMagic, onErrno "Failed to write magic header"),
      (be32 rrcSettingsfileVersion, onErrno "Failed to write version"),
      (be32 entryCount, onErrno "Failed to write entry count")]

/-- `rrc_settingsfile_set_option`: its result, and the file. -/
def rrcSettingsfileSetOption (file : File κ) (key : CStr) (value : UInt32) :
    Routine κ (Option RrcResultError × File κ) :=
  fwriteItems file
    [(be32 (UInt32.ofNat key.len), onErrno "Failed to write key length"),
      (key.bytes, onErrno "Failed to write key"),
      (be32 4, onErrno "Failed to write value length"),
      (be32 value, onErrno "Failed to write value")]

/-- `TRY(rrc_settingsfile_set_option(..))` for each pair in turn. -/
def setOptions (file : File κ) : List (CStr × UInt32) → Routine κ (File κ)
  | [] => return file
  | (key, value) :: rest => do
    match ← rrcSettingsfileSetOption file key value with
    | (some e, _) => Prog.throw e
    | (none, file) => setOptions file rest

/-- The pairs that `rrc_settingsfile_store` writes. -/
def RrcSettingsfile.pairs (settings : RrcSettingsfile) : List (CStr × UInt32) :=
  [(rrcSettingsfileMyStuffKey, settings.myStuff),
    (rrcSettingsfileSavegameKey, settings.separateSavegame),
    (rrcSettingsfileAutoupdateKey, settings.autoUpdate)]

/-- `rrc_settingsfile_store`. -/
def rrcSettingsfileStore (settings : RrcSettingsfile) : Routine κ Unit := do
  let file ← fopenWriteOr (canon rrcSettingsfilePath) (failErrno "Failed to open settingsfile")
  let (_, file) ← rrcSettingsfileWriteHeader file 3
  let file ← setOptions file settings.pairs
  let _ ← fclose file
  return ()

/-- `rrc_settingsfile_create`. -/
def rrcSettingsfileCreate : Routine κ Unit := do
  let file ← fopenWriteOr (canon rrcSettingsfilePath)
    (failErrno "could not create settingsfile, maybe the sd card is locked?")
  let (_, file) ← rrcSettingsfileWriteHeader file 0
  let _ ← fclose file
  return ()

/-- `rrc_settingsfile_parse`: its result, and the settings that it leaves. -/
def rrcSettingsfileParse : Routine κ (Except RrcResultError Unit × RrcSettingsfile) := do
  match ← fopenRead (canon rrcSettingsfilePath) with
  | some content => return parseContent (← freadable (canon rrcSettingsfilePath) content)
  | none =>
    let eno ← Prog.getErrno
    if eno = ENOENT then do
      match ← Prog.attempt (rrcSettingsfileCreate canon) with
      | .error e => return (.error e, rrcSettingsfileInitDefaults)
      | .ok _ =>
        match ← fopenRead (canon rrcSettingsfilePath) with
        | some content => return parseContent (← freadable (canon rrcSettingsfilePath) content)
        | none => return (.error (notOpened (← Prog.getErrno)), rrcSettingsfileInitDefaults)
    else return (.error (notOpened eno), rrcSettingsfileInitDefaults)
where
  notOpened := onErrno "failed to open file for reading after creating it"

end RrLauncher
