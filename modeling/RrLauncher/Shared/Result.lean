/-
# Results

`result.c`: an error has a source, a code of the library it comes from and a text
with its context.  A routine of the source that returns a `struct rrc_result` and
makes calls to the SD card is a program of `Stdio` whose errors are these.
-/

import RrLauncher.Lib.Stdio.Effects
import Mathlib.Algebra.Group.Int.Defs

namespace RrLauncher

/-- `enum rrc_result_error_source`. -/
inductive RrcResultErrorSource
  | curl
  | errno
  | zip
  | corruptedSettingsfile
  | updateMisc
  | corruptedVersionfile
  | sdCard
  | wiisocketInit
  | corruptedRrXml
  | versionMismatch
  deriving DecidableEq

/-- `struct rrc_result_error`. -/
structure RrcResultError where
  source : RrcResultErrorSource
  inner : ℤ
  context : String
  deriving DecidableEq

/-- `rrc_result_create_error_curl`. -/
def rrcResultCreateErrorCurl (error : ℤ) (context : String) : RrcResultError :=
  ⟨.curl, error, context⟩

/-- `rrc_result_create_error_errno`. -/
def rrcResultCreateErrorErrno (eno : ℤ) (context : String) : RrcResultError :=
  ⟨.errno, eno, context⟩

/-- `rrc_result_create_error_sdcard`. -/
def rrcResultCreateErrorSdcard (eno : ℤ) (context : String) : RrcResultError :=
  ⟨.sdCard, eno, context⟩

/-- `rrc_result_create_error_zip`. -/
def rrcResultCreateErrorZip (error : ℤ) (context : String) : RrcResultError :=
  ⟨.zip, error, context⟩

/-- `rrc_result_create_error_corrupted_settingsfile`. -/
def rrcResultCreateErrorCorruptedSettingsfile (context : String) : RrcResultError :=
  ⟨.corruptedSettingsfile, 0, context⟩

/-- `rrc_result_create_error_corrupted_versionfile`. -/
def rrcResultCreateErrorCorruptedVersionfile (context : String) : RrcResultError :=
  ⟨.corruptedVersionfile, 0, context⟩

/-- `rrc_result_create_error_misc_update`. -/
def rrcResultCreateErrorMiscUpdate (context : String) : RrcResultError :=
  ⟨.updateMisc, 0, context⟩

/-- `rrc_result_create_error_corrupted_rr_xml`. -/
def rrcResultCreateErrorCorruptedRrXml (context : String) : RrcResultError :=
  ⟨.corruptedRrXml, 0, context⟩

/-- `rrc_result_create_error_version_mismatch`. -/
def rrcResultCreateErrorVersionMismatch (context : String) : RrcResultError :=
  ⟨.versionMismatch, 0, context⟩

/-- What a run asks about the world besides the files.  An answer is the number that the
source reads; a failure has the error code of the library that was asked. -/
inductive Question
  | shutdown
  | freeSpace
  | httpInit
  | httpSize (url : List UInt8)
  | httpReceive (url : List UInt8)
  | stat
  | zipOpen
  | zipStat
  | zipFopen
  | zipRead
  | readerRead
  | readerClose

/-- A routine that returns a `struct rrc_result`. -/
abbrev Routine (κ α : Type) := Stdio.Prog κ Question RrcResultError α

/-- `return rrc_result_create_error_errno(errno, context)`. -/
def failErrno {κ α : Type} (context : String) : Routine κ α := do
  Stdio.Prog.throw (rrcResultCreateErrorErrno (← Stdio.Prog.getErrno) context)

/-- Returning an error made of `errno` always fails, and changes nothing on the card. -/
theorem fails_failErrno {κ α : Type} {env : Stdio.Env κ Question} (context : String) :
    Stdio.Fails env (failErrno context : Routine κ α) :=
  Stdio.Fails.bind Stdio.Quiet.getErrno fun _ => Stdio.Fails.throw _

end RrLauncher
