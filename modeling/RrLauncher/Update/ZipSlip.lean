/-
# Where an archive is extracted to

The names in an archive are whatever the archive says, and
`rr_update_zip_entry_path_is_safe` is there to reject those that lead out of the
folder that the archive is extracted into.  It looks for a leading separator and for
two dots, but the program itself uses a third kind of path that is not relative:
`sd:/`, the name of a device with a colon.  Extraction stays inside the folder
if and only if no file before the first rejected entry has such a name
(`zip_slip_iff`), because then the directories that are made on the way, which are
the beginnings of the names, do too (`stays_beginning`).

The paths that are created or opened for writing are those of the `mkdir`s and
`fopen`s that the run makes, whatever comes of them.
-/

import RrLauncher.Lib.CText
import RrLauncher.Lib.Stdio.Asked
import RrLauncher.Update.Archive
import Mathlib.Data.List.Infix

namespace RrLauncher

open Stdio

/-- `':'`. -/
def colon : UInt8 := 58

/-- A byte between the segments of a path. -/
def IsSeparator (c : UInt8) : Prop := c = slash ∨ c = backslash

/-- The path begins with the name of one of the devices and a colon. -/
def HasDevice (devices : List CStr) (path : CStr) : Prop :=
  ∃ device ∈ devices, device.bytes ++ [colon] <+: path.bytes

/-- A path that is not looked up in the current folder. -/
def IsAbsolute (devices : List CStr) (path : CStr) : Prop :=
  IsSeparator path.first ∨ HasDevice devices path

/-- One of the segments of the path is `..`. -/
def HasParentSegment (path : CStr) : Prop :=
  ∃ before after, path.bytes = before ++ (CStr.lit "..").bytes ++ after ∧
    (∀ c ∈ before.getLast?, IsSeparator c) ∧ ∀ c ∈ after.head?, IsSeparator c

/-- **A path that stays inside the current folder.** -/
structure StaysInside (devices : List CStr) (path : CStr) : Prop where
  relative : ¬ IsAbsolute devices path
  noParent : ¬ HasParentSegment path

/-- The platform on which a file is known by the path that it was given. -/
def byPath (serve : CStr → List Bytes) (openZip : Bytes → Except ℤ (List ZipEntry)) :
    Platform CStr := ⟨id, serve, openZip⟩

/-- **The run creates the path or opens it for writing**, or tries to. -/
def Touches {α : Type} (m : Routine CStr α) (env : Stdio.Env CStr Question) (w : World CStr)
    (path : CStr) : Prop :=
  Asks m env w (.fopenWrite path) ∨ Asks m env w (.mkdir path)

/-- The entry has a name, and one that the test lets through. -/
def ZipEntry.accepted (entry : ZipEntry) : Bool := entry.name.any rrUpdateZipEntryPathIsSafe

/-- The entry is a file whose name begins with a device. -/
def ZipEntry.NamesDevice (devices : List CStr) (entry : ZipEntry) : Prop :=
  ∃ name, entry.name = some name ∧ name.bytes.getLast? ≠ some slash ∧ HasDevice devices name

/-! ### Names that were let through -/

/-- What the test says of a name that it lets through. -/
theorem rrUpdateZipEntryPathIsSafe_spec {name : CStr} (h : rrUpdateZipEntryPathIsSafe name = true) :
    name.first ≠ 0 ∧ ¬ IsSeparator name.first ∧ name.contains (CStr.lit "..") = false := by
  unfold rrUpdateZipEntryPathIsSafe at h
  split at h
  · cases h
  · rename_i hne
    split at h
    · cases h
    · rename_i hsep
      split at h
      · cases h
      · exact ⟨hne, by simpa [IsSeparator] using hsep, by simpa using ‹¬ name.contains _ = true›⟩

/-- **The beginnings of a name** that was let through stay inside the folder, if the
name has no device. -/
theorem stays_beginning {devices : List CStr} {name path : CStr}
    (hsafe : rrUpdateZipEntryPathIsSafe name = true) (hdevice : ¬ HasDevice devices name)
    (hpre : path.bytes <+: name.bytes) : StaysInside devices path := by
  obtain ⟨-, hsep, hdots⟩ := rrUpdateZipEntryPathIsSafe_spec hsafe
  obtain ⟨rest, hrest⟩ := hpre
  constructor
  · rintro (hfirst | ⟨device, hmem, hdev⟩)
    · -- the first byte of the path is that of the name, or the path is empty
      cases hbytes : path.bytes with
      | nil =>
        rw [CStr.first, hbytes] at hfirst
        rcases hfirst with h | h <;> cases h
      | cons c bytes =>
        apply hsep
        rw [CStr.first, ← hrest, hbytes]
        rwa [CStr.first, hbytes] at hfirst
    · exact hdevice ⟨device, hmem, hdev.trans ⟨rest, hrest⟩⟩
  · rintro ⟨before, after, hpath, -, -⟩
    have hname : name.bytes = before ++ (CStr.lit "..").bytes ++ (after ++ rest) := by
      rw [← hrest, hpath, List.append_assoc]
    rw [CStr.contains_iff.mpr ⟨before, after ++ rest, hname.symm⟩] at hdots
    cases hdots

/-- A path that names a device is not relative, so it does not stay inside the directory that is
extracted to. -/
theorem not_staysInside_of_device {devices : List CStr} {path : CStr} (h : HasDevice devices path) :
    ¬ StaysInside devices path := fun hstays => hstays.relative (Or.inr h)

/-! ### The calls of an entry -/

/-- The call creates or opens a path that the file of this name does not need. -/
inductive Foreign (name : CStr) : Stdio.Call CStr Question → Prop
  | fopenWrite {path : CStr} (h : path ≠ name) : Foreign name (.fopenWrite path)
  | mkdir {path : CStr} (h : ¬ path.bytes <+: name.bytes) : Foreign name (.mkdir path)

section Avoids

variable {name : CStr} {call : Stdio.Call CStr Question}

/-- The calls that are foreign are those for files and directories, so none of them is a question.
-/
theorem Foreign.ask_ne (h : Foreign name call) (question : Question) : .ask question ≠ call := by
  rintro rfl
  cases h

/-- Making the error of an `errno` calls nothing, so it avoids every call. -/
theorem avoids_failErrno {κ α : Type} {call : Stdio.Call κ Question} (context : String) :
    Avoids (failErrno context : Routine κ α) call :=
  Avoids.getErrno.bind fun _ => Avoids.throw _

/-- Making the directories of an entry makes no foreign one: each is a part of the entry's own name
in front of one of its separators. -/
theorem avoids_mkdirRecursive (h : Foreign name call) : Avoids (mkdirRecursive id name) call := by
  unfold mkdirRecursive
  split
  · refine Avoids.forEach fun i _ => ?_
    unfold mkdirAt
    split
    · refine (Avoids.mkdir ?_).bind ?_
      · -- the directory is the part of the name before the separator
        rintro rfl
        cases h with
        | mkdir h =>
          exact h ((List.takeWhile_prefix _).trans (List.take_prefix i name.bytes))
      · rintro (_ | _)
        · refine Avoids.getErrno.bind fun eno => ?_
          split
          · exact Avoids.throw _
          · exact Avoids.pure ()
        · exact Avoids.pure ()
    · exact Avoids.pure ()
  · exact Avoids.halt

/-- A foreign call opens another path than that of the entry. -/
theorem Foreign.fopenWrite_ne (h : Foreign name call) : .fopenWrite name ≠ call := by
  rintro rfl
  cases h with
  | fopenWrite h => exact h rfl

/-- Creating the file of an entry makes no foreign call: the directories in front of it are made,
and the file is opened again. -/
theorem avoids_createOutfile (h : Foreign name call) : Avoids (createOutfile id name) call := by
  refine Avoids.getErrno.bind fun eno => ?_
  split
  · exact Avoids.throw _
  · exact (avoids_mkdirRecursive h).bind fun _ =>
      Avoids.fopenWriteOr h.fopenWrite_ne (avoids_failErrno _)

/-- Writing to the open file calls `fwrite` for it and asks for the next bytes of the archive. -/
theorem avoids_writeChunks (h : Foreign name call) (outfile : File CStr) (chunks : List Chunk) :
    Avoids (writeChunks outfile chunks) call := by
  induction chunks generalizing outfile with
  | nil =>
    refine (Avoids.ask (h.ask_ne _)).bind ?_
    rintro (_ | n)
    · exact avoids_failErrno _
    · exact Avoids.pure outfile
  | cons chunk chunks ih =>
    refine (Avoids.ask (h.ask_ne _)).bind ?_
    rintro (_ | n)
    · exact avoids_failErrno _
    · refine (Avoids.fwriteOr ?_ (avoids_failErrno _)).bind ih
      rintro rfl
      cases h

/-- Extracting one entry makes no foreign call, whatever fails on the way: this puts together the
directories, the file and what is written into it. -/
theorem avoids_extractFile (h : Foreign name call) (chunks : List Chunk) :
    Avoids (extractFile id name chunks) call := by
  refine (Avoids.fopenWriteOr h.fopenWrite_ne (avoids_createOutfile h)).bind fun outfile => ?_
  refine (avoids_writeChunks h outfile chunks).bind fun outfile => ?_
  refine (Avoids.fclose ?_).bind fun _ => Avoids.pure ()
  rintro rfl
  cases h

/-- An entry that is not accepted is the end of the loop. -/
theorem fails_extractEntry {entry : ZipEntry} (h : entry.accepted = false)
    (env : Stdio.Env CStr Question) : Fails env (extractEntry id entry) := by
  refine Fails.bind quiet_zipStatIndex fun _ => ?_
  split
  · exact Fails.throw _
  cases hname : entry.name with
  | none => exact Fails.halt
  | some name =>
    have hunsafe : rrUpdateZipEntryPathIsSafe name = false := by
      rwa [ZipEntry.accepted, hname, Option.any_some] at h
    dsimp only
    split
    · exact Fails.throw _
    · exact Fails.throw _

/-- Looking up an entry of the archive only asks, so it avoids every call that is no question. -/
theorem avoids_zipStatIndex (hask : ∀ question : Question, .ask question ≠ call) :
    Avoids (zipStatIndex : Routine CStr Unit) call := by
  refine (Avoids.ask (hask _)).bind ?_
  rintro (_ | n)
  · exact Avoids.throw _
  · exact Avoids.pure ()

/-- So does looking up the free space of the card. -/
theorem avoids_rrcSdGetFreeSpace (hask : ∀ question : Question, .ask question ≠ call) :
    Avoids (rrcSdGetFreeSpace : Routine CStr UInt64) call := by
  refine (Avoids.ask (hask _)).bind ?_
  rintro (_ | n)
  · exact avoids_failErrno _
  · exact Avoids.pure _

/-- **The calls of an entry**: a call that is foreign to the name of its file, if it is
accepted and has one, is not made. -/
theorem avoids_extractEntry (hask : ∀ question : Question, .ask question ≠ call) {entry : ZipEntry}
    (h : ∀ name, entry.name = some name → rrUpdateZipEntryPathIsSafe name = true →
      name.bytes.getLast? ≠ some slash → Foreign name call) :
    Avoids (extractEntry id entry) call := by
  refine (avoids_zipStatIndex hask).bind fun _ => ?_
  split
  · exact Avoids.throw _
  cases hname : entry.name with
  | none => exact Avoids.halt
  | some name =>
    dsimp only
    split
    · exact Avoids.throw _
    split
    · exact Avoids.throw _
    rename_i hsafe
    refine (avoids_rrcSdGetFreeSpace hask).bind fun sdFree => ?_
    split
    · exact Avoids.throw _
    split
    · exact Avoids.pure ()
    rename_i hfile
    refine (Avoids.ask (hask _)).bind ?_
    rintro (_ | n)
    · exact Avoids.throw _
    · exact avoids_extractFile (h name hname (Bool.not_eq_false _ ▸ hsafe) hfile) entry.chunks

/-- The calls of the loop over the entries are those of the entries that are accepted: a call that
none of these makes is avoided. -/
theorem avoids_extractEntries (hask : ∀ question : Question, .ask question ≠ call)
    {entries : List ZipEntry}
    (h : ∀ entry ∈ entries.takeWhile (·.accepted), ∀ name, entry.name = some name →
      rrUpdateZipEntryPathIsSafe name = true → name.bytes.getLast? ≠ some slash →
        Foreign name call) :
    Avoids (extractEntries id entries) call := by
  refine (Avoids.forEach fun _ _ => avoids_zipStatIndex hask).bind fun _ => ?_
  refine (avoids_rrcSdGetFreeSpace hask).bind fun sdFree => ?_
  split
  · exact Avoids.throw _
  refine Avoids.forEach_takeWhile (fun entry hentry => avoids_extractEntry hask (h entry hentry))
    fun entry hrejected => ⟨avoids_extractEntry hask fun name hname hsafe _ => ?_,
      fails_extractEntry hrejected⟩
  rw [ZipEntry.accepted, hname, Option.any_some, hsafe] at hrejected
  cases hrejected

/-- Opening the archive only reads it and asks for what is in it, so it avoids every call that is
neither. -/
theorem avoids_zipOpen (hask : ∀ question : Question, .ask question ≠ call)
    (hread : ∀ path : CStr, .fopenRead path ≠ call) (p : Platform CStr) (path : CStr) :
    Avoids (zipOpen p path) call := by
  refine (Avoids.ask (hask _)).bind ?_
  rintro (_ | n)
  · exact Avoids.getErrno.bind fun _ => Avoids.throw _
  refine (Avoids.fopenRead (hread _)).bind ?_
  rintro (_ | content)
  · exact Avoids.getErrno.bind fun _ => Avoids.throw _
  dsimp only
  split
  · exact Avoids.throw _
  · exact Avoids.pure _

end Avoids

/-! ### The file that is reached -/

/-- The environment in which every call works, with as much room on the card as
`rrc_sd_get_free_space` can say. -/
def roomy : Stdio.Env CStr Question := fun _ _ => .ok (2 ^ 64 - 1)

/-- The same, but for the `fopen` of one path for writing. -/
def roomyBut (path : CStr) (reply : Reply) : Stdio.Env CStr Question := fun n call =>
  match call with
  | .fopenWrite k => if k = path then reply else roomy n call
  | _ => roomy n call

/-- The two environments give the same replies, except to the one call. -/
theorem sameBut_roomyBut (path : CStr) (reply : Reply) :
    SameBut (.fopenWrite path) roomy (roomyBut path reply) := by
  intro n call hne
  cases call with
  | fopenWrite k => exact if_neg fun h : k = path => hne (h ▸ rfl)
  | _ => rfl

/-- On a card with room every call works, so a run there stops for no reason but the names of the
entries. -/
theorem roomy_works : roomy.Works := fun _ _ => ⟨_, rfl⟩

section Roomy

variable {env : Stdio.Env CStr Question}
  (hask : ∀ n question, env n (.ask question) = .ok (2 ^ 64 - 1))

include hask

/-- There every question has the same answer, the highest number of 64 bits. -/
theorem ask_roomy (question : Question) (w : World CStr) :
    (ask question : Routine CStr _) env w = (.ok (some (2 ^ 64 - 1)), w.tick) := by
  rw [ask, hask]

/-- So under this environment every entry is looked up without an error, and only the clock moves. -/
theorem zipStatIndex_roomy (w : World CStr) :
    (zipStatIndex : Routine CStr Unit) env w = (.ok (), w.tick) := by
  rw [zipStatIndex, Prog.bind_run, ask_roomy hask]
  rfl

/-- The free space of the card that it reports is the highest number that the function can return,
so that the checks of the space ask for no more than there is. -/
theorem rrcSdGetFreeSpace_roomy (w : World CStr) :
    (rrcSdGetFreeSpace : Routine CStr UInt64) env w = (.ok (UInt64.ofNat (2 ^ 64 - 1)), w.tick) := by
  rw [rrcSdGetFreeSpace, Prog.bind_run, ask_roomy hask]
  rfl

omit hask in
/-- No size of an entry is above that number: the comparison of the source never stops the
extraction under this environment. -/
theorem not_gt_roomy (size : UInt64) : ¬ size > UInt64.ofNat (2 ^ 64 - 1) := by
  have hlt : size.toNat < 2 ^ 64 := size.toNat_lt
  have hmax : (UInt64.ofNat (2 ^ 64 - 1)).toNat = 2 ^ 64 - 1 := by decide
  rw [gt_iff_lt, UInt64.lt_iff_toNat_lt, hmax]
  omega

/-- **An accepted entry**, where there is room: there is nothing to do for a folder,
and a file is extracted. -/
theorem extractEntry_roomy {entry : ZipEntry} {name : CStr} (hname : entry.name = some name)
    (hsafe : rrUpdateZipEntryPathIsSafe name = true) (w : World CStr) :
    ∃ w', extractEntry id entry env w = if name.bytes.getLast? = some slash then (.ok (), w')
      else extractFile id name entry.chunks env w' := by
  obtain ⟨hfirst, -, -⟩ := rrUpdateZipEntryPathIsSafe_spec hsafe
  rw [extractEntry, Prog.bind_run, zipStatIndex_roomy hask]
  dsimp only
  rw [if_neg (fun h => by simp [hname] at h), hname]
  dsimp only
  rw [if_neg hfirst, if_neg (by simp [hsafe]), Prog.bind_run, rrcSdGetFreeSpace_roomy hask]
  dsimp only
  rw [if_neg (not_gt_roomy _)]
  split
  · exact ⟨_, rfl⟩
  · refine ⟨w.tick.tick.tick, ?_⟩
    rw [Prog.bind_run, ask_roomy hask]

end Roomy

/-- Where every call works, the bytes of an entry are written without an error.  The induction is on
the pieces that the archive gives them in. -/
theorem writeChunks_works {env : Stdio.Env CStr Question} (hworks : env.Works) (outfile : File CStr)
    (chunks : List Chunk) (w : World CStr) :
    ∃ outfile' w', writeChunks outfile chunks env w = (.ok outfile', w') := by
  induction chunks generalizing outfile w with
  | nil =>
    obtain ⟨n, hn⟩ := hworks w.calls (.ask .zipRead)
    refine ⟨outfile, w.tick, ?_⟩
    rw [writeChunks, Prog.bind_run, ask, hn]
    rfl
  | cons chunk chunks ih =>
    obtain ⟨n, hn⟩ := hworks w.calls (.ask .zipRead)
    obtain ⟨file, w₁, hwrite⟩ := fwriteOr_works hworks outfile chunk.bytes
      (failErrno "Failed to fully write ZIP chunk") w.tick
    obtain ⟨outfile', w', hrest⟩ := ih file w₁
    refine ⟨outfile', w', ?_⟩
    rw [writeChunks, Prog.bind_run, ask, hn]
    dsimp only
    rw [Prog.bind_run, hwrite]
    exact hrest

/-- A file is extracted to its end where every call works. -/
theorem extractFile_works {env : Stdio.Env CStr Question} (hworks : env.Works) (filepath : CStr)
    (chunks : List Chunk) (w : World CStr) :
    ∃ w', extractFile id filepath chunks env w = (.ok (), w') := by
  obtain ⟨outfile, w₁, hwrite⟩ := writeChunks_works hworks ⟨filepath, []⟩ chunks
    (w.tick.set filepath (some []))
  obtain ⟨w', hclose⟩ := fclose_works (ε := RrcResultError) hworks outfile w₁
  refine ⟨w', ?_⟩
  rw [extractFile, Prog.bind_run, fopenWriteOr_works hworks]
  dsimp only [id]
  rw [Prog.bind_run, hwrite]
  dsimp only
  rw [Prog.bind_run, hclose]
  rfl

/-- The error of an `fopen` that is not allowed. -/
def permissionDenied : RrcResultError :=
  rrcResultCreateErrorErrno 13 "Failed to create output file for extracting ZIP entry"

/-- Where only opening the file of an entry goes wrong, extracting it stops there: with the power,
or with the error that the card gives. -/
theorem roomyBut_stops (name : CStr) :
    (∀ w, (fopenWriteOr name (createOutfile id name) (roomyBut name (.halt 0)) w).1 =
      .error .halt) ∧
    ∀ w, (fopenWriteOr name (createOutfile id name) (roomyBut name (.fail 13 0 0)) w).1 =
      .error (.error permissionDenied) := by
  have hreply : ∀ reply n, roomyBut name reply n (.fopenWrite name) = reply :=
    fun reply n => if_pos rfl
  constructor
  · intro w
    rw [fopenWriteOr, Prog.bind_run, fopenWrite, hreply]
  · intro w
    rw [fopenWriteOr, Prog.bind_run, fopenWrite, hreply]
    rfl

/-- An accepted entry of another name has its turn and does not stop the run, whatever the one call
that may fail answers. -/
theorem extractEntry_ok {entry : ZipEntry} (haccepted : entry.accepted = true) {path : CStr}
    (hne : entry.name ≠ some path) (reply : Reply) (w : World CStr) :
    ∃ w', extractEntry id entry (roomyBut path reply) w = (.ok (), w') := by
  obtain ⟨name, hname, hsafe⟩ := (Option.any_eq_true _ _).mp haccepted
  have hask : ∀ n question, roomyBut path reply n (.ask question) = .ok (2 ^ 64 - 1) := fun _ _ => rfl
  obtain ⟨w₁, hrun⟩ := extractEntry_roomy hask hname hsafe w
  rw [hrun]
  split
  · exact ⟨w₁, rfl⟩
  · -- the file is another one, so its calls are answered as in `roomy`
    have hforeign : Foreign name (.fopenWrite path) := by
      refine .fopenWrite ?_
      rintro rfl
      exact hne hname
    obtain ⟨w', hdone⟩ := extractFile_works roomy_works name entry.chunks w₁
    refine ⟨w', ?_⟩
    rw [← hdone]
    exact avoids_extractFile hforeign entry.chunks _ _ w₁ (sameBut_roomyBut path reply)

/-- **A file that is reached**: the entries before it have their turns, and then its
`fopen` decides how the run ends. -/
theorem extractEntries_stops {before after : List ZipEntry} {entry : ZipEntry} {name : CStr}
    (hbefore : ∀ e ∈ before, e.accepted = true ∧ e.name ≠ some name)
    (hname : entry.name = some name) (hsafe : rrUpdateZipEntryPathIsSafe name = true)
    (hfile : name.bytes.getLast? ≠ some slash) {reply : Reply} {stop : Stop RrcResultError}
    (hopen : ∀ w, (fopenWriteOr name (createOutfile id name) (roomyBut name reply) w).1 = .error stop)
    (w : World CStr) :
    (extractEntries id (before ++ entry :: after) (roomyBut name reply) w).1 = .error stop := by
  have hask : ∀ n question, roomyBut name reply n (.ask question) = .ok (2 ^ 64 - 1) :=
    fun _ _ => rfl
  have hstats : ∀ e ∈ before ++ entry :: after, ∀ w,
      ∃ w', (zipStatIndex : Routine CStr Unit) (roomyBut name reply) w = (.ok (), w') :=
    fun _ _ w => ⟨_, zipStatIndex_roomy hask w⟩
  obtain ⟨w₁, hstat⟩ := Prog.forEach_ok hstats w
  obtain ⟨w₂, hturns⟩ := Prog.forEach_ok
    (fun e he => extractEntry_ok (hbefore e he).1 (hbefore e he).2 reply) w₁.tick
  obtain ⟨w₃, hrun⟩ := extractEntry_roomy hask hname hsafe w₂
  rw [extractEntries, Prog.bind_run, hstat]
  dsimp only
  rw [Prog.bind_run, rrcSdGetFreeSpace_roomy hask]
  dsimp only
  rw [if_neg (not_gt_roomy _), Prog.forEach_append hturns, Prog.forEach]
  refine Prog.bind_stops ?_ _
  rw [hrun, if_neg hfile]
  exact Prog.bind_stops (hopen w₃) _

/-- **A file that is reached is opened for writing**: on a card with room nothing stops the run in
front of its entry. -/
theorem touches_of_reached {serve : CStr → List Bytes} {openZip : Bytes → Except ℤ (List ZipEntry)}
    {w : World CStr} {content : Bytes} {before after : List ZipEntry} {entry : ZipEntry}
    {name : CStr} (hcard : w.card rrcUpdateZipName = some content)
    (hzip : openZip content = .ok (before ++ entry :: after))
    (hbefore : ∀ e ∈ before, e.accepted = true ∧ e.name ≠ some name)
    (hname : entry.name = some name) (hsafe : rrUpdateZipEntryPathIsSafe name = true)
    (hfile : name.bytes.getLast? ≠ some slash) :
    Touches (rrcUpdateExtractZipArchive (byPath serve openZip)) roomy w name := by
  have hstops : ∀ reply stop,
      (∀ w, (fopenWriteOr name (createOutfile id name) (roomyBut name reply) w).1 = .error stop) →
      (rrcUpdateExtractZipArchive (byPath serve openZip) (roomyBut name reply) w).1 = .error stop := by
    intro reply stop hopen
    have hopened : zipOpen (byPath serve openZip) rrcUpdateZipName (roomyBut name reply) w =
        (.ok (before ++ entry :: after), w.tick.tick) := by
      rw [zipOpen, Prog.bind_run, ask_roomy fun _ _ => rfl]
      dsimp only
      rw [Prog.bind_run, fopenRead]
      simp only [roomyBut, roomy, byPath, id, World.tick, hcard, hzip]
      rfl
    rw [rrcUpdateExtractZipArchive, Prog.bind_run, hopened]
    exact extractEntries_stops hbefore hname hsafe hfile hopen w.tick.tick
  obtain ⟨hhalt, hfail⟩ := roomyBut_stops name
  refine Or.inl (asks_of_ne (sameBut_roomyBut name (.halt 0))
    (sameBut_roomyBut name (.fail 13 0 0)) ?_)
  intro heq
  have hstop := hstops _ _ hhalt
  rw [heq, hstops _ _ hfail] at hstop
  cases hstop

/-- The first element of a list of which something is true, with those in front of it, of which it
is not. -/
theorem exists_first {α : Type} {p : α → Prop} {l : List α} {x : α} (hx : x ∈ l) (hp : p x) :
    ∃ before y after, l = before ++ y :: after ∧ p y ∧ ∀ z ∈ before, ¬ p z := by
  classical
  have hsome : (l.find? fun z => decide (p z)).isSome :=
    List.find?_isSome.mpr ⟨x, hx, by simpa using hp⟩
  obtain ⟨y, hy⟩ := Option.isSome_iff_exists.mp hsome
  obtain ⟨hpy, before, after, hsplit, hbefore⟩ := List.find?_eq_some_iff_append.mp hy
  exact ⟨before, y, after, hsplit, by simpa using hpy, fun z hz => by simpa using hbefore z hz⟩

/-- **Extraction stays inside the folder** if and only if no file before the first entry
that is rejected has a name that begins with a device. -/
theorem zip_slip_iff (devices : List CStr) (serve : CStr → List Bytes)
    (openZip : Bytes → Except ℤ (List ZipEntry)) (w : World CStr) :
    (∀ env path, Touches (rrcUpdateExtractZipArchive (byPath serve openZip)) env w path →
      StaysInside devices path) ↔
    ∀ content entries, w.card rrcUpdateZipName = some content → openZip content = .ok entries →
      ∀ entry ∈ entries.takeWhile (·.accepted), ¬ entry.NamesDevice devices := by
  constructor
  · intro hstays content entries hcard hzip entry hentry hdevice
    -- the first such file is reached where there is room
    obtain ⟨before, first, after, hsplit, ⟨name, hname, hfile, hdev⟩, hearlier⟩ :=
      exists_first hentry hdevice
    have haccepted : ∀ e ∈ before ++ first :: after, e.accepted = true := by
      rw [← hsplit]
      exact fun e he => List.mem_takeWhile_imp he
    have hentries : entries = before ++ first :: (after ++ entries.dropWhile (·.accepted)) := by
      rw [← List.cons_append, ← List.append_assoc, ← hsplit, List.takeWhile_append_dropWhile]
    have hsafe : rrUpdateZipEntryPathIsSafe name = true := by
      have h := haccepted first (List.mem_append_right _ List.mem_cons_self)
      rwa [ZipEntry.accepted, hname, Option.any_some] at h
    have hbefore : ∀ e ∈ before, e.accepted = true ∧ e.name ≠ some name := by
      intro e he
      refine ⟨haccepted e (List.mem_append_left _ he), fun hsame => ?_⟩
      exact hearlier e he ⟨name, hsame, hfile, hdev⟩
    refine not_staysInside_of_device hdev (hstays roomy name ?_)
    exact touches_of_reached hcard (hentries ▸ hzip) hbefore hname hsafe hfile
  · intro hnames env path htouches
    by_contra hstays
    -- whatever is touched, the call is foreign to every name that is reached
    have hnot : ∀ call, (∀ question : Question, .ask question ≠ call) →
        (∀ k : CStr, .fopenRead k ≠ call) → (∀ name, ¬ path.bytes <+: name.bytes → Foreign name call) →
        ¬ Asks (rrcUpdateExtractZipArchive (byPath serve openZip)) env w call := by
      intro call hask hread hforeign
      refine Avoids.not_asks_bind (avoids_zipOpen hask hread _ _) fun entries w' hrun => ?_
      obtain ⟨content, hcard, hzip⟩ := zipOpen_ok hrun
      refine avoids_extractEntries hask fun entry hentry name hname hsafe hfile => hforeign name ?_
      intro hpre
      refine hstays (stays_beginning hsafe (fun hdev => ?_) hpre)
      exact hnames content entries hcard hzip entry hentry ⟨name, hname, hfile, hdev⟩
    rcases htouches with hopen | hmkdir
    · refine hnot _ (fun _ h => by cases h) (fun _ h => by cases h) (fun name h => ?_) hopen
      exact .fopenWrite fun heq => h (heq ▸ List.prefix_rfl)
    · exact hnot _ (fun _ h => by cases h) (fun _ h => by cases h) (fun name h => .mkdir h) hmkdir

/-- A file whose name is a path of the launcher's own card. -/
def deviceEntry : ZipEntry := ⟨some (CStr.lit "sd:/boot.elf"), some 1, [Chunk.singleton 7]⟩

/-- Such a name is let through, and the file is opened where it says. -/
theorem zip_slip_device :
    Touches (rrcUpdateExtractZipArchive (byPath (fun _ => []) fun _ => .ok [deviceEntry])) roomy
      ⟨fun _ => some [], 0, 0, []⟩ (CStr.lit "sd:/boot.elf") ∧
    ¬ StaysInside [CStr.lit "sd"] (CStr.lit "sd:/boot.elf") := by
  constructor
  · have hzip : (.ok [deviceEntry] : Except ℤ (List ZipEntry)) = .ok ([] ++ deviceEntry :: []) := rfl
    exact touches_of_reached rfl hzip (fun e he => by cases he) rfl (by decide) (by decide)
  · exact not_staysInside_of_device ⟨CStr.lit "sd", List.mem_singleton.mpr rfl, by decide⟩

end RrLauncher
