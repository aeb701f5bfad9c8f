/-
# Programs on a card that can fail

Programs that make one call after another to a C library with buffered files.
The environment answers every call: it works, it fails with an `errno`, or it is
the last one, because the power goes or the program is stopped.  Bytes given to
`fwrite` wait in the buffer of the file and reach the card at times that the
environment chooses; only a successful `fclose` brings all of them there.

The log records, for statements about what a run did, the files that were
completely written and the ones that were removed.
-/

import RrLauncher.Lib.Overlay
import Mathlib.Data.List.Basic

namespace Stdio

/-- What a file contains, and what is given to it or read of it. -/
abbrev Bytes := List UInt8

/-- A call of the library; questions about the rest of the world are its last
kind. -/
inductive Call (κ ι : Type)
  | fopenRead (path : κ)
  | fopenWrite (path : κ)
  | read (path : κ)
  | fwrite (path : κ)
  | fclose (path : κ)
  | remove (path : κ)
  | mkdir (path : κ)
  | ask (question : ι)

/-- What the environment makes of a call: it works, it fails, or the program
stops there.  For a file with a buffer `flushed` is how many bytes of the buffer
reach the card, and `accepted` how many of those given to a failing `fwrite` come
into the buffer. -/
inductive Reply
  | ok (flushed : ℕ)
  | fail (errno : ℕ) (accepted flushed : ℕ)
  | halt (flushed : ℕ)

/-- The environment answers a call by its number in the run. -/
abbrev Env (κ ι : Type) := ℕ → Call κ ι → Reply

/-- Every call works, whatever it is and however many were made before it. -/
def Env.Works {κ ι : Type} (env : Env κ ι) : Prop := ∀ n call, ∃ flushed, env n call = .ok flushed

/-- No `fclose` fails, so what was in a buffer is on the card when the file is closed. -/
def Env.Closes {κ ι : Type} (env : Env κ ι) : Prop :=
  ∀ n path errno accepted flushed, env n (.fclose path) ≠ .fail errno accepted flushed

/-- What is recorded of a run. -/
inductive Event (κ : Type)
  | wrote (path : κ) (content : Bytes)
  | removed (path : κ)
  deriving DecidableEq

/-- The card, with the number of calls so far, the C library's `errno` and the
log. -/
structure World (κ : Type) where
  card : κ → Option Bytes
  calls : ℕ
  errno : ℕ
  log : List (Event κ)

/-- Why a program did not get to its end. -/
inductive Stop (ε : Type)
  | error (e : ε)
  | halt
  deriving DecidableEq

/-- A program over the card. -/
def Prog (κ ι ε α : Type) : Type := Env κ ι → World κ → Except (Stop ε) α × World κ

variable {κ ι ε α β : Type}

namespace Prog

/-- The program that returns `a`. -/
protected def pure (a : α) : Prog κ ι ε α := fun _ w => (.ok a, w)

/-- One program after the other. -/
protected def bind (m : Prog κ ι ε α) (f : α → Prog κ ι ε β) : Prog κ ι ε β := fun env w =>
  match m env w with
  | (.ok a, w') => f a env w'
  | (.error stop, w') => (.error stop, w')

instance : Monad (Prog κ ι ε) where
  pure := Prog.pure
  bind := Prog.bind

/-- Stop with an error, which a caller may still handle. -/
def throw (e : ε) : Prog κ ι ε α := fun _ w => (.error (.error e), w)

/-- Stop for good, as when the power is lost: no caller goes on. -/
def halt : Prog κ ι ε α := fun _ w => (.error .halt, w)

/-- Go on after an error with the error. -/
def attempt (m : Prog κ ι ε α) : Prog κ ι ε (Except ε α) := fun env w =>
  match m env w with
  | (.ok a, w') => (.ok (.ok a), w')
  | (.error (.error e), w') => (.ok (.error e), w')
  | (.error .halt, w') => (.error .halt, w')

/-- The value of `errno`, which the last call that failed has set. -/
def getErrno : Prog κ ι ε ℕ := fun _ w => (.ok w.errno, w)

/-- The program for each element in turn. -/
def forEach (xs : List α) (f : α → Prog κ ι ε Unit) : Prog κ ι ε Unit :=
  match xs with
  | [] => pure ()
  | x :: rest => do
    f x
    forEach rest f

/-- A program that only returns a value leaves the world as it is. -/
theorem pure_run (a : α) (env : Env κ ι) (w : World κ) :
    (pure a : Prog κ ι ε α) env w = (.ok a, w) := rfl

/-- Two programs one after the other: the second starts in the world that the first one leaves, and
is not run where that one stops. -/
theorem bind_run (m : Prog κ ι ε α) (f : α → Prog κ ι ε β) (env : Env κ ι) (w : World κ) :
    (m >>= f) env w = match m env w with
      | (.ok a, w') => f a env w'
      | (.error stop, w') => (.error stop, w') := rfl

/-- A program that gets past its first part succeeded there. -/
theorem bind_ok {m : Prog κ ι ε α} {f : α → Prog κ ι ε β} {env : Env κ ι} {w w' : World κ} {b : β}
    (h : (m >>= f) env w = (.ok b, w')) :
    ∃ a w₁, m env w = (.ok a, w₁) ∧ f a env w₁ = (.ok b, w') := by
  rw [bind_run] at h
  split at h
  · exact ⟨_, _, ‹_›, h⟩
  · cases h

/-- A program that was attempted and succeeded ran as it does without the attempt. -/
theorem attempt_ok {m : Prog κ ι ε α} {env : Env κ ι} {w w' : World κ} {a : α}
    (h : attempt m env w = (.ok (.ok a), w')) : m env w = (.ok a, w') := by
  rw [attempt] at h
  split at h
  · cases h
    assumption
  · cases h
  · cases h

end Prog

/-! ### Calls -/

/-- One more call was made; the environment answers a call by its number. -/
def World.tick (w : World κ) : World κ := { w with calls := w.calls + 1 }

/-- One more call, that failed. -/
def World.failed (w : World κ) (errno : ℕ) : World κ := { w.tick with errno := errno }

/-- A question about the rest of the world: its answer, or `none` and `errno`. -/
def ask (question : ι) : Prog κ ι ε (Option ℕ) := fun env w =>
  match env w.calls (.ask question) with
  | .ok n => (.ok (some n), w.tick)
  | .fail errno _ _ => (.ok none, w.failed errno)
  | .halt _ => (.error .halt, w.tick)

/-- `ENOENT`. -/
def ENOENT : ℕ := 2

/-- `EIO`. -/
def EIO : ℕ := 5

/-- `EEXIST`. -/
def EEXIST : ℕ := 17

/-- `fopen(path, "r")`: the contents, for the reads that follow. -/
def fopenRead (path : κ) : Prog κ ι ε (Option Bytes) := fun env w =>
  match env w.calls (.fopenRead path) with
  | .ok _ =>
    match w.card path with
    | some content => (.ok (some content), w.tick)
    | none => (.ok none, w.failed ENOENT)
  | .fail errno _ _ => (.ok none, w.failed errno)
  | .halt _ => (.error .halt, w.tick)

/-- A file that was opened for reading has these contents. -/
theorem fopenRead_ok {env : Env κ ι} {path : κ} {w w' : World κ} {content : Bytes}
    (h : fopenRead (ε := ε) path env w = (.ok (some content), w')) : w.card path = some content := by
  rw [fopenRead] at h
  split at h
  · split at h
    · rename_i content' hcard
      cases h
      exact hcard
    · cases h
  · cases h
  · cases h

/-- What `fread`s of a file that is open get before the end or the first failure. -/
def freadable (path : κ) (content : Bytes) : Prog κ ι ε Bytes := fun env w =>
  match env w.calls (.read path) with
  | .ok _ => (.ok content, w.tick)
  | .fail errno n _ => (.ok (content.take n), w.failed errno)
  | .halt _ => (.error .halt, w.tick)

/-- What is read of a file that is open is the front of it. -/
theorem freadable_take {env : Env κ ι} {path : κ} {content bytes : Bytes} {w w' : World κ}
    (h : freadable (ε := ε) path content env w = (.ok bytes, w')) : ∃ n, bytes = content.take n := by
  rw [freadable] at h
  split at h
  · cases h
    exact ⟨content.length, List.take_length.symm⟩
  · rename_i n _ _
    cases h
    exact ⟨n, rfl⟩
  · cases h

/-- `mkdir(path, 0777)`: whether it returns zero. -/
def mkdir (path : κ) : Prog κ ι ε Bool := fun env w =>
  match env w.calls (.mkdir path) with
  | .ok _ => (.ok true, w.tick)
  | .fail errno _ _ => (.ok false, w.failed errno)
  | .halt _ => (.error .halt, w.tick)

/-! ### Files -/

/-- A file open for writing, with what waits in its buffer. -/
structure File (κ : Type) where
  path : κ
  pending : Bytes

section Files

variable [DecidableEq κ]

/-- The card after a change of one file. -/
def World.set (w : World κ) (path : κ) (content : Option Bytes) : World κ :=
  { w with card := Function.update w.card path content }

/-- The first bytes of the buffer reach the card. -/
def flush (file : File κ) (n : ℕ) (w : World κ) : File κ × World κ :=
  (⟨file.path, file.pending.drop n⟩,
    w.set file.path (some ((w.card file.path).getD [] ++ file.pending.take n)))

/-- `fopen(path, "w")`, which empties the file. -/
def fopenWrite (path : κ) : Prog κ ι ε (Option (File κ)) := fun env w =>
  match env w.calls (.fopenWrite path) with
  | .ok _ => (.ok (some ⟨path, []⟩), w.tick.set path (some []))
  | .fail errno _ _ => (.ok none, w.failed errno)
  | .halt n => (.error .halt, if n = 0 then w.tick else w.tick.set path (some []))

/-- `fwrite(bytes, 1, bytes.length, file)`: the number it returns, and the file. -/
def fwrite (file : File κ) (bytes : Bytes) : Prog κ ι ε (ℕ × File κ) := fun env w =>
  match env w.calls (.fwrite file.path) with
  | .ok n =>
    let (file, w) := flush ⟨file.path, file.pending ++ bytes⟩ n w.tick
    (.ok (bytes.length, file), w)
  | .fail errno accepted n =>
    let accepted := min accepted (bytes.length - 1)
    let (file, w) := flush ⟨file.path, file.pending ++ bytes.take accepted⟩ n (w.failed errno)
    (.ok (accepted, file), w)
  | .halt n => (.error .halt, (flush ⟨file.path, file.pending ++ bytes⟩ n w.tick).2)

/-- An `fopen` whose result is checked. -/
def fopenWriteOr (path : κ) (onNone : Prog κ ι ε (File κ)) : Prog κ ι ε (File κ) := do
  match ← fopenWrite path with
  | some file => return file
  | none => onNone

/-- An `fwrite` whose result is checked. -/
def fwriteOr (file : File κ) (bytes : Bytes) (onShort : Prog κ ι ε (File κ)) :
    Prog κ ι ε (File κ) := do
  let (written, file) ← fwrite file bytes
  if written ≠ bytes.length then onShort else return file

/-- `fwrite`s in turn, up to the first that comes up short: the error it gives for
`errno`, or `none`, and the file. -/
def fwriteItems (file : File κ) : List (Bytes × (ℕ → ε)) → Prog κ ι ε (Option ε × File κ)
  | [] => return (none, file)
  | (bytes, onShort) :: rest => do
    let (written, file) ← fwrite file bytes
    if written ≠ bytes.length then return (some (onShort (← Prog.getErrno)), file)
    else fwriteItems file rest

/-- `fclose(file)`: whether it returns zero. -/
def fclose (file : File κ) : Prog κ ι ε Bool := fun env w =>
  match env w.calls (.fclose file.path) with
  | .ok _ =>
    let (_, w) := flush file file.pending.length w.tick
    (.ok true, { w with log := w.log ++ [.wrote file.path ((w.card file.path).getD [])] })
  | .fail errno _ n => (.ok false, (flush file n (w.failed errno)).2)
  | .halt n => (.error .halt, (flush file n w.tick).2)

/-- `remove(path)`: whether it returns zero.  A file that is not there gives
`ENOENT`, and no other failure does. -/
def remove (path : κ) : Prog κ ι ε Bool := fun env w =>
  match env w.calls (.remove path) with
  | .ok _ =>
    match w.card path with
    | some _ => (.ok true, { w.tick.set path none with log := w.log ++ [.removed path] })
    | none => (.ok false, { w.failed ENOENT with log := w.log ++ [.removed path] })
  | .fail errno _ _ => (.ok false, w.failed (if errno = ENOENT then EIO else errno))
  | .halt n => (.error .halt, if n = 0 then w.tick else w.tick.set path none)

/-! ### Where every call works -/

section Works

variable {env : Env κ ι} (hworks : env.Works)

include hworks

/-- Where every call works, opening a file for writing gives an empty file, on the card as well. -/
theorem fopenWriteOr_works (path : κ) (onNone : Prog κ ι ε (File κ)) (w : World κ) :
    fopenWriteOr path onNone env w = (.ok ⟨path, []⟩, w.tick.set path (some [])) := by
  obtain ⟨n, hn⟩ := hworks w.calls (.fopenWrite path)
  rw [fopenWriteOr, Prog.bind_run, fopenWrite, hn]
  rfl

/-- Where every call works, a write takes all of its bytes. -/
theorem fwrite_works (file : File κ) (bytes : Bytes) (w : World κ) :
    ∃ file' w', fwrite (ε := ε) file bytes env w = (.ok (bytes.length, file'), w') := by
  obtain ⟨n, hn⟩ := hworks w.calls (.fwrite file.path)
  rw [fwrite, hn]
  exact ⟨_, _, rfl⟩

/-- Where every call works, no write is short, so what is done then does not come up. -/
theorem fwriteOr_works (file : File κ) (bytes : Bytes) (onShort : Prog κ ι ε (File κ)) (w : World κ) :
    ∃ file' w', fwriteOr file bytes onShort env w = (.ok file', w') := by
  obtain ⟨file', w', hwrite⟩ := fwrite_works (ε := ε) hworks file bytes w
  refine ⟨file', w', ?_⟩
  rw [fwriteOr, Prog.bind_run, hwrite]
  dsimp only
  rw [if_neg (not_not.mpr rfl)]
  rfl

/-- Where every call works, a list of pieces is written to its end, and no error is reported. -/
theorem fwriteItems_works (file : File κ) (items : List (Bytes × (ℕ → ε))) (w : World κ) :
    ∃ file' w', fwriteItems file items env w = (.ok (none, file'), w') := by
  induction items generalizing file w with
  | nil => exact ⟨file, w, rfl⟩
  | cons item items ih =>
    obtain ⟨file₁, w₁, hrun⟩ := fwrite_works (ε := ε) hworks file item.1 w
    obtain ⟨file₂, w₂, hrun₂⟩ := ih file₁ w₁
    refine ⟨file₂, w₂, ?_⟩
    rw [fwriteItems, Prog.bind_run, hrun]
    simpa using hrun₂

/-- Where every call works, closing succeeds, and what was still in the buffer is on the card. -/
theorem fclose_works (file : File κ) (w : World κ) :
    ∃ w', fclose (ε := ε) file env w = (.ok true, w') := by
  obtain ⟨n, hn⟩ := hworks w.calls (.fclose file.path)
  rw [fclose, hn]
  exact ⟨_, rfl⟩

omit [DecidableEq κ] in
/-- Where every call works, a file that is on the card is opened for reading, with its contents. -/
theorem fopenRead_works {path : κ} {w : World κ} {content : Bytes} (h : w.card path = some content) :
    fopenRead (ε := ε) path env w = (.ok (some content), w.tick) := by
  obtain ⟨n, hn⟩ := hworks w.calls (.fopenRead path)
  rw [fopenRead, hn, h]

omit [DecidableEq κ] in
/-- Where every call works, the contents of an open file can be read whole. -/
theorem freadable_works (path : κ) (content : Bytes) (w : World κ) :
    freadable (ε := ε) path content env w = (.ok content, w.tick) := by
  obtain ⟨n, hn⟩ := hworks w.calls (.read path)
  rw [freadable, hn]

end Works

end Files

end Stdio
