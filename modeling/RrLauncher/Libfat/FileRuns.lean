/-
# Runs of seeks and reads

Any number of files are open, and seeks and reads come in any order.  Over every run the files behave
as `PlainFile`s do, which are bytes with a position (`files_refine_plain`): neither the cache
nor where the clusters lie can be seen.  The reads of the game, each of which seeks first, do
therefore not depend on each other (`game_reads_independent`).
-/

import RrLauncher.Libfat.CacheRuns
import RrLauncher.Libfat.FatSeek

namespace RrLauncher

open Cells (slice patch)

/-- A call on an open file. -/
inductive FileCall (ι : Type) where
  | seek (fd : ι) (pos : ℤ) (dir : Whence)
  | read (fd : ι) (buffer : ℕ → UInt8) (len : ℕ)

/-- What a call leaves: its result, the error code it sets, and the buffer. -/
structure FileReply where
  ret : ℤ
  errno : Option FatErrno
  buffer : Option (ℕ → UInt8)

/-! ### Files on the card -/

section Files

variable {ι : Type} [DecidableEq ι] (F : Faults) (P : Partition)

/-- A call of `FAT_seek` or `FAT_read`. -/
def FileCall.onFiles (files : ι → FileStruct) :
    FileCall ι → StateM Cache (FileReply × (ι → FileStruct))
  | .seek fd pos dir => do
    let r ← fatSeek F P (files fd) pos dir
    pure (⟨r.ret, r.errno, none⟩, Function.update files fd r.file)
  | .read fd buffer len => do
    let r ← fatRead F P (files fd) buffer len
    pure (⟨r.ret, r.errno, some r.buffer⟩, Function.update files fd r.file)

/-- The calls, one after the other. -/
def runOnFiles : (ι → FileStruct) → List (FileCall ι) → StateM Cache (List FileReply × (ι → FileStruct))
  | files, [] => pure ([], files)
  | files, call :: calls => do
    let (reply, files) ← call.onFiles F P files
    let (replies, files) ← runOnFiles files calls
    pure (reply :: replies, files)

end Files

/-! ### Plain files -/

/-- Bytes with a position, which is all that a caller is to know of a file. -/
structure PlainFile where
  size : ℕ
  bytes : ℕ → UInt8
  position : ℕ

/-- The file at another position. -/
def PlainFile.goTo (file : PlainFile) (position : ℕ) : PlainFile := { file with position := position }

/-- Going to another position leaves the size of a plain file as it is. -/
@[simp] theorem PlainFile.size_goTo (file : PlainFile) (position : ℕ) :
    (file.goTo position).size = file.size := rfl

/-- Moving the position of a plain file leaves its bytes as they are. -/
@[simp] theorem PlainFile.bytes_goTo (file : PlainFile) (position : ℕ) :
    (file.goTo position).bytes = file.bytes := rfl

/-- The position is then the one that was gone to. -/
@[simp] theorem PlainFile.position_goTo (file : PlainFile) (position : ℕ) :
    (file.goTo position).position = position := rfl

section Plain

variable {ι : Type} [DecidableEq ι]

/-- A seek goes to the new position, and a read takes the bytes from the position on, up to the end
of the file. -/
def FileCall.onPlain (files : ι → PlainFile) : FileCall ι → FileReply × (ι → PlainFile)
  | .seek fd pos dir =>
    match newPosition (files fd).position (files fd).size pos dir with
    | .error e => (⟨-1, some e, none⟩, files)
    | .ok position =>
      (⟨(position : ℤ).bmod (2 ^ 32), none, none⟩, Function.update files fd ((files fd).goTo position))
  | .read fd buffer len =>
    let m := min len ((files fd).size - (files fd).position)
    (⟨m, if m < len then some .eoverflow else none,
        some (patch buffer 0 (slice (files fd).bytes (files fd).position m))⟩,
      Function.update files fd ((files fd).goTo ((files fd).position + m)))

/-- The calls, one after the other. -/
def runOnPlain : (ι → PlainFile) → List (FileCall ι) → List FileReply × (ι → PlainFile)
  | files, [] => ([], files)
  | files, call :: calls =>
    let first := call.onPlain files
    let rest := runOnPlain first.2 calls
    (first.1 :: rest.1, rest.2)

/-- The lengths are those of buffers, and do not wrap behind the end of the file. -/
def FileCall.Allowed (sizes : ι → ℕ) : FileCall ι → Prop
  | .seek .. => True
  | .read fd _ len => len < 2 ^ 31 ∧ sizes fd + len < 2 ^ 32

end Plain

/-! ### The files are plain -/

section Refinement

variable {ι : Type} [DecidableEq ι] {F : Faults} {P : Partition} {card : ℕ → UInt8}
  {clusters : ι → List ℕ} {files : ι → FileStruct}

/-- What the files are, when `card` is seen. -/
def plainFiles (P : Partition) (card : ℕ → UInt8) (clusters : ι → List ℕ) (files : ι → FileStruct)
    (fd : ι) : PlainFile :=
  ⟨(files fd).filesize, P.fileByte card (clusters fd), (files fd).currentPosition⟩

/-- Another position of one file is another position of its plain file, and the others are not
touched. -/
theorem plainFiles_update (fd : ι) (position : ℕ) (rwPosition : FilePosition) :
    plainFiles P card clusters (Function.update files fd ((files fd).moveTo position rwPosition)) =
      Function.update (plainFiles P card clusters files) fd
        ((plainFiles P card clusters files fd).goTo position) := by
  funext fd'
  rw [plainFiles]
  by_cases hfd : fd' = fd
  · subst hfd
    rw [Function.update_self, Function.update_self]
    rfl
  · rw [Function.update_of_ne hfd, Function.update_of_ne hfd]
    rfl

/-- One of the files is at another position: all of them still have their sizes, their chains and
proper positions. -/
theorem files_moveTo (hfiles : ∀ fd, (files fd).Ok P card (clusters fd)) {fd : ι} {position : ℕ}
    {rwPosition : FilePosition} (hmoved : ((files fd).moveTo position rwPosition).Ok P card (clusters fd)) :
    (∀ fd', (Function.update files fd ((files fd).moveTo position rwPosition) fd').Ok P card
      (clusters fd')) ∧
    ∀ fd', (Function.update files fd ((files fd).moveTo position rwPosition) fd').filesize =
      (files fd').filesize := by
  constructor
  · intro fd'
    by_cases hfd : fd' = fd
    · subst hfd
      rw [Function.update_self]
      exact hmoved
    · rw [Function.update_of_ne hfd]
      exact hfiles fd'
  · intro fd'
    by_cases hfd : fd' = fd
    · subst hfd
      rw [Function.update_self]
      rfl
    · rw [Function.update_of_ne hfd]

/-- **One call** on the files of the card answers as on the plain files, and the positions agree
afterwards. -/
theorem FileCall.onFiles_sees (hreads : ∀ n, F.read n = none) (hP : P.Ok)
    (hfiles : ∀ fd, (files fd).Ok P card (clusters fd)) {call : FileCall ι}
    (hcall : call.Allowed fun fd => (files fd).filesize) :
    ∃ files', Sees F P card (call.onFiles F P files)
        ((call.onPlain (plainFiles P card clusters files)).1, files') ∧
      (∀ fd, (files' fd).Ok P card (clusters fd)) ∧
      plainFiles P card clusters files' = (call.onPlain (plainFiles P card clusters files)).2 ∧
      ∀ fd, (files' fd).filesize = (files fd).filesize := by
  cases call with
  | seek fd pos dir =>
    have hopen : ¬ ¬ (files fd).inUse = true := fun hc => hc (hfiles fd).inUse
    have hplain : newPosition (plainFiles P card clusters files fd).position
        (plainFiles P card clusters files fd).size pos dir =
        newPosition (files fd).currentPosition (files fd).filesize pos dir := rfl
    rw [FileCall.onFiles, FileCall.onPlain, hplain]
    cases hnew : newPosition (files fd).currentPosition (files fd).filesize pos dir with
    | error e =>
      -- nothing is changed
      have hseek : Sees F P card (fatSeek F P (files fd) pos dir) ⟨-1, some e, files fd⟩ := by
        rw [fatSeek, if_neg hopen, hnew]
        exact Observes.pure _
      refine ⟨_, hseek.bind (Observes.pure _), ?_⟩
      dsimp only
      rw [Function.update_eq_self]
      exact ⟨hfiles, rfl, fun _ => rfl⟩
    | ok position =>
      obtain ⟨rwPosition, hmoved, hseek⟩ := fatSeek_sees hreads hP (hfiles fd) hnew
      obtain ⟨hok, hsizes⟩ := files_moveTo hfiles hmoved
      refine ⟨_, Observes.bind hseek ?_, hok, plainFiles_update fd position rwPosition, hsizes⟩
      dsimp only
      exact Observes.pure _
  | read fd buffer len =>
    obtain ⟨rwPosition, hmoved, hread⟩ := fatRead_sees hreads hP (hfiles fd) buffer hcall.1 hcall.2 rfl
    obtain ⟨hok, hsizes⟩ := files_moveTo hfiles hmoved
    exact ⟨_, hread.bind (Observes.pure _), hok, plainFiles_update fd _ rwPosition, hsizes⟩

/-- **A run of calls** answers as on the plain files, by induction on the calls. -/
theorem runOnFiles_sees (hreads : ∀ n, F.read n = none) (hP : P.Ok) {calls : List (FileCall ι)}
    (hfiles : ∀ fd, (files fd).Ok P card (clusters fd))
    (hcalls : ∀ call ∈ calls, call.Allowed fun fd => (files fd).filesize) :
    ∃ files', Sees F P card (runOnFiles F P files calls)
        ((runOnPlain (plainFiles P card clusters files) calls).1, files') ∧
      plainFiles P card clusters files' = (runOnPlain (plainFiles P card clusters files) calls).2 := by
  induction calls generalizing files with
  | nil => exact ⟨files, Observes.pure _, rfl⟩
  | cons call calls ih =>
    rw [List.forall_mem_cons] at hcalls
    obtain ⟨files₁, hfirst, hok, hplain, hsizes⟩ := FileCall.onFiles_sees hreads hP hfiles hcalls.1
    obtain ⟨files₂, hrest, hend⟩ := ih hok (by simpa only [hsizes] using hcalls.2)
    rw [hplain] at hrest hend
    refine ⟨files₂, ?_, hend⟩
    rw [runOnFiles]
    exact hfirst.bind (hrest.bind (Observes.pure _))

/-- A new cache shows the card, and can be read though writes to the card may fail. -/
theorem cacheConstructor_readable (F : Faults) (P : Partition) (disc : Disc) (time : ℕ)
    {pages : List (ℕ → UInt8)} (hpages : 0 < pages.length) :
    (cacheConstructor disc time pages).Readable F P ∧
      (cacheConstructor disc time pages).view P.toCacheGeometry = disc.bytes := by
  have hclean : (cacheConstructor disc time pages).Clean := fun k =>
    (entry_cacheConstructor disc time pages k).dirty
  have hinv := cacheConstructor_inv (G := P.toCacheGeometry) disc time hpages
  exact ⟨⟨hinv, Or.inr hclean⟩, hinv.view_eq_disc hclean⟩

/-- **Files are plain.**  Over every run of seeks and reads, from a new cache over the card, every call
answers as on files that are bytes with a position, and the positions are then the same.  Writes to
the card may fail. -/
theorem files_refine_plain (hreads : ∀ n, F.read n = none) (hP : P.Ok) (disc : Disc) (time : ℕ)
    {pages : List (ℕ → UInt8)} (hpages : 0 < pages.length)
    (hfiles : ∀ fd, (files fd).Ok P disc.bytes (clusters fd)) {calls : List (FileCall ι)}
    (hcalls : ∀ call ∈ calls, call.Allowed fun fd => (files fd).filesize) :
    (runOnFiles F P files calls (cacheConstructor disc time pages)).1.1 =
        (runOnPlain (plainFiles P disc.bytes clusters files) calls).1 ∧
      plainFiles P disc.bytes clusters
          (runOnFiles F P files calls (cacheConstructor disc time pages)).1.2 =
        (runOnPlain (plainFiles P disc.bytes clusters files) calls).2 := by
  obtain ⟨hreadable, hview⟩ := cacheConstructor_readable F P disc time hpages
  obtain ⟨files', hsees, hend⟩ := runOnFiles_sees hreads hP hfiles hcalls
  rw [(hsees _ hreadable hview).1]
  exact ⟨rfl, hend⟩

/-! ### The reads of the game -/

/-- A read of the game: the file, where it starts, the buffer and the length. -/
structure CustomRead (ι : Type) where
  fd : ι
  offset : ℕ
  buffer : ℕ → UInt8
  length : ℕ

/-- What `custom_read_prio_impl` does with a file on the card. -/
def CustomRead.calls (request : CustomRead ι) : List (FileCall ι) :=
  [.seek request.fd request.offset .set, .read request.fd request.buffer request.length]

/-- What it is answered from a file of that size, with those bytes. -/
def CustomRead.replies (request : CustomRead ι) (size : ℕ) (bytes : ℕ → UInt8) : List FileReply :=
  let m := min request.length (size - request.offset)
  [⟨request.offset, none, none⟩,
    ⟨m, if m < request.length then some .eoverflow else none,
      some (patch request.buffer 0 (slice bytes request.offset m))⟩]

/-- The offset is an `s32`, and so is the length. -/
structure CustomRead.Allowed (request : CustomRead ι) (sizes : ι → ℕ) : Prop where
  offset : request.offset < 2 ^ 31
  length : request.length < 2 ^ 31
  fits : sizes request.fd + request.length < 2 ^ 32

/-- Two runs on plain files, one after the other, are one run: the replies follow each other, and
the second run starts with the positions that the first one leaves. -/
theorem runOnPlain_append (plain : ι → PlainFile) (calls calls' : List (FileCall ι)) :
    runOnPlain plain (calls ++ calls') =
      ((runOnPlain plain calls).1 ++ (runOnPlain (runOnPlain plain calls).2 calls').1,
        (runOnPlain (runOnPlain plain calls).2 calls').2) := by
  induction calls generalizing plain with
  | nil => rfl
  | cons call calls ih =>
    rw [List.cons_append, runOnPlain, ih]
    rfl

/-- One read answers from the file alone, and leaves the sizes and the bytes of all files. -/
theorem CustomRead.onPlain (plain : ι → PlainFile) {request : CustomRead ι}
    (hoffset : request.offset < 2 ^ 31) :
    (runOnPlain plain request.calls).1 =
        request.replies (plain request.fd).size (plain request.fd).bytes ∧
      ∀ fd, ((runOnPlain plain request.calls).2 fd).size = (plain fd).size ∧
        ((runOnPlain plain request.calls).2 fd).bytes = (plain fd).bytes := by
  have hnew : newPosition (plain request.fd).position (plain request.fd).size request.offset .set =
      .ok request.offset := by
    simp only [newPosition]
    rw [if_neg (by omega), if_neg (by omega), Int.toNat_natCast]
  have hret : (request.offset : ℤ).bmod (2 ^ 32) = request.offset :=
    Int.bmod_eq_of_le (by omega) (by omega)
  have hseek : FileCall.onPlain plain (.seek request.fd request.offset .set) =
      (⟨request.offset, none, none⟩,
        Function.update plain request.fd ((plain request.fd).goTo request.offset)) := by
    rw [FileCall.onPlain, hnew, ← hret]
  rw [CustomRead.calls, runOnPlain, hseek, runOnPlain]
  refine ⟨?_, fun fd => ?_⟩
  · simp [FileCall.onPlain, runOnPlain, CustomRead.replies]
  · by_cases hfd : fd = request.fd
    · simp [FileCall.onPlain, runOnPlain, hfd]
    · simp [FileCall.onPlain, runOnPlain, hfd]

/-- Any number of reads of the game, each a seek and a read, on plain files: each is answered from
the bytes of its own file alone. -/
theorem customReads_onPlain (plain : ι → PlainFile) {requests : List (CustomRead ι)}
    (hrequests : ∀ request ∈ requests, request.offset < 2 ^ 31) :
    (runOnPlain plain (requests.flatMap CustomRead.calls)).1 =
      requests.flatMap fun request =>
        request.replies (plain request.fd).size (plain request.fd).bytes := by
  induction requests generalizing plain with
  | nil => rfl
  | cons request requests ih =>
    rw [List.forall_mem_cons] at hrequests
    obtain ⟨hfirst, hsame⟩ := CustomRead.onPlain plain hrequests.1
    rw [List.flatMap_cons, List.flatMap_cons, runOnPlain_append]
    dsimp only
    rw [hfirst, ih _ hrequests.2]
    simp only [hsame]

/-- **The reads of the game do not depend on each other.**  Each is answered with the bytes of its
own file from its offset on, whatever was read before. -/
theorem game_reads_independent (hreads : ∀ n, F.read n = none) (hP : P.Ok) (disc : Disc) (time : ℕ)
    {pages : List (ℕ → UInt8)} (hpages : 0 < pages.length)
    (hfiles : ∀ fd, (files fd).Ok P disc.bytes (clusters fd)) {requests : List (CustomRead ι)}
    (hrequests : ∀ request ∈ requests, request.Allowed fun fd => (files fd).filesize) :
    (runOnFiles F P files (requests.flatMap CustomRead.calls)
        (cacheConstructor disc time pages)).1.1 =
      requests.flatMap fun request =>
        request.replies (files request.fd).filesize (P.fileByte disc.bytes (clusters request.fd)) := by
  have hcalls : ∀ call ∈ requests.flatMap CustomRead.calls,
      call.Allowed fun fd => (files fd).filesize := by
    intro call hcall
    obtain ⟨request, hrequest, hmem⟩ := List.mem_flatMap.mp hcall
    have hallowed := hrequests request hrequest
    rw [CustomRead.calls, List.mem_pair] at hmem
    rcases hmem with rfl | rfl
    · exact trivial
    · exact ⟨hallowed.length, hallowed.fits⟩
  obtain ⟨hreadable, hview⟩ := cacheConstructor_readable F P disc time hpages
  obtain ⟨files', hsees, -⟩ := runOnFiles_sees hreads hP hfiles hcalls
  rw [(hsees _ hreadable hview).1,
    customReads_onPlain _ fun request hrequest => (hrequests request hrequest).offset]
  rfl

end Refinement

/-! ### A file in three places -/

/-- A partition of sixteen bits, with clusters of two sectors: a sector with the table, and the data
from the fourth sector on. -/
def coursePartition : Partition where
  toCacheGeometry := hundredSectors
  filesysType := .fat16
  fatStart := 1
  lastCluster := 40
  rootDirStart := 2
  dataStart := 4
  sectorsPerCluster := 2

/-- The clusters 2, 4 and 3 are a chain, in this order. -/
def cardOfCourse : Disc where
  bytes a :=
    if a = 516 then 4 else if a = 520 then 3
    else if a = 518 then 0xFF else if a = 519 then 0xFF
    else if 2048 ≤ a then UInt8.ofNat (a / 512) else 0
  reads := 0
  writes := 0

/-- The file, which does not fill its last cluster. -/
def courseFile : FileStruct := ⟨2500, 2, 0, ⟨2, 0, 0⟩, true, true⟩

/-- The volume of the example has a table and clusters that end in the partition. -/
theorem coursePartition_ok : coursePartition.Ok where
  sectors := rfl
  cluster := by decide
  size := by decide
  last := by decide
  known := FsType.noConfusion
  table cluster hcluster := by
    have hlast : coursePartition.lastCluster = 40 := rfl
    show 1 * 512 + cluster * 2 + 2 ≤ 100 * 512
    omega
  data := by decide

/-- In its table the cluster 2 is followed by 4, that by 3, and 3 is the last. -/
theorem cardOfCourse_chain : coursePartition.Chain cardOfCourse.bytes [2, 4, 3] :=
  ⟨by decide, by decide, by decide⟩

/-- The file of the example is open at its beginning, and its chain has the three clusters that 2500
bytes need. -/
theorem courseFile_ok : courseFile.Ok coursePartition cardOfCourse.bytes [2, 4, 3] where
  inUse := rfl
  read := rfl
  content := by
    refine Or.inr ⟨cardOfCourse_chain, rfl, by decide, fun _ => ⟨0, ⟨?_, by decide⟩⟩⟩
    exact ⟨by decide, rfl, rfl, by decide, by decide, fun _ => rfl⟩

/-- A read across all three clusters, and one past the end, after a seek back. -/
theorem files_refine_plain_course :
    (runOnFiles noFaults coursePartition (fun _ : Unit => courseFile)
        [.seek () 1000 .set, .read () (fun _ => 0) 1400, .seek () (-400) .cur,
          .read () (fun _ => 0) 600]
        (cacheConstructor cardOfCourse 0 [fun _ => 0])).1.1 =
        (runOnPlain (plainFiles coursePartition cardOfCourse.bytes (fun _ => [2, 4, 3]) fun _ => courseFile)
          [.seek () 1000 .set, .read () (fun _ => 0) 1400, .seek () (-400) .cur,
            .read () (fun _ => 0) 600]).1 ∧
      plainFiles coursePartition cardOfCourse.bytes (fun _ => [2, 4, 3])
          (runOnFiles noFaults coursePartition (fun _ : Unit => courseFile)
            [.seek () 1000 .set, .read () (fun _ => 0) 1400, .seek () (-400) .cur,
              .read () (fun _ => 0) 600]
            (cacheConstructor cardOfCourse 0 [fun _ => 0])).1.2 =
        (runOnPlain (plainFiles coursePartition cardOfCourse.bytes (fun _ => [2, 4, 3]) fun _ => courseFile)
          [.seek () 1000 .set, .read () (fun _ => 0) 1400, .seek () (-400) .cur,
            .read () (fun _ => 0) 600]).2 :=
  files_refine_plain (fun _ => rfl) coursePartition_ok cardOfCourse 0 (by simp) (fun _ => courseFile_ok)
    (by simp [FileCall.Allowed, courseFile])

/-- The bytes of the course, as the game reads them: two reads that overlap and go over the borders
of its clusters. -/
theorem game_reads_independent_course :
    (runOnFiles noFaults coursePartition (fun _ : Unit => courseFile)
        ([⟨(), 1000, fun _ => 0, 1400⟩, ⟨(), 2000, fun _ => 0, 600⟩].flatMap CustomRead.calls)
        (cacheConstructor cardOfCourse 0 [fun _ => 0])).1.1 =
      [CustomRead.mk () 1000 (fun _ => 0) 1400, ⟨(), 2000, fun _ => 0, 600⟩].flatMap fun request =>
        request.replies courseFile.filesize (coursePartition.fileByte cardOfCourse.bytes [2, 4, 3]) :=
  game_reads_independent (fun _ => rfl) coursePartition_ok cardOfCourse 0 (by simp)
    (fun _ => courseFile_ok) (fun request hrequest => by
      rw [List.mem_pair] at hrequest
      rcases hrequest with rfl | rfl
      · exact ⟨by simp, by simp, by simp [courseFile]⟩
      · exact ⟨by simp, by simp, by simp [courseFile]⟩)

end RrLauncher
