/-
# The files of a folder patch

`_rrc_riivo_handle_folder_patch` builds the path of each entry from that of its folder, in
a buffer that it measures for this, and lowers it each time.  Since joining paths is
associative and lowering goes through it, what is registered for a file is the path from
the prefix over all folders on the way (`folder_patch_registers`).
-/

import RrLauncher.Lib.Paths
import RrLauncher.Loader.Walk

namespace RrLauncher

open CStr (lit)

/-! ### The files of a tree -/

mutual

/-- The regular files of a tree in the order of `readdir`, each as the names of the folders on
the way and its own name. -/
def Dir.files : Dir → List (List CStr)
  | .failed _ => []
  | .opened entries => filesOfEntries entries

/-- The files of the entries of a folder. -/
def filesOfEntries : List Dirent → List (List CStr)
  | [] => []
  | entry :: rest => entry.files ++ filesOfEntries rest

/-- The files of an entry. -/
def Dirent.files : Dirent → List (List CStr)
  | .reg name => if isDots name then [] else [[name]]
  | .dir name below => if isDots name then [] else below.files.map (name :: ·)
  | .other _ => []

end

/-- The files that a patch is for: all of the tree, or those at depth one. -/
def Dir.filesIn (dir : Dir) (recursive : Bool) : List (List CStr) :=
  if recursive then dir.files else dir.files.filter (·.length = 1)

mutual

/-- Every `opendir` succeeds in this folder, at every depth. -/
def Dir.Opens : Dir → Prop
  | .failed _ => False
  | .opened entries => EntriesOpen entries

/-- Every `opendir` below the entries succeeds. -/
def EntriesOpen : List Dirent → Prop
  | [] => True
  | entry :: rest => entry.Opens ∧ EntriesOpen rest

/-- Every `opendir` below an entry succeeds. -/
def Dirent.Opens : Dirent → Prop
  | .reg _ => True
  | .dir name below => isDots name = false → below.Opens
  | .other _ => True

end

/-! ### Paths -/

/-- One path after the other, with one slash between them. -/
def joinPaths (left right : CStr) : CStr :=
  ⟨Paths.join slash left.bytes right.bytes, fun h => by
    rcases Paths.mem_join slash h with hleft | hslash | hright
    · exact left.noNul hleft
    · cases hslash
    · exact right.noNul hright⟩

/-- On the bytes, joining two paths is the general join of path components at slashes, which drops a
slash that both sides have and adds one where neither has it. -/
theorem joinPaths_bytes (left right : CStr) :
    (joinPaths left right).bytes = Paths.join slash left.bytes right.bytes := rfl

/-- The path of a file below the folder of a patch. -/
def relativePath (names : List CStr) : CStr := names.foldr joinPaths (lit "")

/-- The registration of a file. -/
def registered (discPath externalPath : CStr) (names : List CStr) : LoaderStep :=
  .file ⟨(joinPaths discPath (relativePath names)).lower,
    (joinPaths externalPath (relativePath names)).lower, false⟩

/-- Joining paths is associative, so the path of a file far down in a folder does not depend on the
order in which the walk put its components together. -/
theorem joinPaths_assoc (a b c : CStr) :
    joinPaths (joinPaths a b) c = joinPaths a (joinPaths b c) :=
  CStr.ext (Paths.join_assoc slash a.bytes b.bytes c.bytes)

/-- An empty path behind another one leaves it as it is: no slash is added for a component that is
not there. -/
theorem joinPaths_empty (path : CStr) : joinPaths path (lit "") = path :=
  CStr.ext (Paths.join_nil slash path.bytes)

/-- An empty path in front of another one leaves it as it is, as for a folder patch that has no disc
prefix. -/
theorem empty_joinPaths (path : CStr) : joinPaths (lit "") path = path :=
  CStr.ext (Paths.nil_join slash path.bytes)

/-- Lower-casing a joined path lower-cases its two parts, since the slash between them has no case.
So the walk may lower the prefix once and each name as it comes. -/
theorem lower_joinPaths (a b : CStr) : (joinPaths a b).lower = joinPaths a.lower b.lower :=
  CStr.ext (Paths.map_join slash (fun _ => tolower_eq_slash) a.bytes b.bytes)

/-- A path in lower case stays as it is when it is lowered again, as happens to the prefix of a
folder in each level of the recursion. -/
theorem lower_lower (s : CStr) : s.lower.lower = s.lower := by
  ext1
  rw [CStr.lower_bytes, CStr.lower_bytes, List.map_map]
  exact List.map_congr_left fun c _ => CStr.tolower_tolower c

/-- A join fits in a buffer for both paths, a slash and the NUL. -/
theorem joinPaths_len_lt (path name : CStr) : (joinPaths path name).len < path.len + name.len + 2 :=
  Nat.lt_succ_of_le (Paths.length_join_le slash path.bytes name.bytes)

/-- The first byte that the code reads of a string is the NUL at its end exactly if the string is
empty. -/
theorem first_eq_zero_iff (s : CStr) : s.first = 0 ↔ s.bytes = [] := by
  rw [CStr.first]
  cases hs : s.bytes with
  | nil => exact iff_of_true rfl rfl
  | cons c rest =>
    have hc : c ≠ 0 := fun h => s.noNul (hs ▸ h ▸ List.mem_cons_self)
    exact iff_of_false hc (List.cons_ne_nil c rest)

/-- Skipping the slash in front of a path gives, on the bytes, the general relative form of that
path. -/
theorem skipSlash_bytes (path : CStr) : (skipSlash path).bytes = Paths.relative slash path.bytes := by
  rw [skipSlash, Paths.relative]
  by_cases h : path.first = slash
  · rw [if_pos h, if_pos ((CStr.first_eq_iff (by decide)).mp h)]
    rfl
  · rw [if_neg h, if_neg (mt (CStr.first_eq_iff (by decide)).mpr h)]

/-- **What `_rrc_riivo_combine_paths` leaves in a buffer that is large enough**: the join,
lowered. -/
theorem rrcRiivoCombinePaths_eq {left right : CStr} {outSz : ℕ}
    (h : (joinPaths left right).len < outSz) :
    rrcRiivoCombinePaths left right outSz = (joinPaths left right).lower := by
  have htake : ∀ {s : CStr} {n : ℕ}, s.len ≤ n → s.take n = s := fun hn =>
    CStr.ext (List.take_of_length_le hn)
  rw [rrcRiivoCombinePaths]
  by_cases hleft : left.bytes = []
  · have hjoin : joinPaths left right = right := by
      ext1
      rw [joinPaths_bytes, hleft, Paths.nil_join]
    rw [hjoin] at h ⊢
    rw [if_pos ((first_eq_zero_iff left).mpr hleft), htake h.le]
  by_cases hright : right.bytes = []
  · have hjoin : joinPaths left right = left := by
      ext1
      rw [joinPaths_bytes, hright, Paths.join_nil]
    rw [hjoin] at h ⊢
    rw [if_neg (mt (first_eq_zero_iff left).mp hleft), if_pos ((first_eq_zero_iff right).mpr hright),
      htake h.le]
  · have hjoin : left ++ (if left.bytes.getLast? = some slash then lit "" else lit "/") ++
        (if right.first = slash then right.advance else right) = joinPaths left right := by
      ext1
      rw [joinPaths_bytes, Paths.join_of_ne_nil slash hleft hright]
      refine congrArg₂ (· ++ ·) ?_ ?_
      · show left.bytes ++ CStr.bytes (if _ then _ else _) = Paths.folder slash left.bytes
        rw [Paths.folder]
        split
        · exact List.append_nil _
        · rfl
      · exact skipSlash_bytes right
    rw [if_neg (mt (first_eq_zero_iff left).mp hleft), if_neg (mt (first_eq_zero_iff right).mp hright)]
    dsimp only
    rw [hjoin, CStr.fit, htake (Nat.le_sub_one_of_lt h)]

/-- The path of an entry is not cut: the buffer has room for both parts, a slash between them and
the NUL. -/
theorem entryPath_eq (path name : CStr) : entryPath path name = (joinPaths path name).lower :=
  rrcRiivoCombinePaths_eq (joinPaths_len_lt path name)

/-- From an entry on the path goes on as from the folder. -/
theorem lower_joinPaths_entryPath (path name rest : CStr) :
    (joinPaths (entryPath path name) rest).lower = (joinPaths path (joinPaths name rest)).lower := by
  rw [entryPath_eq, lower_joinPaths, lower_lower, ← lower_joinPaths, joinPaths_assoc]

/-- The registration of a file below a folder, seen from above that folder: its name goes to the
front of the names that lead to the file, with the same disc and external path. -/
theorem registered_cons (discPath externalPath name : CStr) (names : List CStr) :
    registered (entryPath discPath name) (entryPath externalPath name) names =
      registered discPath externalPath (name :: names) := by
  rw [registered, lower_joinPaths_entryPath, lower_joinPaths_entryPath]
  rfl

/-- A file that lies directly in the folder is registered under its own entry paths, of which both
are in lower case, the one on the card too. -/
theorem registered_singleton (discPath externalPath name : CStr) :
    registered discPath externalPath [name] =
      .file ⟨entryPath discPath name, entryPath externalPath name, false⟩ := by
  rw [registered, entryPath_eq, entryPath_eq, relativePath, List.foldr_cons, List.foldr_nil,
    joinPaths_empty]

/-! ### The walk -/

section Walk

mutual

/-- **A recursive walk** registers every file of the tree, each once, and ends without an error, if
every folder can be opened. -/
theorem folderPatch_recursive (discPath externalPath : CStr) (dir : Dir) (h : dir.Opens) :
    rrcRiivoHandleFolderPatch discPath externalPath true dir =
      ⟨dir.files.map (registered discPath externalPath), none⟩ := by
  match dir with
  | .failed errno => exact absurd h (by rw [Dir.Opens]; exact not_false)
  | .opened entries =>
    rw [Dir.Opens] at h
    rw [rrcRiivoHandleFolderPatch, Dir.files]
    exact folderEntries_recursive discPath externalPath entries h

/-- A recursive walk over a list of directory entries, all of which can be opened, registers every
file below them, in the order of the walk, and ends without an error. -/
theorem folderEntries_recursive (discPath externalPath : CStr) (entries : List Dirent)
    (h : EntriesOpen entries) :
    folderEntries discPath externalPath true entries =
      ⟨(filesOfEntries entries).map (registered discPath externalPath), none⟩ := by
  match entries with
  | [] =>
    rw [folderEntries, filesOfEntries]
    rfl
  | entry :: rest =>
    rw [EntriesOpen] at h
    rw [folderEntries, filesOfEntries, folderEntry_recursive discPath externalPath entry h.1,
      folderEntries_recursive discPath externalPath rest h.2, Trace.seq, List.map_append]

/-- The same for one entry: a file registers itself, and a folder registers the files below it. The
two lemmas are proved together along the tree. -/
theorem folderEntry_recursive (discPath externalPath : CStr) (entry : Dirent) (h : entry.Opens) :
    folderEntry discPath externalPath true entry =
      ⟨entry.files.map (registered discPath externalPath), none⟩ := by
  match entry with
  | .reg name =>
    rw [folderEntry, Dirent.files]
    split
    · rfl
    · rw [List.map_singleton, registered_singleton]
      rfl
  | .dir name below =>
    rw [Dirent.Opens] at h
    rw [folderEntry, Dirent.files]
    split
    · rfl
    · rename_i hdots
      rw [if_pos rfl, folderPatch_recursive _ _ below (h (Bool.eq_false_iff.mpr hdots)), List.map_map]
      congr 1
      exact List.map_congr_left fun names _ => registered_cons discPath externalPath name names
  | .other name =>
    rw [folderEntry, Dirent.files]
    rfl

end

mutual

/-- The way from a folder to a file of it has at least one name, the file's own. So no registration
is for the folder itself. -/
theorem ne_nil_of_mem_files (dir : Dir) : ∀ names ∈ dir.files, names ≠ [] := by
  match dir with
  | .failed errno =>
    rw [Dir.files]
    exact fun names h => absurd h List.not_mem_nil
  | .opened entries =>
    rw [Dir.files]
    exact ne_nil_of_mem_filesOfEntries entries

/-- The same for the files below a list of entries. -/
theorem ne_nil_of_mem_filesOfEntries (entries : List Dirent) :
    ∀ names ∈ filesOfEntries entries, names ≠ [] := by
  match entries with
  | [] =>
    rw [filesOfEntries]
    exact fun names h => absurd h List.not_mem_nil
  | entry :: rest =>
    rw [filesOfEntries]
    intro names h
    rcases List.mem_append.mp h with hentry | hrest
    · exact ne_nil_of_mem_filesOfEntry entry names hentry
    · exact ne_nil_of_mem_filesOfEntries rest names hrest

/-- The same for the files below one entry, which for a folder have the folder's name in front. -/
theorem ne_nil_of_mem_filesOfEntry (entry : Dirent) : ∀ names ∈ entry.files, names ≠ [] := by
  intro names h
  match entry with
  | .reg name =>
    rw [Dirent.files] at h
    split at h
    · cases h
    · rw [List.mem_singleton.mp h]
      exact List.cons_ne_nil _ _
  | .dir name below =>
    rw [Dirent.files] at h
    split at h
    · cases h
    · obtain ⟨names', -, rfl⟩ := List.mem_map.mp h
      exact List.cons_ne_nil _ _
  | .other name =>
    rw [Dirent.files] at h
    cases h

end

/-- **A walk that is not recursive** registers the files of the folder itself. -/
theorem folderEntries_flat (discPath externalPath : CStr) (entries : List Dirent) :
    folderEntries discPath externalPath false entries =
      ⟨((filesOfEntries entries).filter (·.length = 1)).map (registered discPath externalPath),
        none⟩ := by
  induction entries with
  | nil =>
    rw [folderEntries, filesOfEntries]
    rfl
  | cons entry rest ih =>
    have hentry : folderEntry discPath externalPath false entry =
        ⟨(entry.files.filter (·.length = 1)).map (registered discPath externalPath), none⟩ := by
      cases entry with
      | reg name =>
        rw [folderEntry, Dirent.files]
        split
        · rfl
        · exact congrArg (Trace.mk [·] none) (registered_singleton discPath externalPath name).symm
      | dir name below =>
        rw [folderEntry, Dirent.files]
        split
        · rfl
        · -- what is in a folder below is deeper than one
          have hdeep : (below.files.map (name :: ·)).filter (·.length = 1) = [] := by
            rw [List.filter_eq_nil_iff]
            intro names hnames
            obtain ⟨names', hmem, rfl⟩ := List.mem_map.mp hnames
            simpa using ne_nil_of_mem_files below names' hmem
          rw [if_neg Bool.false_ne_true, hdeep]
          rfl
      | other name =>
        rw [folderEntry, Dirent.files]
        rfl
    rw [folderEntries, filesOfEntries, hentry, ih, Trace.seq, List.filter_append, List.map_append]

/-- **A folder patch registers the files of the tree**, each once and in the order of
`readdir`, under the paths from the prefixes on; no path is cut, and none has a slash twice
where a prefix ends with one. -/
theorem folder_patch_registers (discPath externalPath : CStr) (recursive : Bool) {dir : Dir}
    (hopens : dir.Opens) :
    rrcRiivoHandleFolderPatch discPath externalPath recursive dir =
        ⟨(dir.filesIn recursive).map (registered discPath externalPath), none⟩ ∧
      (∀ path name : CStr, entryPath path name = (joinPaths path name).lower ∧
        (joinPaths path name).len + 1 ≤ path.len + name.len + 2) ∧
      (∀ path, joinPaths (lit "") path = path) ∧
      ∀ left right : CStr, left.bytes.getLast? = some slash → ¬ [slash, slash] <+: right.bytes →
        ∃ rest, (joinPaths left right).bytes = left.bytes ++ rest ∧ rest.head? ≠ some slash := by
  refine ⟨?_, fun path name => ⟨entryPath_eq path name, joinPaths_len_lt path name⟩,
    empty_joinPaths, fun left right hleft hright => ?_⟩
  · cases recursive with
    | true => exact folderPatch_recursive discPath externalPath dir hopens
    | false =>
      cases dir with
      | failed errno => exact absurd hopens (by rw [Dir.Opens]; exact not_false)
      | opened entries =>
        rw [rrcRiivoHandleFolderPatch, Dir.filesIn, if_neg Bool.false_ne_true, Dir.files]
        exact folderEntries_flat discPath externalPath entries
  · exact ⟨_, Paths.join_of_getLast? slash hleft, Paths.head?_relative slash hright⟩

/-- A folder with a file, a folder and what `readdir` lists besides. -/
def smallTree : Dir :=
  .opened [.dir (lit ".") (.failed 0), .reg (lit "A.szs"), .other (lit "link"),
    .dir (lit "Sub") (.opened [.reg (lit "B.BRSTM")])]

/-- A folder with one file and one folder below it, whose disc prefix has upper-case letters and
ends in a slash: the two files are registered in the order of the walk under lower-case disc paths.
-/
theorem folder_patch_registers_small :
    rrcRiivoHandleFolderPatch (lit "/Race/") (lit "/RR") true smallTree =
      ⟨[.file ⟨lit "/race/a.szs", lit "/rr/a.szs", false⟩,
        .file ⟨lit "/race/sub/b.brstm", lit "/rr/sub/b.brstm", false⟩], none⟩ := by
  have hdots : isDots (lit ".") = true := by decide
  have hopens : smallTree.Opens := by simp [smallTree, Dir.Opens, EntriesOpen, Dirent.Opens, hdots]
  exact (folder_patch_registers (lit "/Race/") (lit "/RR") true hopens).1.trans rfl

end Walk

end RrLauncher
