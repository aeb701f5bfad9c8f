/-
# AppleDouble files in a folder patch

`_rrc_riivo_handle_file_patch` ignores a file whose disc path begins with `._`.  A folder
patch gives it the path from the disc prefix on, so a file of that name is ignored only
where the first component of this path begins so: below a disc prefix, or in a folder of
another name, it is registered as any other (`apple_double_ignored_iff`).
-/

import RrLauncher.Loader.FolderPatch
import RrLauncher.Runtime.LastWins
import Mathlib.Data.List.Infix

namespace RrLauncher

open CStr (lit)

/-! ### The files that are reached -/

mutual

/-- The files that a walk reaches, up to the first folder that cannot be opened, each as the
names of the folders on the way and its own name. -/
def Dir.walked (recursive : Bool) : Dir → Trace RrcResultError (List CStr)
  | .failed errno => .fail (rrcResultCreateErrorErrno errno "Failed to open folder")
  | .opened entries => entriesWalked recursive entries

/-- The files that are reached from the entries of a folder. -/
def entriesWalked (recursive : Bool) : List Dirent → Trace RrcResultError (List CStr)
  | [] => .done
  | entry :: rest => (entry.walked recursive).seq (entriesWalked recursive rest)

/-- The files that are reached from an entry. -/
def Dirent.walked (recursive : Bool) : Dirent → Trace RrcResultError (List CStr)
  | .reg name => if isDots name then .done else .emit [name]
  | .dir name below =>
    if isDots name then .done
    else if recursive then (below.walked true).map (name :: ·)
    else .done
  | .other _ => .done

end

mutual

/-- **The walk over a folder** registers the files that it reaches. -/
theorem folderPatch_walked (discPath externalPath : CStr) (recursive : Bool) (dir : Dir) :
    rrcRiivoHandleFolderPatch discPath externalPath recursive dir =
      (dir.walked recursive).map (registered discPath externalPath) := by
  match dir with
  | .failed errno =>
    rw [rrcRiivoHandleFolderPatch, Dir.walked]
    rfl
  | .opened entries =>
    rw [rrcRiivoHandleFolderPatch, Dir.walked]
    exact folderEntries_walked discPath externalPath recursive entries

/-- The registrations of a list of entries, as the images of the names that the walk goes through.
-/
theorem folderEntries_walked (discPath externalPath : CStr) (recursive : Bool)
    (entries : List Dirent) :
    folderEntries discPath externalPath recursive entries =
      (entriesWalked recursive entries).map (registered discPath externalPath) := by
  match entries with
  | [] =>
    rw [folderEntries, entriesWalked]
    rfl
  | entry :: rest =>
    rw [folderEntries, entriesWalked, Trace.map_seq,
      folderEntry_walked discPath externalPath recursive entry,
      folderEntries_walked discPath externalPath recursive rest]

/-- The registrations of one entry, as the images of the names that the walk goes through. -/
theorem folderEntry_walked (discPath externalPath : CStr) (recursive : Bool) (entry : Dirent) :
    folderEntry discPath externalPath recursive entry =
      (entry.walked recursive).map (registered discPath externalPath) := by
  match entry with
  | .reg name =>
    rw [folderEntry, Dirent.walked]
    split
    · rfl
    · exact congrArg Trace.emit (registered_singleton discPath externalPath name).symm
  | .dir name below =>
    rw [folderEntry, Dirent.walked]
    split
    · rfl
    split
    · rw [folderPatch_walked _ _ true below, Trace.map_map]
      exact congrArg (Trace.map · _)
        (funext fun names => registered_cons discPath externalPath name names)
    · rfl
  | .other name =>
    rw [folderEntry, Dirent.walked]
    rfl

end

/-! ### Paths that begin with `._` -/

/-- Neither of the two bytes that the filter looks at has a case, so it does not matter whether a
path was lowered before. -/
theorem isAppleDouble_lower (path : CStr) : isAppleDouble path.lower ↔ isAppleDouble path := by
  have hdot : ∀ c : UInt8, CStr.tolower c = 46 ↔ c = 46 := fun c =>
    CStr.tolower_eq_iff (Or.inl (by decide))
  have hline : ∀ c : UInt8, CStr.tolower c = 95 ↔ c = 95 := fun c =>
    CStr.tolower_eq_iff (Or.inr (by decide))
  rw [isAppleDouble, isAppleDouble, CStr.first, CStr.second, CStr.first, CStr.second,
    CStr.lower_bytes]
  rcases path.bytes with _ | ⟨c, _ | ⟨d, rest⟩⟩
  · exact Iff.rfl
  · exact and_congr (hdot c) Iff.rfl
  · exact and_congr (hdot c) (hline d)

/-- A join begins with `._` where its left side does. -/
theorem isAppleDouble_joinPaths {left : CStr} (hleft : left.bytes ≠ []) (right : CStr) :
    isAppleDouble (joinPaths left right) ↔ isAppleDouble left := by
  by_cases hright : right.bytes = []
  · have hjoin : joinPaths left right = left :=
      CStr.ext ((congrArg _ hright).trans (Paths.join_nil slash left.bytes))
    rw [hjoin]
  · rw [isAppleDouble, isAppleDouble, CStr.first, CStr.second, CStr.first, CStr.second,
      joinPaths_bytes, Paths.join_of_ne_nil slash hleft hright, Paths.folder]
    rcases hbytes : left.bytes with _ | ⟨c, _ | ⟨d, rest⟩⟩
    · exact absurd hbytes hleft
    · -- the second byte is a slash, if the first one is not
      by_cases hc : c = slash
      · have hlast : [c].getLast? = some slash := congrArg some hc
        have hfirst : c ≠ 46 := hc ▸ by decide
        rw [if_pos hlast]
        exact iff_of_false (fun h => hfirst h.1) (fun h => hfirst h.1)
      · have hlast : [c].getLast? ≠ some slash := fun h => hc (Option.some.inj h)
        rw [if_neg hlast]
        exact iff_of_false (fun h => absurd h.2 (by decide : (slash : UInt8) ≠ 95))
          (fun h => absurd h.2 (by decide : (0 : UInt8) ≠ 95))
    · split
      · exact Iff.rfl
      · exact Iff.rfl

/-- **The first of the components of a path that is not empty** begins with `._`. -/
def BeginsAppleDouble (components : List CStr) : Prop :=
  ∃ c, components.find? (fun c => c.bytes ≠ []) = some c ∧ isAppleDouble c

/-- A path begins with `._` where the first of its components does. -/
theorem isAppleDouble_relativePath (components : List CStr) :
    isAppleDouble (relativePath components) ↔ BeginsAppleDouble components := by
  induction components with
  | nil =>
    refine iff_of_false (by decide) ?_
    rintro ⟨c, hfind, -⟩
    cases hfind
  | cons c rest ih =>
    rw [relativePath, List.foldr_cons, BeginsAppleDouble]
    by_cases hc : c.bytes = []
    · have hempty : c = lit "" := CStr.ext hc
      rw [List.find?_cons_of_neg (by simpa using hc), hempty, empty_joinPaths]
      exact ih
    · rw [List.find?_cons_of_pos (by simpa using hc), isAppleDouble_joinPaths hc]
      refine ⟨fun h => ⟨c, rfl, h⟩, ?_⟩
      rintro ⟨c', hsome, h⟩
      exact Option.some.inj hsome ▸ h

/-- The name of a file that is reached. -/
def OwnAppleDouble (names : List CStr) : Prop := ∃ name, names.getLast? = some name ∧ isAppleDouble name

/-- A path ends with the name of its file, where this begins with `._`. -/
theorem isSuffix_relativePath {components : List CStr} {name : CStr}
    (hlast : components.getLast? = some name) (hname : isAppleDouble name) :
    name.bytes <:+ (relativePath components).bytes := by
  have hhead : name.bytes.head? ≠ some slash := by
    intro h
    have hslash := (CStr.first_eq_iff (by decide)).mpr h
    rw [hname.1] at hslash
    exact absurd hslash (by decide)
  induction components with
  | nil => cases hlast
  | cons c rest ih =>
    rw [relativePath, List.foldr_cons]
    cases rest with
    | nil =>
      rw [List.getLast?_singleton, Option.some.injEq] at hlast
      rw [List.foldr_nil, joinPaths_empty, hlast]
    | cons d rest =>
      exact Paths.suffix_join slash hhead (ih (by rwa [List.getLast?_cons_cons] at hlast)) c.bytes

/-- A file of such a name is never taken for `main.dol`. -/
theorem not_isMainDol_relativePath {components : List CStr}
    (hlast : OwnAppleDouble components) : ¬ isMainDol (relativePath components).lower := by
  obtain ⟨name, hlast, hname⟩ := hlast
  intro hmain
  have hsuffix : name.lower.bytes <:+ (lit "main.dol").bytes := by
    rw [← hmain]
    exact (isSuffix_relativePath hlast hname).map CStr.tolower
  have hnone : ∀ s ∈ (lit "main.dol").bytes.tails, ¬ (s.headD 0 = 46 ∧ s.tail.headD 0 = 95) := by
    decide
  exact hnone _ ((List.mem_tails _ _).mpr hsuffix) ((isAppleDouble_lower name).mpr hname)

/-! ### What a call adds -/

/-- The table for the disc path of a registration leads from it to its external path. -/
def PatchTables.Gives (t : PatchTables) (r : Registration) : Prop :=
  externalOf t.sdFiles (if r.discPath.first = slash then t.replacements else t.filenameReplacements)
    (skipSlash r.discPath) = some r.externalPath

/-- **A call adds an entry** where the tables change, or where its replacement stands in them
afterwards, which may be in the place of an equal one. -/
def AddsEntry (onCard : CStr → Bool) (t : PatchTables) (r : Registration) : Prop :=
  (rrcRiivoHandleFilePatch onCard t r).sdFiles ≠ t.sdFiles ∨
    (rrcRiivoHandleFilePatch onCard t r).replacements ≠ t.replacements ∨
    (rrcRiivoHandleFilePatch onCard t r).filenameReplacements ≠ t.filenameReplacements ∨
    (rrcRiivoHandleFilePatch onCard t r).Gives r

/-- What takes effect is no AppleDouble file, by the test of the source, in whatever order the
registrations come. -/
theorem not_isAppleDouble_of_mem_effective {onCard : CStr → Bool} {regs : List Registration} :
    ∀ r ∈ effective onCard regs, ¬ isAppleDouble r.discPath := by
  induction regs using List.reverseRecOn with
  | nil => exact fun r hr => absurd hr List.not_mem_nil
  | append_singleton regs r ih =>
    rw [effective_concat]
    split
    · rename_i htakes
      intro b hb
      rcases List.mem_append.mp hb with hold | hnew
      · exact ih b hold
      · exact List.mem_singleton.mp hnew ▸ htakes.2.1
    · exact ih

/-- A path that the filter takes away starts with a dot, and so with no slash. -/
theorem isAppleDouble_first {path : CStr} (h : isAppleDouble path) : path.first ≠ slash :=
  h.1 ▸ by decide

section Agrees

variable {onCard : CStr → Bool} {eff : List Registration} {t : PatchTables} (h : Agrees eff t)

include h

/-- What the tables give for a disc path is what was registered last for it. -/
theorem Agrees.gives_iff (r : Registration) :
    t.Gives r ↔ lastExternal (if r.discPath.first = slash then isFullFor (skipSlash r.discPath)
      else isFilenameFor r.discPath) eff = some r.externalPath := by
  rw [PatchTables.Gives]
  by_cases hslash : r.discPath.first = slash
  · rw [if_pos hslash, if_pos hslash, h.full]
  · rw [if_neg hslash, if_neg hslash, h.filenames, skipSlash, if_neg hslash]

/-- A registration that takes effect stands in the tables right after its call, with its own
external path. -/
theorem Agrees.gives_of_takesEffect {r : Registration} (htakes : TakesEffect onCard eff r) :
    (rrcRiivoHandleFilePatch onCard t r).Gives r := by
  have hstep : Agrees (if TakesEffect onCard eff r then eff ++ [r] else eff)
      (rrcRiivoHandleFilePatch onCard t r) := h.step r
  rw [if_pos htakes] at hstep
  rw [hstep.gives_iff, lastExternal_concat]
  refine if_pos ?_
  split
  · rename_i hslash
    rw [isFullFor, Bool.and_eq_true, decide_eq_true_iff, decide_eq_true_iff]
    exact ⟨hslash, rfl⟩
  · rename_i hslash
    rw [isFilenameFor, Bool.and_eq_true, decide_eq_true_iff, decide_eq_true_iff]
    exact ⟨hslash, rfl⟩

/-- What takes effect was registered for none of the AppleDouble paths. -/
theorem Agrees.not_gives_of_isAppleDouble (heff : ∀ b ∈ eff, ¬ isAppleDouble b.discPath)
    {r : Registration} (hdouble : isAppleDouble r.discPath) : ¬ t.Gives r := by
  rw [h.gives_iff, if_neg (isAppleDouble_first hdouble)]
  intro hlast
  obtain ⟨b, hb, hp⟩ := exists_of_lastExternal hlast
  rw [isFilenameFor, Bool.and_eq_true, decide_eq_true_iff, decide_eq_true_iff] at hp
  exact heff b hb (hp.2 ▸ hdouble)

end Agrees

/-- **A call from a folder patch** adds an entry exactly if its disc path does not begin
with `._`. -/
theorem addsEntry_iff (onCard : CStr → Bool) (mem1 : UInt32) (earlier : List Registration)
    {r : Registration} (hcheck : r.checkExists = false) (hmain : ¬ isMainDol r.discPath) :
    AddsEntry onCard (rrcRiivoHandleFilePatches onCard (PatchTables.empty mem1) earlier) r ↔
      ¬ isAppleDouble r.discPath := by
  have h := agrees_handleFilePatches onCard mem1 earlier
  generalize rrcRiivoHandleFilePatches onCard (PatchTables.empty mem1) earlier = t at h ⊢
  constructor
  · intro hadds hdouble
    have hsame : rrcRiivoHandleFilePatch onCard t r = t := by
      rw [rrcRiivoHandleFilePatch, if_neg hmain, if_pos hdouble]
    rw [AddsEntry, hsame] at hadds
    rcases hadds with hne | hne | hne | hgives
    · exact hne rfl
    · exact hne rfl
    · exact hne rfl
    · exact h.not_gives_of_isAppleDouble not_isAppleDouble_of_mem_effective hdouble hgives
  · intro hdouble
    refine Or.inr (Or.inr (Or.inr (h.gives_of_takesEffect ⟨hmain, hdouble, fun hmissing => ?_⟩)))
    rw [hcheck] at hmissing
    exact Bool.false_ne_true hmissing.1

/-! ### The walk -/

/-- The call for a file that is reached. -/
def fileRegistration (discPath externalPath : CStr) (names : List CStr) : Registration :=
  ⟨(relativePath (discPath :: names)).lower, (relativePath (externalPath :: names)).lower, false⟩

/-- No file that is reached and whose own name begins with `._` adds an entry, with the tables
as the files before it left them. -/
def IgnoresAppleDouble (onCard : CStr → Bool) (mem1 : UInt32) (earlier : List Registration)
    (discPath externalPath : CStr) (walked : List (List CStr)) : Prop :=
  ∀ before names after, walked = before ++ names :: after → OwnAppleDouble names →
    ¬ AddsEntry onCard
      (rrcRiivoHandleFilePatches onCard (PatchTables.empty mem1)
        (earlier ++ before.map (fileRegistration discPath externalPath)))
      (fileRegistration discPath externalPath names)

/-- **AppleDouble files are ignored** by a folder patch exactly if of each that it reaches the
first component of the path, from the disc prefix on, begins with `._`. -/
theorem apple_double_ignored_iff (onCard : CStr → Bool) (mem1 : UInt32)
    (earlier : List Registration) (discPath externalPath : CStr) (recursive : Bool) (dir : Dir) :
    (rrcRiivoHandleFolderPatch discPath externalPath recursive dir).steps =
        (dir.walked recursive).steps.map
          (fun names => .file (fileRegistration discPath externalPath names)) ∧
      (IgnoresAppleDouble onCard mem1 earlier discPath externalPath (dir.walked recursive).steps ↔
        ∀ names ∈ (dir.walked recursive).steps, OwnAppleDouble names →
          BeginsAppleDouble (discPath :: names)) := by
  refine ⟨congrArg Trace.steps (folderPatch_walked discPath externalPath recursive dir), ?_⟩
  have hadds : ∀ (before : List Registration) (names : List CStr), OwnAppleDouble names →
      (AddsEntry onCard (rrcRiivoHandleFilePatches onCard (PatchTables.empty mem1) before)
          (fileRegistration discPath externalPath names) ↔
        ¬ BeginsAppleDouble (discPath :: names)) := by
    intro before names hown
    have hcomponents : OwnAppleDouble (discPath :: names) := by
      obtain ⟨name, hlast, hname⟩ := hown
      obtain ⟨first, rest, rfl⟩ := List.exists_cons_of_ne_nil
        (show names ≠ [] from fun h => by rw [h] at hlast; cases hlast)
      exact ⟨name, List.getLast?_cons_cons.trans hlast, hname⟩
    rw [addsEntry_iff onCard mem1 before rfl (not_isMainDol_relativePath hcomponents),
      fileRegistration, isAppleDouble_lower, isAppleDouble_relativePath]
  constructor
  · intro hignores names hmem hown
    obtain ⟨before, after, hsplit⟩ := List.append_of_mem hmem
    have hnot := hignores before names after hsplit hown
    rwa [hadds _ _ hown, not_not] at hnot
  · intro hall before names after hsplit hown
    rw [hadds _ _ hown, not_not]
    exact hall names (hsplit ▸ List.mem_append_right _ List.mem_cons_self) hown

/-- A folder with one AppleDouble file. -/
def appleDoubleFolder : Dir := .opened [.reg (lit "._a.szs")]

/-- **An AppleDouble file is registered** from a folder patch with the disc prefix `/`. -/
theorem apple_double_registered :
    ¬ ∀ (onCard : CStr → Bool) (mem1 : UInt32) (earlier : List Registration)
      (discPath externalPath : CStr) (recursive : Bool) (dir : Dir),
      (rrcRiivoHandleFolderPatch discPath externalPath recursive dir).steps =
          (dir.walked recursive).steps.map
            (fun names => .file (fileRegistration discPath externalPath names)) ∧
        IgnoresAppleDouble onCard mem1 earlier discPath externalPath (dir.walked recursive).steps := by
  intro h
  have hignores := (h (fun _ => true) 0x81700000 [] (lit "/") (lit "/RR") false appleDoubleFolder).2
  refine hignores [] [lit "._a.szs"] [] rfl ⟨_, rfl, by decide⟩ (Or.inl ?_)
  decide

end RrLauncher
