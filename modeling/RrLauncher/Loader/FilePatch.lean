/-
# The replacement tables of the patch loader

`_rrc_riivo_handle_file_patch` of `source/loader/riivo_patch_loader.c`, which
every `<file>` element and every file found under a `<folder>` goes through, over
the three vectors it fills: `sd_files`, `replacements` for full disc paths and
`filename_replacements` for patches that name a file anywhere on the disc.

A registration overrides the replacement with the same disc string: it is
removed by `vec_swap_remove`, which moves an unrelated element, and the new one
is pushed.  SD files are shared: an external path that is already in `sd_files`
keeps its entry, and entries are only ever appended, so the entry numbers stored
in replacements stay valid (`PatchTables.Inv`).

The strings copied into MEM1 by `bump_alloc_string` are modelled by their
contents, with the arena pointer moved as the source moves it.
-/

import RrLauncher.Lib.KeyedTable
import RrLauncher.Shared.Riivo

namespace RrLauncher

/-- The vectors and pointers that `_rrc_riivo_handle_file_patch` is given. -/
structure PatchTables where
  sdFiles : List RrcRiivoSdFile
  replacements : List RrcRiivoFileReplacement
  filenameReplacements : List RrcRiivoFileReplacement
  mem1 : UInt32
  mainDolPath : Option CStr

/-- Freshly initialized vectors, with the arena at `mem1` and no `main.dol`
replacement. -/
def PatchTables.empty (mem1 : UInt32) : PatchTables := ⟨[], [], [], mem1, none⟩

/-- One call of `_rrc_riivo_handle_file_patch`, with the paths as it gets them. -/
structure Registration where
  discPath : CStr
  externalPath : CStr
  checkExists : Bool

/-- `bump_alloc_string`: the arena pointer below the copy, and the copy. -/
def bumpAllocString (arena : UInt32) (src : CStr) : UInt32 × CStr :=
  (arena - (UInt32.ofNat src.len + 1), src)

/-- `_rrc_riivo_remove_replacement`. -/
def rrcRiivoRemoveReplacement (replacements : List RrcRiivoFileReplacement)
    (remove : RrcRiivoFileReplacement) : List RrcRiivoFileReplacement :=
  KeyedTable.removeFirst (fun repl => repl.hash = remove.hash && repl.disc = remove.disc)
    replacements

/-- The second half of `_rrc_riivo_handle_file_patch`: build the replacement for
a known `entrynum` and put it in the table for its kind of disc path. -/
def registerReplacement (t : PatchTables) (discPath : CStr) (entrynum : ℕ) : PatchTables :=
  let isFilenameReplacement := discPath.first ≠ slash
  let disc := skipSlash discPath
  let (mem1, discM1) := bumpAllocString t.mem1 disc
  let newReplacement : RrcRiivoFileReplacement :=
    { disc := discM1, entrynum := entrynum, hash := rrcHashString disc }
  if isFilenameReplacement then
    { t with
      mem1 := mem1
      filenameReplacements :=
        rrcRiivoRemoveReplacement t.filenameReplacements newReplacement ++ [newReplacement] }
  else
    { t with
      mem1 := mem1
      replacements := rrcRiivoRemoveReplacement t.replacements newReplacement ++ [newReplacement] }

/-- `strcmp(disc_path, "main.dol") == 0`. -/
def isMainDol (discPath : CStr) : Prop := discPath = CStr.lit "main.dol"

instance (discPath : CStr) : Decidable (isMainDol discPath) :=
  inferInstanceAs (Decidable (discPath = CStr.lit "main.dol"))

/-- `disc_path[0] == '.' && disc_path[1] == '_'`: an AppleDouble file. -/
def isAppleDouble (discPath : CStr) : Prop := discPath.first = 46 ∧ discPath.second = 95

instance (discPath : CStr) : Decidable (isAppleDouble discPath) :=
  inferInstanceAs (Decidable (_ ∧ _))

/-- `_rrc_riivo_handle_file_patch`; `onCard` says which external paths `fopen`
finds on the SD card. -/
def rrcRiivoHandleFilePatch (onCard : CStr → Bool) (t : PatchTables) (r : Registration) :
    PatchTables :=
  if isMainDol r.discPath then { t with mainDolPath := some r.externalPath }
  else if isAppleDouble r.discPath then t
  else
    match t.sdFiles.findIdx? (fun f => f.path = r.externalPath) with
    | some entrynum => registerReplacement t r.discPath entrynum
    | none =>
      if r.checkExists ∧ ¬ onCard r.externalPath then t
      else
        let (mem1, externalPathM1) := bumpAllocString t.mem1 r.externalPath
        let newFile : RrcRiivoSdFile := { path := externalPathM1, fileInfo := none }
        registerReplacement { t with mem1 := mem1, sdFiles := t.sdFiles ++ [newFile] } r.discPath
          t.sdFiles.length

/-- Every call in turn, each on the tables that the one before has left. -/
def rrcRiivoHandleFilePatches (onCard : CStr → Bool) (t : PatchTables)
    (regs : List Registration) : PatchTables :=
  regs.foldl (rrcRiivoHandleFilePatch onCard) t

/-! ### One replacement table -/

/-- A replacement table over `n` SD entries: one replacement for each disc
string, hashed as the runtime looks it up, and pointing at an entry. -/
structure TableInv (n : ℕ) (l : List RrcRiivoFileReplacement) : Prop where
  distinct : KeyedTable.Distinct (·.disc) l
  hash : ∀ r ∈ l, r.hash = rrcHashString r.disc
  entrynum : ∀ r ∈ l, r.entrynum < n

/-- The invariant of a table of replacements holds of the table without entries. -/
theorem TableInv.nil (n : ℕ) : TableInv n [] :=
  ⟨KeyedTable.Distinct.nil, by simp, by simp⟩

/-- Entry numbers that are in range stay so when files are added behind the ones they point to. -/
theorem TableInv.mono {n m : ℕ} {l : List RrcRiivoFileReplacement} (h : TableInv n l)
    (hnm : n ≤ m) : TableInv m l :=
  ⟨h.distinct, h.hash, fun r hr => Nat.lt_of_lt_of_le (h.entrynum r hr) hnm⟩

/-- The invariant does not depend on the order of the entries, which changes when one of them is
removed by swapping. -/
theorem TableInv.perm {n : ℕ} {l l' : List RrcRiivoFileReplacement} (h : TableInv n l)
    (hp : l.Perm l') : TableInv n l' :=
  ⟨h.distinct.perm hp, fun r hr => h.hash r (hp.mem_iff.mpr hr),
    fun r hr => h.entrynum r (hp.mem_iff.mpr hr)⟩

/-- In a table whose hashes are those of its disc strings, removing by hash and
disc string is removing by disc string: the registration overrides. -/
theorem TableInv.remove_push {n : ℕ} {l : List RrcRiivoFileReplacement} (h : TableInv n l)
    {e : RrcRiivoFileReplacement} (he : e.hash = rrcHashString e.disc) :
    rrcRiivoRemoveReplacement l e ++ [e] = KeyedTable.override (·.disc) l e := by
  have hcongr : ∀ r ∈ l, (decide (r.hash = e.hash) && decide (r.disc = e.disc))
      = decide (r.disc = e.disc) := by
    intro r hr
    by_cases hd : r.disc = e.disc
    · simp [hd, h.hash r hr, he]
    · simp [hd]
  rw [rrcRiivoRemoveReplacement, KeyedTable.override, KeyedTable.removeFirst_congr hcongr]

/-- Overriding keeps the invariant of a table, if the hash of the new entry is that of its path and
its entry number is in range. -/
theorem TableInv.override {n : ℕ} {l : List RrcRiivoFileReplacement} (h : TableInv n l)
    {e : RrcRiivoFileReplacement} (he : e.hash = rrcHashString e.disc) (hn : e.entrynum < n) :
    TableInv n (KeyedTable.override (·.disc) l e) := by
  refine ⟨h.distinct.override e, fun r hr => ?_, fun r hr => ?_⟩
  · rcases (KeyedTable.mem_override h.distinct).mp hr with rfl | ⟨hl, -⟩
    · exact he
    · exact h.hash r hl
  · rcases (KeyedTable.mem_override h.distinct).mp hr with rfl | ⟨hl, -⟩
    · exact hn
    · exact h.entrynum r hl

/-! ### The invariant of the three tables -/

/-- What holds of the tables between two calls. -/
structure PatchTables.Inv (t : PatchTables) : Prop where
  paths : KeyedTable.Distinct (·.path) t.sdFiles
  closed : ∀ f ∈ t.sdFiles, f.fileInfo = none
  replacements : TableInv t.sdFiles.length t.replacements
  filenames : TableInv t.sdFiles.length t.filenameReplacements
  noSlash : ∀ r ∈ t.filenameReplacements, r.disc.first ≠ slash

/-- The tables that a parse begins with satisfy the invariant. -/
theorem PatchTables.Inv.empty (mem1 : UInt32) : (PatchTables.empty mem1).Inv :=
  ⟨KeyedTable.Distinct.nil, by simp [PatchTables.empty], TableInv.nil _, TableInv.nil _,
    by simp [PatchTables.empty]⟩

/-- The replacement that a registration of `discPath` for `entrynum` stores. -/
def replacementOf (discPath : CStr) (entrynum : ℕ) : RrcRiivoFileReplacement :=
  { disc := skipSlash discPath, entrynum := entrynum, hash := rrcHashString (skipSlash discPath) }

/-- What registering a replacement does: it overrides in the table for its kind
of disc path and leaves the other table and the SD entries alone. -/
theorem registerReplacement_spec {t : PatchTables} (h : t.Inv) (discPath : CStr) (e : ℕ) :
    (registerReplacement t discPath e).sdFiles = t.sdFiles ∧
    (registerReplacement t discPath e).replacements =
      (if discPath.first = slash then
        KeyedTable.override (·.disc) t.replacements (replacementOf discPath e)
      else t.replacements) ∧
    (registerReplacement t discPath e).filenameReplacements =
      (if discPath.first = slash then t.filenameReplacements
      else KeyedTable.override (·.disc) t.filenameReplacements (replacementOf discPath e)) := by
  have hr := h.replacements.remove_push (e := replacementOf discPath e) rfl
  have hf := h.filenames.remove_push (e := replacementOf discPath e) rfl
  by_cases hs : discPath.first = slash
  · simp only [registerReplacement, bumpAllocString, hs, ne_eq, not_true_eq_false, if_false, if_true,
      true_and, and_true]
    exact hr
  · simp only [registerReplacement, bumpAllocString, hs, ne_eq, not_false_eq_true, if_true, if_false,
      true_and]
    exact hf

/-- **What one call can do**: nothing to the tables, or one override for an
entry of `sd_files` that was there or was just appended. -/
theorem rrcRiivoHandleFilePatch_cases (onCard : CStr → Bool) {t : PatchTables} (h : t.Inv)
    (r : Registration) :
    ((isMainDol r.discPath ∨ isAppleDouble r.discPath ∨
        (r.checkExists ∧ ¬ onCard r.externalPath ∧ ∀ f ∈ t.sdFiles, f.path ≠ r.externalPath)) ∧
      (rrcRiivoHandleFilePatch onCard t r).sdFiles = t.sdFiles ∧
      (rrcRiivoHandleFilePatch onCard t r).replacements = t.replacements ∧
      (rrcRiivoHandleFilePatch onCard t r).filenameReplacements = t.filenameReplacements) ∨
    (¬ isMainDol r.discPath ∧ ¬ isAppleDouble r.discPath ∧ ∃ t₁ : PatchTables, ∃ e : ℕ,
      t₁.Inv ∧ t₁.replacements = t.replacements ∧
      t₁.filenameReplacements = t.filenameReplacements ∧
      ((∃ f ∈ t.sdFiles, f.path = r.externalPath) ∧ t₁.sdFiles = t.sdFiles ∨
        ¬ (r.checkExists ∧ ¬ onCard r.externalPath) ∧
          (∀ f ∈ t.sdFiles, f.path ≠ r.externalPath) ∧
          t₁.sdFiles = t.sdFiles ++ [⟨r.externalPath, none⟩]) ∧
      (t₁.sdFiles[e]?).map (·.path) = some r.externalPath ∧
      rrcRiivoHandleFilePatch onCard t r = registerReplacement t₁ r.discPath e) := by
  by_cases hm : isMainDol r.discPath
  · exact Or.inl ⟨Or.inl hm, by simp [rrcRiivoHandleFilePatch, hm]⟩
  by_cases ha : isAppleDouble r.discPath
  · exact Or.inl ⟨Or.inr (Or.inl ha), by simp [rrcRiivoHandleFilePatch, hm, ha]⟩
  cases hi : t.sdFiles.findIdx? (fun f => f.path = r.externalPath) with
  | some e =>
    -- the external path already has an entry
    obtain ⟨he, hpath, -⟩ := List.findIdx?_eq_some_iff_getElem.mp hi
    have hpath' : t.sdFiles[e].path = r.externalPath := by simpa using hpath
    refine Or.inr ⟨hm, ha, t, e, h, rfl, rfl,
      Or.inl ⟨⟨_, List.getElem_mem he, hpath'⟩, rfl⟩, ?_, ?_⟩
    · rw [List.getElem?_eq_getElem he, Option.map_some, hpath']
    · simp [rrcRiivoHandleFilePatch, hm, ha, hi]
  | none =>
    have hnew : ∀ f ∈ t.sdFiles, f.path ≠ r.externalPath := fun f hf => by
      simpa using List.findIdx?_eq_none_iff.mp hi f hf
    by_cases hc : r.checkExists ∧ ¬ onCard r.externalPath
    · exact Or.inl ⟨Or.inr (Or.inr ⟨hc.1, hc.2, hnew⟩),
        by simp [rrcRiivoHandleFilePatch, hm, ha, hi, hc]⟩
    · -- a new entry is appended behind the ones that are there
      refine Or.inr ⟨hm, ha,
        { t with
          mem1 := (bumpAllocString t.mem1 r.externalPath).1
          sdFiles := t.sdFiles ++ [⟨r.externalPath, none⟩] },
        t.sdFiles.length, ⟨?_, ?_, ?_, ?_, h.noSlash⟩, rfl, rfl, Or.inr ⟨hc, hnew, rfl⟩, ?_, ?_⟩
      · have hnot : r.externalPath ∉ t.sdFiles.map (·.path) := fun hmem => by
          obtain ⟨f, hf, hfe⟩ := List.mem_map.mp hmem
          exact hnew f hf hfe
        rw [KeyedTable.Distinct, List.map_append, List.map_singleton]
        exact List.nodup_append.mpr ⟨h.paths, List.nodup_singleton _, by
          intro a ha b hb hab
          rw [hab, List.mem_singleton.mp hb] at ha
          exact hnot ha⟩
      · intro f hf
        rcases List.mem_append.mp hf with hf | hf
        · exact h.closed f hf
        · rw [List.mem_singleton.mp hf]
      · exact h.replacements.mono (by simp)
      · exact h.filenames.mono (by simp)
      · simp
      · simp only [rrcRiivoHandleFilePatch, hm, ha, hi, hc, if_false]
        rfl

/-- Registering a replacement for a valid entry keeps the invariant. -/
theorem PatchTables.Inv.registerReplacement {t : PatchTables} (h : t.Inv) {discPath : CStr} {e : ℕ}
    (he : e < t.sdFiles.length) : (registerReplacement t discPath e).Inv := by
  obtain ⟨hsd, hrep, hfil⟩ := registerReplacement_spec h discPath e
  have hover : ∀ {l}, TableInv t.sdFiles.length l →
      TableInv t.sdFiles.length (KeyedTable.override (·.disc) l (replacementOf discPath e)) :=
    fun hl => hl.override rfl he
  refine ⟨hsd ▸ h.paths, hsd ▸ h.closed, ?_, ?_, ?_⟩
  · rw [hsd, hrep]
    split
    · exact hover h.replacements
    · exact h.replacements
  · rw [hsd, hfil]
    split
    · exact h.filenames
    · exact hover h.filenames
  · rw [hfil]
    split
    · exact h.noSlash
    · rename_i hs
      intro r hr
      rcases (KeyedTable.mem_override h.filenames.distinct).mp hr with rfl | ⟨hr, -⟩
      · simpa only [replacementOf, skipSlash, if_neg hs] using hs
      · exact h.noSlash r hr

/-- **One call keeps the invariant** of the tables, whatever it registers: a file that is new or
known, a path or a name, or nothing, as the file is not there. -/
theorem PatchTables.Inv.handleFilePatch {onCard : CStr → Bool} {t : PatchTables} (h : t.Inv)
    (r : Registration) : (rrcRiivoHandleFilePatch onCard t r).Inv := by
  rcases rrcRiivoHandleFilePatch_cases onCard h r with ⟨-, hsd, hrep, hfil⟩ | ⟨-, -, t₁, e, h₁, -, -, -,
    he, hreg⟩
  · exact ⟨hsd ▸ h.paths, hsd ▸ h.closed, hsd ▸ hrep ▸ h.replacements, hsd ▸ hfil ▸ h.filenames,
      hfil ▸ h.noSlash⟩
  · rw [hreg]
    refine h₁.registerReplacement (Nat.lt_of_not_le fun hle => ?_)
    rw [List.getElem?_eq_none hle] at he
    cases he

/-- **Every run keeps the invariant** of the tables, by induction on the calls from any state that
has it. -/
theorem PatchTables.Inv.handleFilePatches {onCard : CStr → Bool} {t : PatchTables} (h : t.Inv)
    (regs : List Registration) : (rrcRiivoHandleFilePatches onCard t regs).Inv := by
  induction regs generalizing t with
  | nil => exact h
  | cons r regs ih => exact ih (h.handleFilePatch r)

/-- A call adds a file behind those that the table has, or none, and moves and changes no other. -/
theorem sdFiles_prefix_handleFilePatch (onCard : CStr → Bool) {t : PatchTables} (h : t.Inv)
    (r : Registration) : t.sdFiles <+: (rrcRiivoHandleFilePatch onCard t r).sdFiles := by
  rcases rrcRiivoHandleFilePatch_cases onCard h r with ⟨-, hsd, -⟩ | ⟨-, -, t₁, e, h₁, -, -, hgrow, -,
    hreg⟩
  · exact hsd ▸ List.prefix_rfl
  · rw [hreg, (registerReplacement_spec h₁ r.discPath e).1]
    rcases hgrow with ⟨-, heq⟩ | ⟨-, -, heq⟩
    · exact heq ▸ List.prefix_rfl
    · exact heq ▸ List.prefix_append _ _

/-- Any list of registrations only adds files behind those that the tables have. So an entry number,
once given, points to the same file ever after. -/
theorem sdFiles_prefix_handleFilePatches (onCard : CStr → Bool) {t : PatchTables} (h : t.Inv)
    (regs : List Registration) : t.sdFiles <+: (rrcRiivoHandleFilePatches onCard t regs).sdFiles := by
  induction regs generalizing t with
  | nil => exact List.prefix_rfl
  | cons r regs ih => exact (sdFiles_prefix_handleFilePatch onCard h r).trans (ih (h.handleFilePatch r))

/-- Up to order, `l'` has the replacements of `l` for every disc string but
`disc`. -/
def OthersKept (disc : CStr) (l l' : List RrcRiivoFileReplacement) : Prop :=
  (l'.filter (·.disc ≠ disc)).Perm (l.filter (·.disc ≠ disc))

/-- A table compared with itself has kept all of the replacements for other paths. -/
theorem OthersKept.refl (disc : CStr) (l : List RrcRiivoFileReplacement) : OthersKept disc l l :=
  List.Perm.refl _

/-- One call changes one of the two tables at most, and there the replacement
with its own disc string at most. -/
theorem othersKept_handleFilePatch (onCard : CStr → Bool) {t : PatchTables} (h : t.Inv)
    (r : Registration) :
    let t' := rrcRiivoHandleFilePatch onCard t r
    (t'.replacements = t.replacements ∧
        OthersKept (skipSlash r.discPath) t.filenameReplacements t'.filenameReplacements) ∨
      (t'.filenameReplacements = t.filenameReplacements ∧
        OthersKept (skipSlash r.discPath) t.replacements t'.replacements) := by
  intro t'
  rcases rrcRiivoHandleFilePatch_cases onCard h r with ⟨-, -, hrep, hfil⟩ | ⟨-, -, t₁, e, h₁, hrep₁,
    hfil₁, -, -, hreg⟩
  · exact Or.inl ⟨hrep, by rw [show t'.filenameReplacements = _ from hfil]; exact OthersKept.refl _ _⟩
  · obtain ⟨-, hrep, hfil⟩ := registerReplacement_spec h₁ r.discPath e
    rw [← hreg, hrep₁] at hrep
    rw [← hreg, hfil₁] at hfil
    by_cases hs : r.discPath.first = slash
    · rw [if_pos hs] at hrep hfil
      refine Or.inr ⟨hfil, ?_⟩
      rw [OthersKept, show t'.replacements = _ from hrep]
      exact KeyedTable.filter_override_perm h.replacements.distinct (replacementOf r.discPath e)
    · rw [if_neg hs] at hrep hfil
      refine Or.inl ⟨hrep, ?_⟩
      rw [OthersKept, show t'.filenameReplacements = _ from hfil]
      exact KeyedTable.filter_override_perm h.filenames.distinct (replacementOf r.discPath e)

/-- **The table invariant of the patch loader.**  After any sequence of calls
from empty vectors the SD paths and, in each table, the disc strings are pairwise
distinct, every hash is the hash of its disc string, no filename replacement
begins with `/` and every entry number is valid; SD entries never move or change
in later calls; and the next call touches at most the one replacement with its
own disc string in at most one of the tables. -/
theorem patchTables_inv (onCard : CStr → Bool) (mem1 : UInt32) (regs : List Registration) :
    let t := rrcRiivoHandleFilePatches onCard (PatchTables.empty mem1) regs
    (t.sdFiles.map (·.path)).Nodup ∧
    (∀ l ∈ [t.replacements, t.filenameReplacements],
      (l.map (·.disc)).Nodup ∧ ∀ r ∈ l, r.hash = rrcHashString r.disc ∧
        r.entrynum < t.sdFiles.length) ∧
    (∀ r ∈ t.filenameReplacements, r.disc.first ≠ slash) ∧
    (∀ later, t.sdFiles <+: (rrcRiivoHandleFilePatches onCard t later).sdFiles) ∧
    ∀ r, let t' := rrcRiivoHandleFilePatch onCard t r
      (t'.replacements = t.replacements ∧
          OthersKept (skipSlash r.discPath) t.filenameReplacements t'.filenameReplacements) ∨
        (t'.filenameReplacements = t.filenameReplacements ∧
          OthersKept (skipSlash r.discPath) t.replacements t'.replacements) := by
  intro t
  have h : t.Inv := (PatchTables.Inv.empty mem1).handleFilePatches regs
  refine ⟨h.paths, ?_, h.noSlash, sdFiles_prefix_handleFilePatches onCard h,
    othersKept_handleFilePatch onCard h⟩
  intro l hl
  rcases List.mem_cons.mp hl with rfl | hl
  · exact ⟨h.replacements.distinct,
      fun r hr => ⟨h.replacements.hash r hr, h.replacements.entrynum r hr⟩⟩
  · obtain rfl := List.mem_singleton.mp hl
    exact ⟨h.filenames.distinct, fun r hr => ⟨h.filenames.hash r hr, h.filenames.entrynum r hr⟩⟩

end RrLauncher
