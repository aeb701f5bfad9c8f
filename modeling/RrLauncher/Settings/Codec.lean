/-
# The settings file reads back

What the writers of `settingsfile.c` produce for a list of pairs parses to the
defaults overridden by the last occurrence of each known key, and none of its
strict prefixes parses (`settingsfile_codec`).  The reading half is piece by
piece, through `ByteReader.Reads`; the writing half is what was given to the file,
through `Stdio.Holds`, at whatever times the buffer reaches the card.
-/

import RrLauncher.Lib.Stdio.WholeFile
import RrLauncher.Settings.Settingsfile
import Mathlib.Data.List.Induction

namespace RrLauncher

open Stdio ByteReader

/-- The bytes of one pair. -/
def encodeEntry (pair : CStr × UInt32) : Bytes :=
  be32 (UInt32.ofNat pair.1.len) ++ (pair.1.bytes ++ (be32 4 ++ be32 pair.2))

/-- The bytes of a header. -/
def encodeHeader (entryCount : UInt32) : Bytes :=
  be32 rrcSettingsfileMagic ++ (be32 rrcSettingsfileVersion ++ be32 entryCount)

/-- The bytes of a settings file. -/
def encode (pairs : List (CStr × UInt32)) : Bytes :=
  encodeHeader (UInt32.ofNat pairs.length) ++ pairs.flatMap encodeEntry

/-! ### Reading -/

/-- One pair reads back from its encoding, if its key fits the buffer of the reader. -/
theorem reads_readEntry {pair : CStr × UInt32} (hkey : pair.1.len < 32) :
    Reads readEntry (encodeEntry pair) pair := by
  have hnat : (UInt32.ofNat pair.1.len).toNat = pair.1.len :=
    UInt32.toNat_ofNat_of_lt' (hkey.trans (by decide))
  have hlen : ¬ UInt32.ofNat pair.1.len ≥ 32 := by
    rw [ge_iff_le, UInt32.le_iff_toNat_le, hnat, show (32 : UInt32).toNat = 32 from rfl]
    omega
  refine (reads_u32 (UInt32.ofNat pair.1.len) _).bind ?_
  rw [if_neg hlen, hnat]
  refine (reads_take pair.1.bytes _).bind ((reads_u32 4 _).bind ?_)
  rw [if_neg (not_not.mpr rfl), CStr.ofBuffer_bytes_of_noNul]
  have h : Reads (do
      let value ← expectReadU32 "Failed to fully read u32 value"
      return (pair.1, value)) (be32 pair.2 ++ []) pair :=
    (reads_u32 pair.2 _).bind (Reads.pure pair)
  rwa [List.append_nil] at h

/-- The header reads back from its encoding, and gives the number of entries. -/
theorem reads_readHeader (entryCount : UInt32) :
    Reads readHeader (encodeHeader entryCount) entryCount := by
  refine (reads_u32 rrcSettingsfileMagic _).bind ?_
  rw [if_neg (not_not.mpr rfl)]
  exact (reads_u32 rrcSettingsfileVersion _).bind (reads_u32 entryCount _)

/-- The settings after a list of pairs. -/
def overrideAll (settings : RrcSettingsfile) (pairs : List (CStr × UInt32)) : RrcSettingsfile :=
  pairs.foldl (fun settings pair => settings.setKey pair.1 pair.2) settings

/-- Overriding by one more pair behind a list of them is overriding by the list, then setting the
key of that pair. -/
theorem overrideAll_concat (settings : RrcSettingsfile) (pairs : List (CStr × UInt32))
    (pair : CStr × UInt32) :
    overrideAll settings (pairs ++ [pair]) = (overrideAll settings pairs).setKey pair.1 pair.2 := by
  rw [overrideAll, List.foldl_append]
  rfl

/-- **The loop reads back** what the entries were written from, each stored over the ones before. -/
theorem parseEntries_encode {pairs : List (CStr × UInt32)} (hkeys : ∀ pair ∈ pairs, pair.1.len < 32)
    (settings : RrcSettingsfile) :
    parseEntries pairs.length (pairs.flatMap encodeEntry) settings =
      (.ok (), overrideAll settings pairs) := by
  induction pairs generalizing settings with
  | nil => rfl
  | cons pair pairs ih =>
    rw [List.forall_mem_cons] at hkeys
    rw [List.flatMap_cons, List.length_cons, parseEntries, (reads_readEntry hkeys.1).1]
    exact ih hkeys.2 _

/-- **The loop fails on every strict prefix** of the entries, since the number of them that the
header gives is then not reached. -/
theorem parseEntries_strict_prefix {pairs : List (CStr × UInt32)}
    (hkeys : ∀ pair ∈ pairs, pair.1.len < 32) (settings : RrcSettingsfile) {p : Bytes}
    (hp : p <+: pairs.flatMap encodeEntry) (hne : p ≠ pairs.flatMap encodeEntry) :
    ∃ e, (parseEntries pairs.length p settings).1 = .error e := by
  induction pairs generalizing settings p with
  | nil => exact absurd (List.prefix_nil.mp hp) hne
  | cons pair pairs ih =>
    rw [List.forall_mem_cons] at hkeys
    rw [List.flatMap_cons] at hp hne
    rw [List.length_cons, parseEntries]
    rcases strict_prefix_append hp hne with ⟨hpe, hpne⟩ | ⟨q, rfl, hq, hqne⟩
    · obtain ⟨e, he⟩ := (reads_readEntry hkeys.1).2 p hpe hpne
      rw [he]
      exact ⟨e, rfl⟩
    · rw [(reads_readEntry hkeys.1).1]
      exact ih hkeys.2 _ hq hqne

/-- The number of pairs, stored in 32 bits, is read back as it was. -/
theorem toNat_ofNat_length {pairs : List (CStr × UInt32)} (hlen : pairs.length < 2 ^ 31) :
    (UInt32.ofNat pairs.length).toNat = pairs.length :=
  UInt32.toNat_ofNat_of_lt' (hlen.trans (by decide))

/-- **What was encoded parses**, to the defaults with each of the pairs stored over them in turn. -/
theorem parseContent_encode {pairs : List (CStr × UInt32)} (hlen : pairs.length < 2 ^ 31)
    (hkeys : ∀ pair ∈ pairs, pair.1.len < 32) :
    parseContent (encode pairs) = (.ok (), overrideAll rrcSettingsfileInitDefaults pairs) := by
  rw [parseContent, encode, (reads_readHeader _).1]
  simp only
  rw [toNat_ofNat_length hlen]
  exact parseEntries_encode hkeys _

/-- **No strict prefix parses**: where the text ends in the header or in an entry, the reader misses
the bytes that it asks for. -/
theorem parseContent_strict_prefix {pairs : List (CStr × UInt32)} (hlen : pairs.length < 2 ^ 31)
    (hkeys : ∀ pair ∈ pairs, pair.1.len < 32) {p : Bytes} (hp : p <+: encode pairs)
    (hne : p ≠ encode pairs) : ∃ e, (parseContent p).1 = .error e := by
  rw [parseContent]
  rcases strict_prefix_append hp hne with ⟨hph, hpne⟩ | ⟨q, rfl, hq, hqne⟩
  · obtain ⟨e, he⟩ := (reads_readHeader _).2 p hph hpne
    rw [he]
    exact ⟨e, rfl⟩
  · rw [(reads_readHeader _).1]
    simp only
    rw [toNat_ofNat_length hlen]
    exact parseEntries_strict_prefix hkeys _ hq hqne

/-- The value of the last occurrence of a key. -/
def lastValue (key : CStr) (pairs : List (CStr × UInt32)) : Option UInt32 :=
  ((pairs.filter (·.1 = key)).getLast?).map (·.2)

/-- The last pair of a list decides for its key, and for any other key it does not count. -/
theorem lastValue_concat (key : CStr) (pairs : List (CStr × UInt32)) (pair : CStr × UInt32) :
    lastValue key (pairs ++ [pair]) =
      if pair.1 = key then some pair.2 else lastValue key pairs := by
  rw [lastValue, List.filter_append]
  by_cases h : pair.1 = key <;> simp [h, lastValue]

/-- **The last occurrence of a key counts**, and a key that does not occur leaves its setting as it
was. -/
theorem overrideAll_eq (settings : RrcSettingsfile) (pairs : List (CStr × UInt32)) :
    overrideAll settings pairs =
      ⟨(lastValue rrcSettingsfileMyStuffKey pairs).getD settings.myStuff,
        (lastValue rrcSettingsfileSavegameKey pairs).getD settings.separateSavegame,
        (lastValue rrcSettingsfileAutoupdateKey pairs).getD settings.autoUpdate⟩ := by
  have h₁ : rrcSettingsfileMyStuffKey ≠ rrcSettingsfileSavegameKey := by decide
  have h₂ : rrcSettingsfileMyStuffKey ≠ rrcSettingsfileAutoupdateKey := by decide
  have h₃ : rrcSettingsfileSavegameKey ≠ rrcSettingsfileAutoupdateKey := by decide
  induction pairs using List.reverseRecOn with
  | nil => rfl
  | append_singleton pairs pair ih =>
    rw [overrideAll_concat, ih]
    simp only [lastValue_concat, RrcSettingsfile.setKey]
    by_cases hk₁ : pair.1 = rrcSettingsfileMyStuffKey
    · simp [hk₁, h₁, h₂]
    by_cases hk₂ : pair.1 = rrcSettingsfileSavegameKey
    · simp [hk₂, h₁.symm, h₃]
    by_cases hk₃ : pair.1 = rrcSettingsfileAutoupdateKey
    · simp [hk₃, h₂.symm, h₃.symm]
    · simp [hk₁, hk₂, hk₃]

/-! ### Writing -/

section Writing

variable {κ : Type} [DecidableEq κ] {env : Stdio.Env κ Question}

/-- The three pieces that the header is written in, put together, are the header. -/
theorem flatMap_header (entryCount : UInt32) :
    [(be32 rrcSettingsfileMagic, onErrno "Failed to write magic header"),
      (be32 rrcSettingsfileVersion, onErrno "Failed to write version"),
      (be32 entryCount, onErrno "Failed to write entry count")].flatMap (·.1) =
      encodeHeader entryCount := by
  simp [encodeHeader]

/-- **What writing the header does**: however it ends the file has a prefix of the header, and
all of it where no error came back. -/
theorem rrcSettingsfileWriteHeader_spec (env : Stdio.Env κ Question) {file : File κ} {w : World κ}
    (h : Holds file w []) (entryCount : UInt32) :
    Partly file.path (encodeHeader entryCount) w
      (rrcSettingsfileWriteHeader file entryCount env w).2 ∧
    ∀ r file' w', rrcSettingsfileWriteHeader file entryCount env w = (.ok (r, file'), w') →
      file'.path = file.path ∧ ∃ header, header <+: encodeHeader entryCount ∧
        Holds file' w' header ∧ (r = none → header = encodeHeader entryCount) := by
  obtain ⟨hpartly, hok⟩ := fills_fwriteItems env file
    [(be32 rrcSettingsfileMagic, onErrno "Failed to write magic header"),
      (be32 rrcSettingsfileVersion, onErrno "Failed to write version"),
      (be32 entryCount, onErrno "Failed to write entry count")] w [] h
  rw [flatMap_header, List.nil_append] at hpartly
  refine ⟨hpartly, fun r file' w' hrun => ?_⟩
  obtain ⟨hpath, header, hprefix, hholds, hall⟩ := hok r file' w' hrun
  rw [flatMap_header] at hprefix hall
  exact ⟨hpath, header, hprefix, hholds, hall⟩

/-- **The options are written** one after the other, and the program stops at the first write that
is short. -/
theorem writes_setOptions (env : Stdio.Env κ Question) (file : File κ) (pairs : List (CStr × UInt32)) :
    Writes env (setOptions file pairs) file (pairs.flatMap encodeEntry) := by
  induction pairs generalizing file with
  | nil => exact Writes.pure file
  | cons pair pairs ih =>
    have hentry : encodeEntry pair =
        [(be32 (UInt32.ofNat pair.1.len), onErrno "Failed to write key length"),
          (pair.1.bytes, onErrno "Failed to write key"),
          (be32 4, onErrno "Failed to write value length"),
          (be32 pair.2, onErrno "Failed to write value")].flatMap (·.1) := by
      simp [encodeEntry]
    rw [List.flatMap_cons, hentry]
    exact Writes.fwriteItemsOr (fun e _ => Fails.throw e) fun file' _ => ih file'

section Works

variable (hworks : env.Works)

include hworks

/-- Where every call works, the header is written whole: no error comes back, and the file holds
exactly the header. -/
theorem writeHeader_works {file : File κ} {w : World κ} (h : Holds file w []) (entryCount : UInt32) :
    ∃ file' w', rrcSettingsfileWriteHeader file entryCount env w = (.ok (none, file'), w') ∧
      file'.path = file.path ∧ Holds file' w' (encodeHeader entryCount) := by
  obtain ⟨file', w', hrun⟩ := fwriteItems_works hworks file
    [(be32 rrcSettingsfileMagic, onErrno "Failed to write magic header"),
      (be32 rrcSettingsfileVersion, onErrno "Failed to write version"),
      (be32 entryCount, onErrno "Failed to write entry count")] w
  obtain ⟨hpath, header, -, hholds, hall⟩ :=
    (rrcSettingsfileWriteHeader_spec env h entryCount).2 none file' w' hrun
  rw [hall rfl] at hholds
  exact ⟨file', w', hrun, hpath, hholds⟩

/-- Where every call works, all of the options are written, and the loop over them gets to its end.
-/
theorem setOptions_works (file : File κ) (pairs : List (CStr × UInt32)) (w : World κ) :
    ∃ file' w', setOptions file pairs env w = (.ok file', w') := by
  induction pairs generalizing file w with
  | nil => exact ⟨file, w, rfl⟩
  | cons pair pairs ih =>
    obtain ⟨file₁, w₁, hrun⟩ := fwriteItems_works hworks file
      [(be32 (UInt32.ofNat pair.1.len), onErrno "Failed to write key length"),
        (pair.1.bytes, onErrno "Failed to write key"),
        (be32 4, onErrno "Failed to write value length"),
        (be32 pair.2, onErrno "Failed to write value")] w
    obtain ⟨file₂, w₂, hrun₂⟩ := ih file₁ w₁
    refine ⟨file₂, w₂, ?_⟩
    rw [setOptions, Prog.bind_run, rrcSettingsfileSetOption, hrun]
    exact hrun₂

/-- Both writers of the source end like this: with the bytes on the card. -/
theorem writeAll_works {path : κ} {w : World κ} (hempty : w.card path = some [])
    (pairs : List (CStr × UInt32)) :
    ∃ file₁ w₁ file₂ w₂ w₃,
      rrcSettingsfileWriteHeader ⟨path, []⟩ (UInt32.ofNat pairs.length) env w =
        (.ok (none, file₁), w₁) ∧
      setOptions file₁ pairs env w₁ = (.ok file₂, w₂) ∧
      fclose file₂ env w₂ = ((.ok true : Except (Stop RrcResultError) Bool), w₃) ∧
      w₃.card path = some (encode pairs) := by
  obtain ⟨file₁, w₁, hrun₁, hpath₁, hholds₁⟩ :=
    writeHeader_works hworks (show Holds ⟨path, []⟩ w [] from ⟨[], hempty, rfl⟩)
      (UInt32.ofNat pairs.length)
  obtain ⟨file₂, w₂, hrun₂⟩ := setOptions_works hworks file₁ pairs w₁
  obtain ⟨hpath₂, hholds₂⟩ := (writes_setOptions env file₁ pairs w₁ _ hholds₁).2 file₂ w₂ hrun₂
  obtain ⟨w₃, hrun₃⟩ := fclose_works (ε := RrcResultError) hworks file₂ w₂
  obtain ⟨hcard, -⟩ := (fclose_spec env hholds₂).1 w₃ hrun₃
  refine ⟨file₁, w₁, file₂, w₂, w₃, hrun₁, hrun₂, hrun₃, ?_⟩
  rw [hcard, hpath₂, hpath₁, Function.update_self]
  rfl

/-- **Parsing a file that can be read** returns what its contents parse to. -/
theorem rrcSettingsfileParse_works (canon : CStr → κ) {w : World κ} {content : Bytes}
    (h : w.card (canon rrcSettingsfilePath) = some content) :
    ∃ w', rrcSettingsfileParse canon env w = (.ok (parseContent content), w') := by
  refine ⟨w.tick.tick, ?_⟩
  rw [rrcSettingsfileParse, Prog.bind_run, fopenRead_works hworks h]
  simp only [Prog.bind_run, freadable_works hworks]
  rfl

end Works

end Writing

/-- The header for a list of pairs and each of them in turn, in a file that is
opened for this and closed. -/
def writePairs {κ : Type} [DecidableEq κ] (canon : CStr → κ) (pairs : List (CStr × UInt32)) :
    Routine κ Unit := do
  let file ← fopenWriteOr (canon rrcSettingsfilePath) (failErrno "Failed to open settingsfile")
  match ← rrcSettingsfileWriteHeader file (UInt32.ofNat pairs.length) with
  | (some e, _) => Prog.throw e
  | (none, file) =>
    let file ← setOptions file pairs
    if ← fclose file then return () else failErrno "Failed to close settingsfile"

/-- **Any list of pairs is stored** where every call works: afterwards the file holds exactly their
encoding, whatever it was before. -/
theorem writePairs_works {κ : Type} [DecidableEq κ] {env : Stdio.Env κ Question} (hworks : env.Works)
    (canon : CStr → κ) (pairs : List (CStr × UInt32)) (w : World κ) :
    ∃ w', writePairs canon pairs env w = (.ok (), w') ∧
      w'.card (canon rrcSettingsfilePath) = some (encode pairs) := by
  have hempty : (w.tick.set (canon rrcSettingsfilePath) (some [])).card (canon rrcSettingsfilePath) =
      some [] := Function.update_self ..
  obtain ⟨file₁, w₁, file₂, w₂, w₃, hrun₁, hrun₂, hrun₃, hcard⟩ := writeAll_works hworks hempty pairs
  refine ⟨w₃, ?_, hcard⟩
  rw [writePairs, Prog.bind_run, fopenWriteOr_works hworks]
  simp only [Prog.bind_run, hrun₁, hrun₂, hrun₃]
  rfl

/-- **The settings are stored** where every call works: afterwards the file holds exactly the
encoding of the three options, whatever it was before. -/
theorem rrcSettingsfileStore_works {κ : Type} [DecidableEq κ] {env : Stdio.Env κ Question}
    (hworks : env.Works) (canon : CStr → κ) (settings : RrcSettingsfile) (w : World κ) :
    ∃ w', rrcSettingsfileStore canon settings env w = (.ok (), w') ∧
      w'.card (canon rrcSettingsfilePath) = some (encode settings.pairs) := by
  have hempty : (w.tick.set (canon rrcSettingsfilePath) (some [])).card (canon rrcSettingsfilePath) =
      some [] := Function.update_self ..
  obtain ⟨file₁, w₁, file₂, w₂, w₃, hrun₁, hrun₂, hrun₃, hcard⟩ :=
    writeAll_works hworks hempty settings.pairs
  refine ⟨w₃, ?_, hcard⟩
  have hthree : UInt32.ofNat settings.pairs.length = 3 := rfl
  rw [hthree] at hrun₁
  rw [rrcSettingsfileStore, Prog.bind_run, fopenWriteOr_works hworks]
  simp only [Prog.bind_run, hrun₁, hrun₂, hrun₃]
  rfl

/-- The settings have far fewer options than the count of the header can tell. -/
theorem RrcSettingsfile.pairs_length (settings : RrcSettingsfile) :
    settings.pairs.length < 2 ^ 31 := by
  rw [show settings.pairs.length = 3 from rfl]
  omega

/-- The keys of the settings are short enough for the buffer that the parser reads a key to. -/
theorem RrcSettingsfile.pairs_len (settings : RrcSettingsfile) :
    ∀ pair ∈ settings.pairs, pair.1.len < 32 := by
  rw [RrcSettingsfile.pairs]
  simp only [List.forall_mem_cons]
  exact ⟨by decide, by decide, by decide, fun _ h => by cases h⟩

/-- The settings that were stored override all defaults, so what was there before does not show. -/
theorem overrideAll_pairs (settings₀ settings : RrcSettingsfile) :
    overrideAll settings₀ settings.pairs = settings := by
  have h₁ : rrcSettingsfileMyStuffKey ≠ rrcSettingsfileSavegameKey := by decide
  have h₂ : rrcSettingsfileMyStuffKey ≠ rrcSettingsfileAutoupdateKey := by decide
  have h₃ : rrcSettingsfileSavegameKey ≠ rrcSettingsfileAutoupdateKey := by decide
  simp [overrideAll, RrcSettingsfile.pairs, RrcSettingsfile.setKey, h₁.symm, h₂.symm, h₃.symm]

/-- **The settings file reads back.**  For every list of pairs with keys that fit
the reader's buffer, the writers produce bytes that parse to the defaults
overridden by the last occurrence of each known key, and of which no strict prefix
parses; so settings that are stored come back as they were. -/
theorem settingsfile_codec {κ : Type} [DecidableEq κ] (canon : CStr → κ) {env : Stdio.Env κ Question}
    (hworks : env.Works) {pairs : List (CStr × UInt32)} (hlen : pairs.length < 2 ^ 31)
    (hkeys : ∀ pair ∈ pairs, pair.1.len < 32) (w : World κ) :
    (∃ bytes w₁ w₂, writePairs canon pairs env w = (.ok (), w₁) ∧
      w₁.card (canon rrcSettingsfilePath) = some bytes ∧
      rrcSettingsfileParse canon env w₁ = (.ok (.ok (),
        ⟨(lastValue rrcSettingsfileMyStuffKey pairs).getD rrcSettingsfileInitDefaults.myStuff,
          (lastValue rrcSettingsfileSavegameKey pairs).getD
            rrcSettingsfileInitDefaults.separateSavegame,
          (lastValue rrcSettingsfileAutoupdateKey pairs).getD
            rrcSettingsfileInitDefaults.autoUpdate⟩), w₂) ∧
      ∀ p, p <+: bytes → p ≠ bytes → ∀ w', w'.card (canon rrcSettingsfilePath) = some p →
        ∃ e settings w'', rrcSettingsfileParse canon env w' = (.ok (.error e, settings), w'')) ∧
    ∀ settings : RrcSettingsfile, ∃ w₁ w₂,
      rrcSettingsfileStore canon settings env w = (.ok (), w₁) ∧
      rrcSettingsfileParse canon env w₁ = (.ok (.ok (), settings), w₂) := by
  constructor
  · obtain ⟨w₁, hrun, hcard⟩ := writePairs_works hworks canon pairs w
    obtain ⟨w₂, hparse⟩ := rrcSettingsfileParse_works hworks canon hcard
    rw [parseContent_encode hlen hkeys, overrideAll_eq] at hparse
    refine ⟨encode pairs, w₁, w₂, hrun, hcard, hparse, fun p hp hne w' hw' => ?_⟩
    obtain ⟨e, he⟩ := parseContent_strict_prefix hlen hkeys hp hne
    obtain ⟨w'', hparse'⟩ := rrcSettingsfileParse_works hworks canon hw'
    exact ⟨e, (parseContent p).2, w'', by rw [hparse', ← he]⟩
  · intro settings
    obtain ⟨w₁, hrun, hcard⟩ := rrcSettingsfileStore_works hworks canon settings w
    obtain ⟨w₂, hparse⟩ := rrcSettingsfileParse_works hworks canon hcard
    rw [parseContent_encode settings.pairs_length settings.pairs_len, overrideAll_pairs] at hparse
    exact ⟨w₁, w₂, hrun, hparse⟩

/-- A key that occurs twice and one that is unknown. -/
theorem settingsfile_codec_twice :
    ∃ w₁ w₂ : World CStr,
      writePairs id [(rrcSettingsfileMyStuffKey, 2), (CStr.lit "Theme", 7),
        (rrcSettingsfileMyStuffKey, 5)] (fun _ _ => .ok 0) ⟨fun _ => none, 0, 0, []⟩ =
          (.ok (), w₁) ∧
      rrcSettingsfileParse id (fun _ _ => .ok 0) w₁ = (.ok (.ok (), ⟨5, 0, 1⟩), w₂) := by
  have hworks : Stdio.Env.Works (fun _ _ => .ok 0 : Stdio.Env CStr Question) := fun _ _ => ⟨0, rfl⟩
  obtain ⟨⟨_, w₁, w₂, hrun, -, hparse, -⟩, -⟩ := settingsfile_codec id hworks
    (show [(rrcSettingsfileMyStuffKey, (2 : UInt32)), (CStr.lit "Theme", 7),
      (rrcSettingsfileMyStuffKey, 5)].length < 2 ^ 31 by decide)
    (by simp only [List.forall_mem_cons]; exact ⟨by decide, by decide, by decide, by simp⟩)
    ⟨fun _ => none, 0, 0, []⟩
  refine ⟨w₁, w₂, hrun, ?_⟩
  rw [hparse]
  rfl

end RrLauncher
