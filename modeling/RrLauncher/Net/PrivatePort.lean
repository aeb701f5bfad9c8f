/-
# The port of the game

`private_port.c`: the UDP port that the game will use is 22000 and the last three digits of the
serial number of the console, which is in the encrypted `setting.txt` of its flash memory.

The port comes of the digits behind the first `SERNO=` in the text, and there is none where no
digit follows it, whatever comes later (`private_port_iff`).
-/

import Mathlib.Algebra.Group.Nat.Defs
import RrLauncher.Lib.CText
import RrLauncher.Lib.Decimal

namespace RrLauncher

open CStr (lit)
open Decimal (isdigit)
open Search (Clear firstAt)

/-- `RR_SETTING_SIZE`. -/
def rrSettingSize : ℕ := 256

/-- `RR_SETTING_XOR_KEY`. -/
def rrSettingXorKey : UInt32 := 0x73B5DBFA

/-- The loop of `rr_setting_decrypt`, from a key on. -/
def decryptFrom (key : UInt32) : List UInt8 → List UInt8
  | [] => []
  | b :: buf => (b ^^^ (key &&& 0xff).toUInt8) :: decryptFrom (key <<< 1 ||| key >>> 31) buf

/-- `rr_setting_decrypt`. -/
def rrSettingDecrypt (buf : List UInt8) : List UInt8 := decryptFrom rrSettingXorKey buf

/-- The inner loop of `rr_parse_serno`: the value, and how many digits there are. -/
def sernoDigits (value : UInt32) : List UInt8 → UInt32 × ℕ
  | [] => (value, 0)
  | c :: rest =>
    if c < 48 ∨ c > 57 then (value, 0)
    else
      let r := sernoDigits (value * 10 + (c - 48).toUInt32) rest
      (r.1, r.2 + 1)

/-- `rr_parse_serno`, from a place in the buffer on.  Fewer than six bytes are not the prefix. -/
def rrParseSerno : List UInt8 → Option UInt32
  | [] => none
  | c :: buf =>
    if ((c :: buf).take 6) ≠ (lit "SERNO=").bytes then rrParseSerno buf
    else
      let r := sernoDigits 0 ((c :: buf).drop 6)
      if r.2 = 0 then none else some r.1

/-- What the functions for the flash memory do: what they return, and what is read. -/
structure SettingFile where
  initialized : ℤ
  fd : ℤ
  result : ℤ
  buf : List UInt8

/-- `rr_get_mkwii_private_port`: the port, if it returns true. -/
def rrGetMkwiiPrivatePort (file : SettingFile) : Option UInt16 :=
  if file.initialized < 0 then none
  else if file.fd < 0 then none
  else if file.result ≠ rrSettingSize then none
  else
    match rrParseSerno (rrSettingDecrypt file.buf) with
    | none => none
    | some serno => some (22000 + serno % 1000).toUInt16

/-! ### The text -/

/-- Decrypting twice with the same key gives the bytes back, so the same function encrypts. -/
theorem decryptFrom_decryptFrom (key : UInt32) (buf : List UInt8) :
    decryptFrom key (decryptFrom key buf) = buf := by
  induction buf generalizing key with
  | nil => rfl
  | cons b buf ih =>
    rw [decryptFrom, decryptFrom, ih, UInt8.xor_assoc, UInt8.xor_self, UInt8.xor_zero]

/-- **Encrypting is decrypting**: the same function, applied to the whole file twice, gives it back.
So every text is the decryption of some file. -/
theorem rrSettingDecrypt_rrSettingDecrypt (buf : List UInt8) :
    rrSettingDecrypt (rrSettingDecrypt buf) = buf := decryptFrom_decryptFrom _ _

/-- The test of the source, below `'0'` or above `'9'`, is that of `isdigit`. -/
theorem not_digit_iff (c : UInt8) : (c < 48 ∨ c > 57) ↔ isdigit c = false := by
  rw [isdigit, ← Bool.not_eq_true, Bool.and_eq_true, decide_eq_true_iff, decide_eq_true_iff]
  simp only [UInt8.le_iff_toNat_le, UInt8.lt_iff_toNat_lt, gt_iff_lt]
  omega

/-- One more digit of the serial number, with the multiplication and the addition in 32 bits, where
both may wrap around. -/
theorem serno_step {c : UInt8} (hc : isdigit c = true) (n : ℕ) :
    UInt32.ofNat n * 10 + (c - 48).toUInt32 = UInt32.ofNat (10 * n + (c.toNat - 48)) := by
  rw [isdigit, Bool.and_eq_true, decide_eq_true_iff, decide_eq_true_iff] at hc
  have hle : 48 ≤ c.toNat := UInt8.le_iff_toNat_le.mp hc.1
  have hsub : (c - 48).toUInt32 = UInt32.ofNat (c.toNat - 48) := by
    have hnat : (c - 48).toNat = c.toNat - 48 := UInt8.toNat_sub_of_le _ _ hc.1
    rw [← UInt32.toNat_inj, UInt8.toNat_toUInt32, hnat, UInt32.toNat_ofNat_of_lt']
    exact Nat.lt_of_le_of_lt (Nat.sub_le _ _) (c.toNat_lt.trans (by decide))
  rw [hsub, UInt32.ofNat_add, UInt32.ofNat_mul, UInt32.mul_comm]
  rfl

/-- **The digits** up to what is none; their value wraps at 32 bits. -/
theorem sernoDigits_eq (n : ℕ) (s : List UInt8) :
    sernoDigits (UInt32.ofNat n) s =
      (UInt32.ofNat ((s.takeWhile isdigit).foldl (fun n c => 10 * n + (c.toNat - 48)) n),
        (s.takeWhile isdigit).length) := by
  induction s generalizing n with
  | nil => rfl
  | cons c s ih =>
    rw [sernoDigits, List.takeWhile_cons]
    by_cases hc : isdigit c = true
    · have hdigit : ¬ (c < 48 ∨ c > 57) := by rw [not_digit_iff, hc]; simp
      rw [if_neg hdigit, if_pos hc, serno_step hc, ih, List.foldl_cons, List.length_cons]
    · rw [Bool.not_eq_true] at hc
      rw [if_pos ((not_digit_iff c).mpr hc), hc, if_neg (by simp)]
      rfl

/-- The serial number is behind the first place of `SERNO=`. -/
theorem rrParseSerno_eq (buf : List UInt8) :
    rrParseSerno buf = (firstAt (lit "SERNO=").bytes buf).bind fun t =>
      let r := sernoDigits 0 (t.drop 6)
      if r.2 = 0 then none else some r.1 := by
  induction buf with
  | nil => rfl
  | cons c buf ih =>
    have htake : (lit "SERNO=").bytes <+: c :: buf ↔ (c :: buf).take 6 = (lit "SERNO=").bytes := by
      rw [List.prefix_iff_eq_take]
      exact eq_comm
    rw [rrParseSerno, Search.firstAt_cons]
    by_cases h : (c :: buf).take 6 = (lit "SERNO=").bytes
    · rw [if_neg (not_not.mpr h), if_pos (htake.mpr h)]
      rfl
    · rw [if_pos h, if_neg (mt htake.mp h), ih]

/-- The text names a serial number: `SERNO=` is nowhere before, and `after` does not go on with a
digit. -/
structure NamesSerno (text before serial after : List UInt8) : Prop where
  eq : text = before ++ ((lit "SERNO=").bytes ++ (serial ++ after))
  first : Clear (lit "SERNO=").bytes before ((lit "SERNO=").bytes ++ (serial ++ after))
  digits : ∀ c ∈ serial, isdigit c = true
  nonempty : serial ≠ []
  ends : ∀ c ∈ after.head?, isdigit c = false

/-- The digits of the serial number end where `after` begins, as that starts with no digit. -/
theorem NamesSerno.takeWhile_eq {text before serial after : List UInt8}
    (h : NamesSerno text before serial after) : (serial ++ after).takeWhile isdigit = serial := by
  rw [List.takeWhile_append_of_pos h.digits]
  have hafter : after.takeWhile isdigit = [] := by
    cases after with
    | nil => rfl
    | cons c after =>
      rw [List.takeWhile_cons, h.ends c rfl]
      rfl
  rw [hafter, List.append_nil]

/-- **The serial number of a text** is the number of the digits behind its name, up to 32 bits of
it, and there is none exactly where the text has no such place. -/
theorem rrParseSerno_eq_some_iff (text : List UInt8) (serno : UInt32) :
    rrParseSerno text = some serno ↔
      ∃ before serial after, NamesSerno text before serial after ∧
        serno = UInt32.ofNat (Decimal.value serial) := by
  have hzero : (0 : UInt32) = UInt32.ofNat 0 := rfl
  have hdrop : ∀ rest, ((lit "SERNO=").bytes ++ rest).drop 6 = rest := fun _ => List.drop_left' rfl
  rw [rrParseSerno_eq, Option.bind_eq_some_iff]
  constructor
  · rintro ⟨t, hfirst, hserno⟩
    obtain ⟨before, rfl, hclear, rest, rfl⟩ := Search.firstAt_eq_some_iff.mp hfirst
    rw [hdrop, hzero, sernoDigits_eq] at hserno
    dsimp only at hserno
    split at hserno
    · cases hserno
    · rename_i hlen
      have hsplit := List.takeWhile_append_dropWhile (p := isdigit) (l := rest)
      refine ⟨before, rest.takeWhile isdigit, rest.dropWhile isdigit, ⟨?_, ?_, ?_, ?_, ?_⟩,
        (Option.some.inj hserno).symm⟩
      · rw [hsplit]
      · rwa [hsplit]
      · exact fun c hc => List.mem_takeWhile_imp hc
      · exact fun hnil => hlen (by rw [hnil]; rfl)
      · intro c hc
        have hhead := List.head?_dropWhile_not isdigit rest
        rw [Option.mem_def.mp hc] at hhead
        simpa using hhead
  · rintro ⟨before, serial, after, h, rfl⟩
    refine ⟨(lit "SERNO=").bytes ++ (serial ++ after), ?_, ?_⟩
    · exact Search.firstAt_eq_some_iff.mpr ⟨before, h.eq, h.first, List.prefix_append _ _⟩
    · rw [hdrop, hzero, sernoDigits_eq, h.takeWhile_eq, if_neg (mt List.length_eq_zero_iff.mp h.nonempty)]
      rfl

/-- **The port of the game.**  For every text in the flash memory: there is a port exactly if the
file can be read and the first `SERNO=` in it comes before a digit.  It is then 22000 and the
last three digits of the number there, as it is in 32 bits. -/
theorem private_port_iff (initialized fd result : ℤ) (text : List UInt8) (port : UInt16) :
    rrGetMkwiiPrivatePort ⟨initialized, fd, result, rrSettingDecrypt text⟩ = some port ↔
      (0 ≤ initialized ∧ 0 ≤ fd ∧ result = rrSettingSize) ∧
        ∃ before serial after, NamesSerno text before serial after ∧
          port.toNat = 22000 + Decimal.value serial % 2 ^ 32 % 1000 := by
  have hport : ∀ n : ℕ, (22000 + UInt32.ofNat n % 1000).toUInt16.toNat = 22000 + n % 2 ^ 32 % 1000 := by
    intro n
    rw [UInt32.toNat_toUInt16, UInt32.toNat_add, UInt32.toNat_mod, UInt32.toNat_ofNat']
    have hconst : (22000 : UInt32).toNat = 22000 ∧ (1000 : UInt32).toNat = 1000 := ⟨rfl, rfl⟩
    rw [hconst.1, hconst.2]
    omega
  rw [rrGetMkwiiPrivatePort, rrSettingDecrypt_rrSettingDecrypt]
  dsimp only
  by_cases hread : 0 ≤ initialized ∧ 0 ≤ fd ∧ result = rrSettingSize
  · rw [if_neg (by omega), if_neg (by omega), if_neg (not_not.mpr hread.2.2)]
    simp only [hread, true_and]
    cases hserno : rrParseSerno text with
    | none =>
      refine ⟨fun h => (by cases h), ?_⟩
      rintro ⟨before, serial, after, h, -⟩
      have hsome := (rrParseSerno_eq_some_iff text _).mpr ⟨before, serial, after, h, rfl⟩
      rw [hserno] at hsome
      cases hsome
    | some serno =>
      dsimp only
      rw [Option.some.injEq]
      constructor
      · rintro rfl
        obtain ⟨before, serial, after, h, rfl⟩ := (rrParseSerno_eq_some_iff text serno).mp hserno
        exact ⟨before, serial, after, h, hport _⟩
      · rintro ⟨before, serial, after, h, hvalue⟩
        have hsome := (rrParseSerno_eq_some_iff text _).mpr ⟨before, serial, after, h, rfl⟩
        rw [hserno, Option.some.injEq] at hsome
        rw [hsome, ← UInt16.toNat_inj, hport, hvalue]
  · refine ⟨fun h => ?_, fun h => absurd h.1 hread⟩
    split at h
    · cases h
    · split at h
      · cases h
      · split at h
        · cases h
        · exact absurd ⟨by omega, by omega, not_not.mp ‹_›⟩ hread

end RrLauncher
