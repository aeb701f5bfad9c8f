/-
# The registry of UPnP errors

`upnp_error_codes.c`: the registry is a JSON text, in which an error code is looked up
with searches for substrings.  A pointer into the text is what is left of it, with
whatever stands behind it in memory up to a NUL, and the end of a search is the number of
bytes that are left behind the end.
-/

import RrLauncher.Console.AsciiSafe
import RrLauncher.Lib.CText
import RrLauncher.Lib.Decimal
import RrLauncher.Lib.Json

namespace RrLauncher

open CStr (lit)

/-- `while (q < end && (*q == ' ' || ...)) ++q`. -/
def skipSpace (stop : ℕ) (q : CStr) : CStr :=
  ⟨Json.skipSpace stop q.bytes, fun h => q.noNul ((Json.skipSpace_suffix stop q.bytes).mem h)⟩

/-- Skipping white space is, on the bytes, the same function of the general library. -/
@[simp] theorem skipSpace_bytes (stop : ℕ) (q : CStr) :
    (skipSpace stop q).bytes = Json.skipSpace stop q.bytes := rfl

/-- The loop of `rr_upnp_error_lookup` and `rr_json_read_string` that searches for a quoted
key: where the colon behind it is. -/
def findKeyColon (pattern : CStr) (stop : ℕ) (p : CStr) : Option CStr :=
  if stop < p.len then
    match _h : p.strstr pattern with
    | none => none
    | some key =>
      if key.len ≤ stop then none
      else
        let after := skipSpace stop (key.drop pattern.len)
        if stop < after.len ∧ after.first = Json.colon then some after
        else findKeyColon pattern stop (key.drop 1)
  else none
  termination_by p.len
  decreasing_by
    have hkey := CStr.strstr_len _h
    rw [CStr.drop_len]
    omega

/-- What a backslash and a byte stand for. -/
def decodeEscape (b : UInt8) : UInt8 :=
  match b with
  | 110 => 10 -- `'n'`
  | 114 => 13 -- `'r'`
  | 116 => 9 -- `'t'`
  | _ => b

/-- The loop over the characters of a string: what was written to `out` at its end. -/
def readChars (stop outSize : ℕ) : List UInt8 → List UInt8 → Option (List UInt8)
  | [], _ => none
  | c :: rest, out =>
    if (c :: rest).length ≤ stop then none
    else if c = Json.quote then some out
    else if c = Json.backslash ∧ stop < rest.length then
      match rest with
      | [] => none
      | d :: rest => if outSize ≤ out.length + 1 then none
        else readChars stop outSize rest (out ++ [decodeEscape d])
    else if outSize ≤ out.length + 1 then none
    else readChars stop outSize rest (out ++ [c])

/-- One turn of the reading of a string, with the tests in the order of the source: the end of the
text, the closing quote, an escape, and then the room for the byte. -/
theorem readChars_cons (stop outSize : ℕ) (c : UInt8) (rest out : List UInt8) :
    readChars stop outSize (c :: rest) out =
      if (c :: rest).length ≤ stop then none
      else if c = Json.quote then some out
      else if c = Json.backslash ∧ stop < rest.length then
        match rest with
        | [] => none
        | d :: rest => if outSize ≤ out.length + 1 then none
          else readChars stop outSize rest (out ++ [decodeEscape d])
      else if outSize ≤ out.length + 1 then none
      else readChars stop outSize rest (out ++ [c]) := by
  cases rest <;> rfl

/-- `rr_json_read_string`: what `out` holds if it returns true. -/
def rrJsonReadString (start : CStr) (stop : ℕ) (key : CStr) (outSize : ℕ) : Option CStr :=
  let pattern := lit "\"" ++ key ++ lit "\""
  if outSize = 0 ∨ 96 ≤ pattern.len then none
  else
    match findKeyColon pattern stop start with
    | none => none
    | some q =>
      let q := skipSpace stop (q.drop 1)
      if stop < q.len ∧ q.first = Json.quote then
        (readChars stop outSize (q.drop 1).bytes []).map (asciiSafeInPlace · outSize)
      else none

/-- `'{'`. -/
def leftBrace : UInt8 := 123

/-- `'}'`. -/
def rightBrace : UInt8 := 125

/-- The loop of `rr_json_find_object_end`, with the depth and whether it is in a string. -/
def objectEndLoop (stop : ℕ) : List UInt8 → ℤ → Bool → Option (List UInt8)
  | [], _, _ => none
  | c :: rest, depth, inString =>
    if (c :: rest).length ≤ stop then none
    else if inString then
      if c = Json.backslash ∧ stop < rest.length then
        match rest with
        | [] => none
        | _ :: rest => objectEndLoop stop rest depth true
      else objectEndLoop stop rest depth (c ≠ Json.quote)
    else if c = Json.quote then objectEndLoop stop rest depth true
    else if c = leftBrace then objectEndLoop stop rest (depth + 1) false
    else if c = rightBrace then
      if depth - 1 = 0 then some (c :: rest) else objectEndLoop stop rest (depth - 1) false
    else objectEndLoop stop rest depth false

/-- One turn of the search for the end of an object, with the tests in the order of the source. -/
theorem objectEndLoop_cons (stop : ℕ) (c : UInt8) (rest : List UInt8) (depth : ℤ) (inString : Bool) :
    objectEndLoop stop (c :: rest) depth inString =
      if (c :: rest).length ≤ stop then none
      else if inString then
        if c = Json.backslash ∧ stop < rest.length then
          match rest with
          | [] => none
          | _ :: rest => objectEndLoop stop rest depth true
        else objectEndLoop stop rest depth (c ≠ Json.quote)
      else if c = Json.quote then objectEndLoop stop rest depth true
      else if c = leftBrace then objectEndLoop stop rest (depth + 1) false
      else if c = rightBrace then
        if depth - 1 = 0 then some (c :: rest) else objectEndLoop stop rest (depth - 1) false
      else objectEndLoop stop rest depth false := by
  cases rest <;> rfl

/-- `rr_json_find_object_end`. -/
def rrJsonFindObjectEnd (objectStart : CStr) (stop : ℕ) : Option (List UInt8) :=
  objectEndLoop stop objectStart.bytes 0 false

/-- `rr_upnp_error_info_t`. -/
structure RrUpnpErrorInfo where
  code : Decimal.CInt
  known : Bool
  name : CStr
  description : CStr
  solution : CStr
  deriving DecidableEq

/-- `%d` of an `int`: its decimal digits, and a sign if it is negative. -/
def signedText (x : Decimal.CInt) : CStr :=
  ⟨Decimal.decimal x.val, fun h => (Decimal.mem_decimal h).elim (fun h => absurd h (by decide))
    (fun h => absurd h (by decide))⟩

/-- The texts without an error code. -/
def noErrorCode (code : Decimal.CInt) : RrUpnpErrorInfo :=
  ⟨code, false, (lit "No UPnP error code").fit 64,
    (lit "The router did not return a UPnP SOAP error code.").fit 256,
    (lit "Check the router connection and UPnP status.").fit 256⟩

/-- The texts of an error code that is not known. -/
def unknownError (code : Decimal.CInt) : RrUpnpErrorInfo :=
  ⟨code, false, (lit "Unknown UPnP error").fit 64,
    (lit "The router returned a UPnP error code that is not yet in the registry.").fit 256,
    (lit "Check the router documentation or add this code to upnp_error_codes.json.").fit 256⟩

/-- The three texts of the object at `objectStart`. -/
def readErrorInfo (code : Decimal.CInt) (objectStart : CStr) (objectEnd : ℕ) :
    Option RrUpnpErrorInfo :=
  match rrJsonReadString objectStart objectEnd (lit "name") 64 with
  | none => none
  | some name =>
    match rrJsonReadString objectStart objectEnd (lit "description") 256 with
    | none => none
    | some description =>
      match rrJsonReadString objectStart objectEnd (lit "solution") 256 with
      | none => none
      | some solution => some ⟨code, true, name, description, solution⟩

/-- `rr_upnp_error_lookup` in the registry at `json`, which ends where `stop` bytes are left;
the key, of at most 13 bytes, fits its buffer. -/
def rrUpnpErrorLookup (json : CStr) (stop : ℕ) (code : Decimal.CInt) : Bool × RrUpnpErrorInfo :=
  if code.val ≤ 0 then (false, noErrorCode code)
  else
    let codeKey := lit "\"" ++ signedText code ++ lit "\""
    match findKeyColon codeKey stop json with
    | none => (false, unknownError code)
    | some after =>
      match after.strchr leftBrace with
      | none => (false, unknownError code)
      | some objectStart =>
        if objectStart.len ≤ stop then (false, unknownError code)
        else
          match rrJsonFindObjectEnd objectStart stop with
          | none => (false, unknownError code)
          | some objectEnd =>
            match readErrorInfo code objectStart objectEnd.length with
            | none => (false, unknownError code)
            | some info => (true, info)

end RrLauncher
