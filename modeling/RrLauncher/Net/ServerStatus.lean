/-
# The server status

`server_status.c`: the status is a JSON text of two strings that are looked up with a search for
the quoted key.  A pointer into the text is what is left of it, and an output buffer is the memory
from its first byte on.
-/

import RrLauncher.Net.UpnpErrorCodes

namespace RrLauncher

open CStr (lit)

/-- `rr_server_status_find_string`: where the characters of the string begin. -/
def rrServerStatusFindString (json key : CStr) : Option CStr :=
  let pattern := (lit "\"" ++ key ++ lit "\"").fit 64
  match json.strstr pattern with
  | none => none
  | some p =>
    let p := (p.drop pattern.len).skipWhile Json.isSpace
    if p.first ≠ Json.colon then none
    else
      let p := (p.drop 1).skipWhile Json.isSpace
      if p.first ≠ Json.quote then none else some (p.drop 1)

/-- The loop of `rr_server_status_read_string`: what it has written to `out`, and whether it came to
the quote that ends the string. -/
def readStatusChars (outSize : ℕ) : List UInt8 → List UInt8 → List UInt8 × Bool
  | [], out => (out, false)
  | c :: rest, out =>
    if c = Json.quote then (out, true)
    else if c = Json.backslash ∧ rest ≠ [] then
      match rest with
      | [] => (out, false)
      | d :: rest =>
        -- an escape for which there is no room is skipped
        readStatusChars outSize rest
          (if out.length + 1 < outSize then out ++ [decodeEscape d] else out)
    else if outSize ≤ out.length + 1 then (out, false)
    else readStatusChars outSize rest (out ++ [c])

/-- One turn of the reading of a string, with the tests in the order of the source: the closing
quote, an escape, which is passed over even where there is no room for it, and then the room for the
byte. -/
theorem readStatusChars_cons (outSize : ℕ) (c : UInt8) (rest out : List UInt8) :
    readStatusChars outSize (c :: rest) out =
      if c = Json.quote then (out, true)
      else if c = Json.backslash ∧ rest ≠ [] then
        match rest with
        | [] => (out, false)
        | d :: rest =>
          readStatusChars outSize rest
            (if out.length + 1 < outSize then out ++ [decodeEscape d] else out)
      else if outSize ≤ out.length + 1 then (out, false)
      else readStatusChars outSize rest (out ++ [c]) := by
  cases rest <;> rfl

/-- `rr_server_status_read_string`: the memory at `out` afterwards, and what is returned. -/
def rrServerStatusReadString (json key : CStr) (out : List UInt8) (outSize : ℕ) :
    List UInt8 × Bool :=
  match rrServerStatusFindString json key with
  | none => (out, false)
  | some p =>
    if outSize = 0 then (out, false)
    else
      let read := readStatusChars outSize p.bytes []
      if read.2 then (rrcConAsciiSafe (writeBytes out 0 (read.1 ++ [0])) 0 0 outSize, true)
      else (writeBytes out 0 read.1, false)

/-- `rr_server_status_variant_t`. -/
inductive RrServerStatusVariant
  | none
  | warning
  | error
  | success
  | info
  | party
  | question
  | unknown
  deriving DecidableEq

/-- The variants that have a name. -/
def knownVariants : List (CStr × RrServerStatusVariant) :=
  [(lit "none", .none), (lit "warning", .warning), (lit "error", .error),
    (lit "success", .success), (lit "info", .info), (lit "party", .party),
    (lit "question", .question)]

/-- `rr_server_status_parse_variant`. -/
def rrServerStatusParseVariant (variant : CStr) : RrServerStatusVariant :=
  (knownVariants.lookup variant).getD .unknown

/-- `struct rr_server_status_result`. -/
structure RrServerStatusResult where
  variant : RrServerStatusVariant
  message : List UInt8

/-- `rr_server_status_parse`, where neither pointer is null: the result and what is returned.  What
is in `variant` before the call is `stack`. -/
def rrServerStatusParse (json : CStr) (stack : List UInt8) : RrServerStatusResult × Bool :=
  let zeros := List.replicate 256 0
  let variant := rrServerStatusReadString json (lit "variant") stack 32
  if variant.2 = false then (⟨.unknown, zeros⟩, false)
  else
    let message := rrServerStatusReadString json (lit "message") zeros 256
    if message.2 = false then (⟨.unknown, message.1⟩, false)
    else
      let parsed := rrServerStatusParseVariant (CStr.ofBuffer variant.1)
      (⟨parsed, message.1⟩, parsed ≠ .unknown)

end RrLauncher
