/-
# The attributes of a STUN response

`rr_stun_parse_address` and the loop of `rr_stun_binding_internal_addr` of `stun.c`.
The Wii is big-endian, so a number is read from the datagram as it stands there and
`htonl` and `ntohl` change nothing.  A run ends where a byte behind the datagram is
read.
-/

import RrLauncher.Lib.Align
import RrLauncher.Lib.ByteAt
import RrLauncher.Net.Stun

namespace RrLauncher

open TimedQueue

/-- `STUN_MAGIC_COOKIE`. -/
def stunMagicCookie : UInt32 := 0x2112A442

/-- `STUN_RESPONSE_ORIGIN`. -/
def stunResponseOrigin : UInt16 := 0x802B

/-- `STUN_OTHER_ADDRESS`. -/
def stunOtherAddress : UInt16 := 0x802C

/-- `STUN_XOR_MAPPED_ADDRESS`. -/
def stunXorMappedAddress : UInt16 := 0x0020

/-- `STUN_MAPPED_ADDRESS`. -/
def stunMappedAddress : UInt16 := 0x0001

/-- An address: `ip` and `port`. -/
structure StunAddress where
  ip : UInt32
  port : UInt16
  deriving DecidableEq

/-- Where the caller wants an address: what stands behind the pointers that are not
null. -/
structure AddressCells where
  ip : Option UInt32
  port : Option UInt16
  deriving DecidableEq

/-- Both pointers are there, so the caller wants this address. -/
def AddressCells.wanted (cells : AddressCells) : Bool := cells.ip.isSome && cells.port.isSome

/-- What stands behind the pointers is set to 0. -/
def AddressCells.zero (cells : AddressCells) : AddressCells :=
  ⟨cells.ip.map fun _ => 0, cells.port.map fun _ => 0⟩

/-- An address is stored, unless one of the pointers is null. -/
def AddressCells.store (cells : AddressCells) (address : StunAddress) : AddressCells :=
  if cells.wanted then ⟨some address.ip, some address.port⟩ else cells

/-- What a Binding request reports. -/
structure StunReport where
  success : Bool
  publicAddress : StunAddress
  responseOrigin : AddressCells
  other : AddressCells
  deriving DecidableEq

/-- `rr_stun_parse_address` on the value at `value`: the address, if it returns true. -/
def rrStunParseAddress (buf : List UInt8) (value : ℕ) (len : UInt16) (wanted xorAddress : Bool) :
    Option (Option StunAddress) :=
  if len < 8 then some none
  else do
    let family ← buf[value + 1]?
    if family ≠ 0x01 ∨ ¬ wanted then return none
    else
      let p ← ByteAt.u16At buf (value + 2)
      let addr ← ByteAt.u32At buf (value + 4)
      if xorAddress then
        return some ⟨addr ^^^ stunMagicCookie, p ^^^ (stunMagicCookie >>> 16).toUInt16⟩
      else return some ⟨addr, p⟩

/-- `len >= 8 && buf[off + 1] == 0x01`. -/
def holdsIpv4 (buf : List UInt8) (off : ℕ) (len : UInt16) : Option Bool :=
  if len < 8 then some false else (buf[off + 1]?).map (· = 0x01)

/-- The tests and assignments for one attribute, whose value is at `off`.  As the types
differ, an attribute of one of them that fails its test fails the others too. -/
def handleAttribute (buf : List UInt8) (type len : UInt16) (off : ℕ) (report : StunReport) :
    Option StunReport :=
  if type = stunXorMappedAddress ∨ type = stunMappedAddress then do
    if ← holdsIpv4 buf off len then
      let address ← rrStunParseAddress buf off len true (type = stunXorMappedAddress)
      return { report with publicAddress := address.getD report.publicAddress }
    else return report
  else if type = stunResponseOrigin then do
    if ← holdsIpv4 buf off len then
      let address ← rrStunParseAddress buf off len report.responseOrigin.wanted false
      return { report with
        responseOrigin := (address.map report.responseOrigin.store).getD report.responseOrigin }
    else return report
  else if type = stunOtherAddress then do
    if ← holdsIpv4 buf off len then
      let address ← rrStunParseAddress buf off len report.other.wanted false
      return { report with other := (address.map report.other.store).getD report.other }
    else return report
  else some report

/-- `(len + 3u) & ~3u`. -/
def paddedLength (len : UInt16) : ℕ := ((len.toUInt32 + 3) &&& ~~~3).toNat

/-- A type and a value. -/
structure StunAttribute where
  type : UInt16
  value : List UInt8
  deriving DecidableEq

/-- The loop over the attributes, from `off` on: the attributes that it visits, and what
is reported. -/
def attributeLoop (buf : List UInt8) (off : ℕ) (report : StunReport) :
    Option (List StunAttribute × StunReport) :=
  if _h : off + 4 ≤ buf.length then do
    let type ← ByteAt.u16At buf off
    let len ← ByteAt.u16At buf (off + 2)
    if off + 4 + len.toNat > buf.length then return ([], report)
    else
      let report ← handleAttribute buf type len (off + 4) report
      let (visited, report) ← attributeLoop buf (off + 4 + paddedLength len) report
      return (⟨type, (buf.drop (off + 4)).take len.toNat⟩ :: visited, report)
  else return ([], report)
  termination_by buf.length - off

/-- What `rr_stun_binding_internal_addr` does with the response. -/
def readResponse (buf : List UInt8) (responseOrigin other : AddressCells) :
    Option (List StunAttribute × StunReport) := do
  let (visited, report) ← attributeLoop buf 20 ⟨false, ⟨0, 0⟩, responseOrigin.zero, other.zero⟩
  let success := report.publicAddress.ip ≠ 0 || report.publicAddress.port ≠ 0
  return (visited, { report with success := success })

/-- The size of `buf` in `rr_stun_binding_internal_addr`. -/
def stunBufferSize : ℕ := 1024

/-- `rr_stun_binding_internal_addr` after the request was sent. -/
def rrStunBindingInternalAddr (transactionId : TransactionId) (start : ℕ) (timeoutMs : UInt32)
    (responseOrigin other : AddressCells) (ds : List (Arrival (List UInt8))) (turns : List Turn)
    (now : ℕ) : Option StunReport :=
  match (rrStunWaitForMatchingResponse stunBufferSize transactionId start timeoutMs ds turns now).2
    with
  | .error _ => some ⟨false, ⟨0, 0⟩, responseOrigin.zero, other.zero⟩
  | .ok (_, d) => (readResponse (received stunBufferSize d) responseOrigin other).map (·.2)

/-! ### The addresses that attributes hold -/

/-- The IPv4 address that stands in a value: the family, the port and the address behind a
byte that says nothing. -/
def ipv4Address : List UInt8 → Option StunAddress
  | _ :: family :: p :: q :: a :: b :: c :: d :: _ => do
    let port ← ByteAt.u16At [p, q] 0
    let ip ← ByteAt.u32At [a, b, c, d] 0
    if family = 0x01 then some ⟨ip, port⟩ else none
  | _ => none

/-- An address and what the magic cookie makes of it; the cookie turns it back. -/
def StunAddress.xor (address : StunAddress) : StunAddress :=
  ⟨address.ip ^^^ stunMagicCookie, address.port ^^^ 0x2112⟩

/-- The public address that an attribute holds. -/
def StunAttribute.publicAddress (attr : StunAttribute) : Option StunAddress :=
  if attr.type = stunXorMappedAddress then (ipv4Address attr.value).map StunAddress.xor
  else if attr.type = stunMappedAddress then ipv4Address attr.value
  else none

/-- The address that an attribute of some type holds. -/
def StunAttribute.address (type : UInt16) (attr : StunAttribute) : Option StunAddress :=
  if attr.type = type then ipv4Address attr.value else none

/-- What a report becomes with one more attribute. -/
def StunReport.add (report : StunReport) (attr : StunAttribute) : StunReport :=
  { report with
    publicAddress := attr.publicAddress.getD report.publicAddress
    responseOrigin := ((attr.address stunResponseOrigin).map report.responseOrigin.store).getD
      report.responseOrigin
    other := ((attr.address stunOtherAddress).map report.other.store).getD report.other }

/-- An address that is given in both forms is the same address: taking the exclusive or with the
magic cookie twice gives it back. -/
theorem StunAddress.xor_xor (address : StunAddress) : address.xor.xor = address := by
  cases address
  simp only [StunAddress.xor, UInt32.xor_assoc, UInt16.xor_assoc, UInt32.xor_self,
    UInt16.xor_self, UInt32.xor_zero, UInt16.xor_zero]

/-- An address that is not wanted is not stored anyway. -/
theorem AddressCells.store_wanted (cells : AddressCells) (address : StunAddress) :
    (if cells.wanted then some (cells.store address) else none).getD cells =
      cells.store address := by
  unfold AddressCells.store
  split_ifs <;> rfl

/-- The later of two addresses stays in the cells. -/
theorem AddressCells.store_store (cells : AddressCells) (first second : StunAddress) :
    (cells.store first).store second = cells.store second := by
  unfold AddressCells.store
  split_ifs with h h' <;> first | rfl | exact absurd rfl h'

/-- The address in a value that is long enough: the port and the number behind it, if the family is
that of IPv4. -/
theorem ipv4Address_eq {value : List UInt8} (hlen : 8 ≤ value.length) :
    ipv4Address value = (do
      let port ← ByteAt.u16At value 2
      let ip ← ByteAt.u32At value 4
      if value[1]? = some 0x01 then some ⟨ip, port⟩ else none) := by
  match value, hlen with
  | z :: family :: p :: q :: a :: b :: c :: d :: rest, _ =>
    simp [ipv4Address, ByteAt.u16At, ByteAt.u32At]

/-- A value of fewer than eight bytes is no IPv4 address. -/
theorem ipv4Address_short {value : List UInt8} (hlen : value.length < 8) :
    ipv4Address value = none := by
  unfold ipv4Address
  split
  · simp only [List.length_cons] at hlen
    omega
  · rfl

/-! ### One attribute -/

/-- The padded length is the next multiple of four. The sum does not wrap in the types that the code
computes it in. -/
theorem paddedLength_eq (len : UInt16) : paddedLength len = (len.toNat + 3) / 4 * 4 := by
  have hlen := len.toNat_lt
  have hmask : (~~~3 : UInt32) = -UInt32.ofNat (2 ^ 2) := by decide
  unfold paddedLength
  rw [hmask, Align.toNat_land_neg _ (by decide), UInt32.toNat_add, UInt16.toNat_toUInt32,
    show (3 : UInt32).toNat = 3 from rfl]
  omega

/-- The family test on a value in the buffer says whether the value has an address. -/
theorem holdsIpv4_behind (before after : List UInt8) {value : List UInt8}
    (hlen : value.length < 2 ^ 16) :
    holdsIpv4 (before ++ (value ++ after)) before.length (UInt16.ofNat value.length) =
      some (ipv4Address value).isSome := by
  unfold holdsIpv4
  have hlt : UInt16.ofNat value.length < 8 ↔ value.length < 8 := by
    rw [UInt16.lt_iff_toNat_lt, UInt16.toNat_ofNat_of_lt' hlen]
    rfl
  by_cases hshort : value.length < 8
  · rw [if_pos (hlt.mpr hshort), ipv4Address_short hshort]
    rfl
  · rw [if_neg (mt hlt.mp hshort), ByteAt.getElem?_behind, ipv4Address_eq (by omega),
      List.getElem?_append_left (by omega)]
    obtain ⟨port, hport⟩ := ByteAt.exists_u16At (show 2 + 2 ≤ value.length by omega)
    obtain ⟨ip, hip⟩ := ByteAt.exists_u32At (show 4 + 4 ≤ value.length by omega)
    rw [hport, hip, List.getElem?_eq_getElem (show 1 < value.length by omega)]
    by_cases hfamily : value[1] = 0x01 <;> simp [hfamily]

/-- What `rr_stun_parse_address` makes of a value in the buffer is its address, with the cookie
taken off if it is asked to, or zeros if none is wanted. -/
theorem rrStunParseAddress_behind (before after : List UInt8) {value : List UInt8}
    (hlen : value.length < 2 ^ 16) (wanted xorAddress : Bool) :
    rrStunParseAddress (before ++ (value ++ after)) before.length (UInt16.ofNat value.length) wanted
        xorAddress =
      some (if wanted then (ipv4Address value).map (if xorAddress then StunAddress.xor else id)
        else none) := by
  unfold rrStunParseAddress
  have hlt : UInt16.ofNat value.length < 8 ↔ value.length < 8 := by
    rw [UInt16.lt_iff_toNat_lt, UInt16.toNat_ofNat_of_lt' hlen]
    rfl
  by_cases hshort : value.length < 8
  · rw [if_pos (hlt.mpr hshort), ipv4Address_short hshort]
    simp
  · rw [if_neg (mt hlt.mp hshort), ByteAt.getElem?_behind, ByteAt.u16At_behind,
      ByteAt.u32At_behind, ByteAt.u16At_front (by omega), ByteAt.u32At_front (by omega),
      List.getElem?_append_left (by omega), ipv4Address_eq (by omega)]
    obtain ⟨port, hport⟩ := ByteAt.exists_u16At (show 2 + 2 ≤ value.length by omega)
    obtain ⟨ip, hip⟩ := ByteAt.exists_u32At (show 4 + 4 ≤ value.length by omega)
    rw [hport, hip, List.getElem?_eq_getElem (show 1 < value.length by omega)]
    have hport16 : (stunMagicCookie >>> 16).toUInt16 = 0x2112 := by decide
    by_cases hfamily : value[1] = 0x01 <;> cases wanted <;> cases xorAddress <;>
      simp [hfamily, StunAddress.xor, hport16]

/-- **One attribute**, wherever it stands in the buffer, adds to the report what its type and its
value say. -/
theorem handleAttribute_behind (before after : List UInt8) {attr : StunAttribute}
    (hlen : attr.value.length < 2 ^ 16) (report : StunReport) :
    handleAttribute (before ++ (attr.value ++ after)) attr.type (UInt16.ofNat attr.value.length)
        before.length report = some (report.add attr) := by
  unfold handleAttribute StunReport.add StunAttribute.publicAddress StunAttribute.address
  simp only [holdsIpv4_behind before after hlen, rrStunParseAddress_behind before after hlen]
  have htypes : stunXorMappedAddress ≠ stunMappedAddress ∧
      stunXorMappedAddress ≠ stunResponseOrigin ∧ stunXorMappedAddress ≠ stunOtherAddress ∧
      stunMappedAddress ≠ stunResponseOrigin ∧ stunMappedAddress ≠ stunOtherAddress ∧
      stunResponseOrigin ≠ stunOtherAddress := by decide
  obtain ⟨hxm, hxr, hxo, hmr, hmo, hro⟩ := htypes
  by_cases hxor : attr.type = stunXorMappedAddress
  · cases ipv4Address attr.value <;> simp [hxor, hxr, hxo]
  by_cases hmapped : attr.type = stunMappedAddress
  · cases ipv4Address attr.value <;> simp [hmapped, hxm.symm, hmr, hmo]
  by_cases horigin : attr.type = stunResponseOrigin
  · cases ipv4Address attr.value <;>
      simp [horigin, hxr.symm, hmr.symm, hro, AddressCells.store_wanted]
  by_cases hother : attr.type = stunOtherAddress
  · cases ipv4Address attr.value <;>
      simp [hother, hxo.symm, hmo.symm, hro.symm, AddressCells.store_wanted]
  · simp [hxor, hmapped, horigin, hother]

/-! ### A response that was put together -/

/-- An attribute with the bytes that pad its value to a multiple of four. -/
structure PaddedAttribute extends StunAttribute where
  padding : List UInt8
  length_padding : value.length + padding.length = (value.length + 3) / 4 * 4

/-- The bytes of an attribute: type, length, value and padding. -/
def PaddedAttribute.bytes (attr : PaddedAttribute) : List UInt8 :=
  ByteAt.be16 attr.type ++ (ByteAt.be16 (UInt16.ofNat attr.value.length) ++
    (attr.value ++ attr.padding))

/-- A Binding Success Response with some attributes. -/
def successResponse (transactionId : TransactionId) (attrs : List PaddedAttribute) : List UInt8 :=
  let body := attrs.flatMap PaddedAttribute.bytes
  0x01 :: 0x01 :: (ByteAt.be16 (UInt16.ofNat body.length) ++
    (ByteReader.be32 stunMagicCookie ++ (transactionId.val ++ body)))

/-- An attribute takes the four bytes of its type and length, and those of its value up to the next
multiple of four. -/
theorem PaddedAttribute.length_bytes (attr : PaddedAttribute) :
    attr.bytes.length = 4 + (attr.value.length + 3) / 4 * 4 := by
  have hpadding := attr.length_padding
  simp only [PaddedAttribute.bytes, List.length_append, ByteAt.length_be16]
  omega

/-- **The loop visits the attributes that the datagram was put together from**, from
wherever it stands. -/
theorem attributeLoop_flatMap (before : List UInt8) (attrs : List PaddedAttribute)
    (report : StunReport)
    (hsize : (before ++ attrs.flatMap PaddedAttribute.bytes).length < 2 ^ 16) :
    attributeLoop (before ++ attrs.flatMap PaddedAttribute.bytes) before.length report =
      some (attrs.map (·.toStunAttribute),
        attrs.foldl (fun report attr => report.add attr.toStunAttribute) report) := by
  induction attrs generalizing before report with
  | nil =>
    rw [attributeLoop, dif_neg (by simp)]
    rfl
  | cons attr attrs ih =>
    have hlength := attr.length_bytes
    have hpadding := attr.length_padding
    rw [List.flatMap_cons] at hsize ⊢
    have hsize' := hsize
    simp only [List.length_append] at hsize'
    have hlen : attr.value.length < 2 ^ 16 := by omega
    have hlen16 : (UInt16.ofNat attr.value.length).toNat = attr.value.length :=
      UInt16.toNat_ofNat_of_lt' hlen
    generalize hrest : attrs.flatMap PaddedAttribute.bytes = rest at hsize' ⊢
    -- the buffer, cut in front of the value
    have hcut : before ++ (attr.bytes ++ rest) =
        (before ++ (ByteAt.be16 attr.type ++ ByteAt.be16 (UInt16.ofNat attr.value.length))) ++
          (attr.value ++ (attr.padding ++ rest)) := by
      simp only [PaddedAttribute.bytes, List.append_assoc]
    have htype : ByteAt.u16At (before ++ (attr.bytes ++ rest)) before.length = some attr.type := by
      have h := ByteAt.u16At_behind before (attr.bytes ++ rest) 0
      rw [Nat.add_zero] at h
      rw [h, PaddedAttribute.bytes, List.append_assoc, ByteAt.u16At_be16]
    have hlenAt : ByteAt.u16At (before ++ (attr.bytes ++ rest)) (before.length + 2) =
        some (UInt16.ofNat attr.value.length) := by
      rw [ByteAt.u16At_behind, PaddedAttribute.bytes, List.append_assoc, List.append_assoc]
      have h := ByteAt.u16At_behind (ByteAt.be16 attr.type)
        (ByteAt.be16 (UInt16.ofNat attr.value.length) ++ ((attr.value ++ attr.padding) ++ rest)) 0
      rw [ByteAt.u16At_be16] at h
      exact h
    have hhandle : handleAttribute (before ++ (attr.bytes ++ rest)) attr.type
        (UInt16.ofNat attr.value.length) (before.length + 4) report =
        some (report.add attr.toStunAttribute) := by
      have h := handleAttribute_behind
        (before ++ (ByteAt.be16 attr.type ++ ByteAt.be16 (UInt16.ofNat attr.value.length)))
        (attr.padding ++ rest) hlen report
      rw [← hcut] at h
      simpa using h
    have hvalue : ((before ++ (attr.bytes ++ rest)).drop (before.length + 4)).take
        attr.value.length = attr.value := by
      have hdrop : before.length + 4 = (before ++ (ByteAt.be16 attr.type ++
          ByteAt.be16 (UInt16.ofNat attr.value.length))).length := by simp
      rw [hcut, hdrop, List.drop_left, List.take_left]
    have hnext : before.length + 4 + paddedLength (UInt16.ofNat attr.value.length) =
        (before ++ attr.bytes).length := by
      rw [paddedLength_eq, hlen16, List.length_append, hlength, Nat.add_assoc]
    have hloop := ih (before ++ attr.bytes) (report.add attr.toStunAttribute)
      (by rwa [List.append_assoc])
    rw [hrest, List.append_assoc, ← hnext] at hloop
    rw [attributeLoop, dif_pos (by simp only [List.length_append]; omega), htype, hlenAt]
    simp only [Option.bind_eq_bind, Option.bind_some, hlen16]
    rw [if_neg (by simp only [List.length_append]; omega), hhandle]
    simp only [Option.bind_some, hloop, hvalue]
    rfl

/-! ### Any datagram -/

/-- Whether an attribute has an IPv4 address is found without a read outside of the buffer, if the
attribute lies inside. Where it does have one, the value is long enough for it. -/
theorem exists_holdsIpv4 {buf : List UInt8} {off : ℕ} {len : UInt16}
    (h : off + len.toNat ≤ buf.length) :
    ∃ holds, holdsIpv4 buf off len = some holds ∧ (holds = true → 8 ≤ len.toNat) := by
  unfold holdsIpv4
  have hlt : len < 8 ↔ len.toNat < 8 := UInt16.lt_iff_toNat_lt
  by_cases hshort : len < 8
  · exact ⟨false, if_pos hshort, nofun⟩
  · rw [if_neg hshort]
    rw [hlt] at hshort
    rw [List.getElem?_eq_getElem (show off + 1 < buf.length by omega)]
    exact ⟨_, rfl, fun _ => by omega⟩

/-- An attribute that lies inside the buffer, with a value long enough for an address, is parsed
without a read outside. -/
theorem exists_rrStunParseAddress {buf : List UInt8} {off : ℕ} {len : UInt16}
    (h : off + len.toNat ≤ buf.length) (hlen : 8 ≤ len.toNat) (wanted xorAddress : Bool) :
    ∃ address, rrStunParseAddress buf off len wanted xorAddress = some address := by
  unfold rrStunParseAddress
  have hlt : len < 8 ↔ len.toNat < 8 := UInt16.lt_iff_toNat_lt
  obtain ⟨port, hport⟩ := ByteAt.exists_u16At (show off + 2 + 2 ≤ buf.length by omega)
  obtain ⟨ip, hip⟩ := ByteAt.exists_u32At (show off + 4 + 4 ≤ buf.length by omega)
  rw [if_neg (mt hlt.mp (by omega)), List.getElem?_eq_getElem (show off + 1 < buf.length by omega),
    hport, hip]
  simp only [Option.bind_eq_bind, Option.bind_some]
  split_ifs
  · exact ⟨_, rfl⟩
  · exact ⟨_, rfl⟩
  · exact ⟨_, rfl⟩

/-- An attribute that lies inside the buffer is handled without a read outside, whatever its type
is. -/
theorem exists_handleAttribute {buf : List UInt8} {off : ℕ} {len : UInt16}
    (h : off + len.toNat ≤ buf.length) (type : UInt16) (report : StunReport) :
    ∃ report', handleAttribute buf type len off report = some report' := by
  unfold handleAttribute
  obtain ⟨holds, hholds, hlen⟩ := exists_holdsIpv4 h
  rw [hholds]
  simp only [Option.bind_eq_bind, Option.bind_some]
  cases holds with
  | false =>
    simp only [Bool.false_eq_true, if_false]
    split_ifs <;> exact ⟨_, rfl⟩
  | true =>
    have hparse := exists_rrStunParseAddress h (hlen rfl)
    obtain ⟨mapped, hmapped⟩ := hparse true (type = stunXorMappedAddress)
    obtain ⟨origin, horigin⟩ := hparse report.responseOrigin.wanted false
    obtain ⟨other, hother⟩ := hparse report.other.wanted false
    simp only [if_true, hmapped, horigin, hother, Option.bind_some]
    split_ifs <;> exact ⟨_, rfl⟩

/-- **No datagram makes the loop read behind its end**, whatever lengths its attributes claim to
have. -/
theorem exists_attributeLoop (buf : List UInt8) (off : ℕ) (report : StunReport) :
    ∃ run, attributeLoop buf off report = some run := by
  induction hn : buf.length - off using Nat.strongRecOn generalizing off report with
  | ind n ih =>
    rw [attributeLoop]
    split_ifs with hoff
    · obtain ⟨type, htype⟩ := ByteAt.exists_u16At (show off + 2 ≤ buf.length by omega)
      obtain ⟨len, hlen⟩ := ByteAt.exists_u16At (show off + 2 + 2 ≤ buf.length by omega)
      rw [htype, hlen]
      simp only [Option.bind_eq_bind, Option.bind_some]
      split_ifs with hbreak
      · exact ⟨_, rfl⟩
      · obtain ⟨report', hreport⟩ :=
          exists_handleAttribute (show off + 4 + len.toNat ≤ buf.length by omega) type report
        obtain ⟨run, hrun⟩ := ih _ (by omega) (off + 4 + paddedLength len) report' rfl
        rw [hreport]
        simp only [Option.bind_some, hrun]
        exact ⟨_, rfl⟩
    · exact ⟨_, rfl⟩

end RrLauncher
