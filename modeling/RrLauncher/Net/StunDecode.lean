/-
# Taking a STUN response apart

A response that was put together from attributes is taken apart into them, and what is
reported are the addresses that they hold (`stun_decode_encode`).
-/

import RrLauncher.Net.StunAttributes
import RrLauncher.Net.StunWait
import Mathlib.Data.List.Induction

namespace RrLauncher

open TimedQueue

/-! ### What is reported -/

/-- Where an address is stored, if there is one; otherwise there are zeros. -/
def AddressCells.holding (cells : AddressCells) (address : Option StunAddress) : AddressCells :=
  (address.map cells.zero.store).getD cells.zero

/-- The last of the addresses that attributes hold. -/
def lastAddress (holds : StunAttribute → Option StunAddress) (attrs : List StunAttribute) :
    Option StunAddress :=
  (attrs.filterMap holds).getLast?

/-- What a list of attributes reports: of each kind the last address, and where there is none, what
was reported before. -/
theorem foldl_add (report : StunReport) (attrs : List StunAttribute) :
    attrs.foldl StunReport.add report =
      { report with
        publicAddress := (lastAddress StunAttribute.publicAddress attrs).getD report.publicAddress
        responseOrigin := ((lastAddress (StunAttribute.address stunResponseOrigin) attrs).map
          report.responseOrigin.store).getD report.responseOrigin
        other := ((lastAddress (StunAttribute.address stunOtherAddress) attrs).map
          report.other.store).getD report.other } := by
  have hcells : ∀ (cells : AddressCells) (before now : Option StunAddress),
      (now.map ((before.map cells.store).getD cells).store).getD
        ((before.map cells.store).getD cells) = ((now.or before).map cells.store).getD cells := by
    intro cells before now
    cases now <;> cases before <;> simp [AddressCells.store_store]
  induction attrs using List.reverseRecOn with
  | nil => rfl
  | append_singleton attrs attr ih =>
    have hlast : ∀ holds : StunAttribute → Option StunAddress,
        lastAddress holds (attrs ++ [attr]) = (holds attr).or (lastAddress holds attrs) := by
      intro holds
      unfold lastAddress
      rw [List.filterMap_append, List.getLast?_append]
      cases h : holds attr <;> simp [h]
    rw [List.foldl_concat, ih, StunReport.add, hlast, hlast, hlast]
    simp only [hcells]
    cases attr.publicAddress <;> rfl

/-- A value with an IPv4 address: the byte that says nothing, and what may follow. -/
def ipv4Value (first : UInt8) (address : StunAddress) (rest : List UInt8) : List UInt8 :=
  first :: 0x01 :: (ByteAt.be16 address.port ++ (ByteReader.be32 address.ip ++ rest))

/-- **An address that was written is read** back, whatever the reserved byte in front of it is and
whatever stands behind it. -/
theorem ipv4Address_ipv4Value (first : UInt8) (address : StunAddress) (rest : List UInt8) :
    ipv4Address (ipv4Value first address rest) = some address := by
  rw [ipv4Address_eq (by simp [ipv4Value, ByteAt.be16, ByteReader.be32])]
  have hport := ByteAt.u16At_behind [first, 0x01]
    (ByteAt.be16 address.port ++ (ByteReader.be32 address.ip ++ rest)) 0
  have hip := ByteAt.u32At_behind ([first, 0x01] ++ ByteAt.be16 address.port)
    (ByteReader.be32 address.ip ++ rest) 0
  rw [ByteAt.u16At_be16] at hport
  rw [ByteAt.u32At_be32, List.append_assoc] at hip
  have hport' : ByteAt.u16At (ipv4Value first address rest) 2 = some address.port := hport
  have hip' : ByteAt.u32At (ipv4Value first address rest) 4 = some address.ip := hip
  rw [hport', hip']
  rfl

/-- The attribute has no effect: its type is another one, its value is too short or the
family is another one. -/
def StunAttribute.Ignored (attr : StunAttribute) : Prop :=
  attr.type ∉ [stunXorMappedAddress, stunMappedAddress, stunResponseOrigin, stunOtherAddress] ∨
    attr.value.length < 8 ∨ attr.value[1]? ≠ some 0x01

/-- An attribute that is ignored changes nothing of the report. -/
theorem StunAttribute.Ignored.add_eq {attr : StunAttribute} (h : attr.Ignored)
    (report : StunReport) : report.add attr = report := by
  have hnone : attr.publicAddress = none ∧ attr.address stunResponseOrigin = none ∧
      attr.address stunOtherAddress = none := by
    unfold StunAttribute.publicAddress StunAttribute.address
    rcases h with htype | hvalue
    · simp only [List.mem_cons, List.not_mem_nil, or_false, not_or] at htype
      simp [htype]
    · have haddress : ipv4Address attr.value = none := by
        by_cases hshort : attr.value.length < 8
        · exact ipv4Address_short hshort
        · rw [ipv4Address_eq (by omega)]
          simp [hvalue.resolve_left hshort]
      simp [haddress]
  unfold StunReport.add
  rw [hnone.1, hnone.2.1, hnone.2.2]
  rfl

/-- A response has the twenty bytes of its header and those of its attributes. -/
theorem length_successResponse (transactionId : TransactionId) (attrs : List PaddedAttribute) :
    (successResponse transactionId attrs).length =
      20 + (attrs.flatMap PaddedAttribute.bytes).length := by
  simp only [successResponse, List.length_cons, List.length_append, ByteAt.length_be16,
    ByteAt.length_be32, transactionId.property]
  omega

/-- The attributes of a response are behind a header of 20 bytes, one after the other. -/
theorem successResponse_eq (transactionId : TransactionId) (attrs : List PaddedAttribute) :
    ∃ header : List UInt8, header.length = 20 ∧
      successResponse transactionId attrs = header ++ attrs.flatMap PaddedAttribute.bytes := by
  refine ⟨0x01 :: 0x01 :: (ByteAt.be16 (UInt16.ofNat (attrs.flatMap PaddedAttribute.bytes).length)
    ++ (ByteReader.be32 stunMagicCookie ++ transactionId.val)), ?_, ?_⟩
  · simp [transactionId.property]
  · simp only [successResponse, List.cons_append, List.append_assoc]

/-- The response is one that the wait takes for the answer to its request. -/
theorem isMatchingResponse_successResponse (transactionId : TransactionId)
    (attrs : List PaddedAttribute)
    (hsize : (successResponse transactionId attrs).length < 2 ^ 16) :
    isMatchingResponse transactionId (successResponse transactionId attrs) = true := by
  have hlength := length_successResponse transactionId attrs
  generalize hbody : (attrs.flatMap PaddedAttribute.bytes).length = n at hlength
  have hn : (UInt16.ofNat n).toNat = n := UInt16.toNat_ofNat_of_lt' (show n < 2 ^ 16 by omega)
  have hmsg : ((successResponse transactionId attrs).getD 2 0).toNat * 256 +
      ((successResponse transactionId attrs).getD 3 0).toNat = n := by
    simp only [successResponse, hbody, ByteAt.be16, List.cons_append, List.getD_cons_succ,
      List.getD_cons_zero, hn, UInt8.toNat_ofNat']
    omega
  have hid : ((successResponse transactionId attrs).drop 8).take 12 = transactionId.val := by
    simp only [successResponse, ByteAt.be16, ByteReader.be32, List.cons_append, List.nil_append,
      List.drop_succ_cons, List.drop_zero]
    rw [List.take_left' transactionId.property]
  unfold isMatchingResponse
  rw [if_neg (by omega), if_neg (by simp [successResponse]), hmsg, hid]
  simp [hlength, Nat.add_comm]

/-- **Attributes that were put into a response come out of it.**  The loop reads inside the
datagram, visits the attributes and reports the last address of each kind: the public one
from both of its types, with the magic cookie taken off where it was put on.  An attribute of
another type or family or with a short value has no effect. -/
theorem stun_decode_encode (transactionId : TransactionId) (attrs : List PaddedAttribute)
    (responseOrigin other : AddressCells)
    (hsize : (successResponse transactionId attrs).length ≤ stunBufferSize) :
    isMatchingResponse transactionId (successResponse transactionId attrs) = true ∧
    (let visited := attrs.map (·.toStunAttribute)
      ∃ report, readResponse (successResponse transactionId attrs) responseOrigin other =
          some (visited, report) ∧
        report.publicAddress =
          (lastAddress StunAttribute.publicAddress visited).getD ⟨0, 0⟩ ∧
        report.responseOrigin = responseOrigin.holding
          (lastAddress (StunAttribute.address stunResponseOrigin) visited) ∧
        report.other = other.holding
          (lastAddress (StunAttribute.address stunOtherAddress) visited) ∧
        (report.success = true ↔ report.publicAddress.ip ≠ 0 ∨ report.publicAddress.port ≠ 0)) ∧
    (∀ first address rest,
      StunAttribute.publicAddress ⟨stunXorMappedAddress, ipv4Value first
          ⟨address.ip ^^^ 0x2112A442, address.port ^^^ 0x2112⟩ rest⟩ = some address ∧
        StunAttribute.publicAddress ⟨stunMappedAddress, ipv4Value first address rest⟩ =
          some address ∧
        ∀ type, StunAttribute.address type ⟨type, ipv4Value first address rest⟩ = some address) ∧
    ∀ attr : StunAttribute, attr.Ignored → ∀ report : StunReport, report.add attr = report := by
  have hlim : stunBufferSize = 1024 := rfl
  refine ⟨isMatchingResponse_successResponse transactionId attrs (by omega), ?_, ?_,
    fun attr h report => h.add_eq report⟩
  · intro visited
    obtain ⟨header, hheader, hcut⟩ := successResponse_eq transactionId attrs
    rw [hcut] at hsize ⊢
    have hloop := attributeLoop_flatMap header attrs
      ⟨false, ⟨0, 0⟩, responseOrigin.zero, other.zero⟩ (by omega)
    rw [hheader, ← List.foldl_map (f := fun attr : PaddedAttribute => attr.toStunAttribute)
      (g := StunReport.add), foldl_add] at hloop
    unfold readResponse
    rw [hloop]
    refine ⟨_, rfl, rfl, rfl, rfl, ?_⟩
    simp
  · intro first address rest
    refine ⟨?_, ?_, fun type => ?_⟩
    · unfold StunAttribute.publicAddress
      rw [if_pos rfl, ipv4Address_ipv4Value]
      exact congrArg some (StunAddress.xor_xor address)
    · unfold StunAttribute.publicAddress
      rw [if_neg (show stunMappedAddress ≠ stunXorMappedAddress by decide), if_pos rfl,
        ipv4Address_ipv4Value]
    · unfold StunAttribute.address
      rw [if_pos rfl, ipv4Address_ipv4Value]

/-- A value of three bytes with its padding, and the public address behind it. -/
def softwareThenMapped : List PaddedAttribute :=
  [⟨⟨0x8022, [0x72, 0x72, 0x6C]⟩, [0x00], rfl⟩,
    ⟨⟨stunXorMappedAddress, ipv4Value 0x00 ⟨0xE1BAA543, 0x3326⟩ []⟩, [], rfl⟩]

/-- A response with a name of the software, which is ignored, and the address 192.168.1.1 with port
4660: both attributes are visited, and the address is reported. -/
theorem stun_decode_encode_software :
    ∃ report, readResponse (successResponse zeroId softwareThenMapped) ⟨none, none⟩ ⟨none, none⟩ =
        some (softwareThenMapped.map (·.toStunAttribute), report) ∧
      report.publicAddress = ⟨0xC0A80101, 0x1234⟩ := by
  obtain ⟨-, ⟨report, hread, hpublic, -⟩, -⟩ :=
    stun_decode_encode zeroId softwareThenMapped ⟨none, none⟩ ⟨none, none⟩ (by decide)
  exact ⟨report, hread, hpublic.trans (by decide)⟩

end RrLauncher
