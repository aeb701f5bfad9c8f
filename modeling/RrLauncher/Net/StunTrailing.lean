/-
# What stands behind a STUN message

A response is accepted if the datagram is at least as long as its header declares, and the
loop over the attributes goes on to the end of the datagram.  So attributes behind the
declared message are read as if they belonged to it, and two datagrams with the same message
give the same result only as far as these agree (`stun_result_of_message_iff`).
-/

import RrLauncher.Net.StunDecode

namespace RrLauncher

open TimedQueue

/-- The attributes that stand in a buffer one behind the other, from `off` on, up to the first
that does not end in it. -/
def attributesFrom (buf : List UInt8) (off : ℕ) : List StunAttribute :=
  if _h : off + 4 ≤ buf.length then
    let len := ((ByteAt.u16At buf (off + 2)).getD 0).toNat
    if off + 4 + len ≤ buf.length then
      ⟨(ByteAt.u16At buf off).getD 0, (buf.drop (off + 4)).take len⟩ ::
        attributesFrom buf (off + 4 + (len + 3) / 4 * 4)
    else []
  else []
  termination_by buf.length - off

/-- **One attribute in a buffer**, at the place where its value is. -/
theorem handleAttribute_eq {buf : List UInt8} {off : ℕ} {len : UInt16}
    (h : off + len.toNat ≤ buf.length) (type : UInt16) (report : StunReport) :
    handleAttribute buf type len off report =
      some (report.add ⟨type, (buf.drop off).take len.toNat⟩) := by
  generalize hvalue : (buf.drop off).take len.toNat = value
  have hlength : value.length = len.toNat := by
    rw [← hvalue, List.length_take, List.length_drop]
    omega
  have hcut : buf = buf.take off ++ (value ++ (buf.drop off).drop len.toNat) := by
    rw [← hvalue, List.take_append_drop, List.take_append_drop]
  have hsmall : (StunAttribute.mk type value).value.length < 2 ^ 16 := hlength ▸ len.toNat_lt
  have hbehind := handleAttribute_behind (buf.take off) ((buf.drop off).drop len.toNat) hsmall report
  rw [← hcut, List.length_take, Nat.min_eq_left (by omega)] at hbehind
  dsimp only at hbehind
  rwa [hlength, UInt16.ofNat_toNat] at hbehind

/-- **The loop visits the attributes that stand in the datagram** and adds each to the report. -/
theorem attributeLoop_eq (buf : List UInt8) (off : ℕ) (report : StunReport) :
    attributeLoop buf off report =
      some (attributesFrom buf off, (attributesFrom buf off).foldl StunReport.add report) := by
  induction hn : buf.length - off using Nat.strongRecOn generalizing off report with
  | ind n ih =>
    rw [attributeLoop, attributesFrom]
    by_cases hoff : off + 4 ≤ buf.length
    · obtain ⟨type, htype⟩ := ByteAt.exists_u16At (show off + 2 ≤ buf.length by omega)
      obtain ⟨len, hlen⟩ := ByteAt.exists_u16At (show off + 2 + 2 ≤ buf.length by omega)
      rw [dif_pos hoff, dif_pos hoff, htype, hlen]
      simp only [Option.bind_eq_bind, Option.bind_some, Option.getD_some]
      by_cases hfits : off + 4 + len.toNat ≤ buf.length
      · rw [if_neg (Nat.not_lt.mpr hfits), if_pos hfits, handleAttribute_eq hfits, paddedLength_eq]
        simp only [Option.bind_some]
        rw [ih _ (by omega) (off + 4 + (len.toNat + 3) / 4 * 4) _ rfl]
        rfl
      · rw [if_pos (Nat.lt_of_not_le hfits), if_neg hfits]
        rfl
    · rw [dif_neg hoff, dif_neg hoff]
      rfl

/-- The attributes of a cut buffer are the first ones of the whole buffer: cutting loses some at the
end and changes none. -/
theorem attributesFrom_take (buf : List UInt8) (m off : ℕ) :
    attributesFrom (buf.take m) off <+: attributesFrom buf off := by
  induction hn : buf.length - off using Nat.strongRecOn generalizing off with
  | ind n ih =>
    rw [attributesFrom]
    by_cases hoff : off + 4 ≤ (buf.take m).length
    · have hlength := List.length_take (i := m) (l := buf)
      -- the header stands in front of the cut
      have hfront : ∀ i, i + 2 ≤ (buf.take m).length → ByteAt.u16At (buf.take m) i = ByteAt.u16At buf i := by
        intro i hi
        have h := ByteAt.u16At_front hi (buf.drop m)
        rwa [List.take_append_drop, eq_comm] at h
      rw [dif_pos hoff, hfront off (by omega), hfront (off + 2) (by omega)]
      dsimp only
      split
      · rename_i hfits
        rw [attributesFrom.eq_1 buf off, dif_pos (by omega)]
        dsimp only
        generalize ((ByteAt.u16At buf (off + 2)).getD 0).toNat = len at *
        have hvalue : ((buf.take m).drop (off + 4)).take len = (buf.drop (off + 4)).take len := by
          rw [List.drop_take, List.take_take, Nat.min_eq_left (by omega)]
        rw [if_pos (by omega), hvalue, List.prefix_cons_inj]
        exact ih _ (by omega) _ rfl
      · exact List.nil_prefix
    · rw [dif_neg hoff]
      exact List.nil_prefix

/-! ### The declared message -/

/-- Where the message ends that the header of a datagram declares. -/
def messageEnd (buf : List UInt8) : ℕ := 20 + ((buf.getD 2 0).toNat * 256 + (buf.getD 3 0).toNat)

/-- The attributes of a message that ends at `m`. -/
def messageAttributes (buf : List UInt8) (m : ℕ) : List StunAttribute :=
  attributesFrom (buf.take m) 20

/-- The attributes that the loop comes to besides those of the message. -/
def trailingAttributes (buf : List UInt8) (m : ℕ) : List StunAttribute :=
  (attributesFrom buf 20).drop (messageAttributes buf m).length

/-- The attributes that the loop comes to are those of the message, followed by the trailing ones.
-/
theorem messageAttributes_append_trailing (buf : List UInt8) (m : ℕ) :
    messageAttributes buf m ++ trailingAttributes buf m = attributesFrom buf 20 := by
  obtain ⟨trailing, htrailing⟩ := attributesFrom_take buf m 20
  rw [trailingAttributes, messageAttributes, ← htrailing, List.drop_left]

/-- The last address of a kind in a message that ends at `m`; zeros where there is none. -/
def messageAddress (holds : StunAttribute → Option StunAddress) (buf : List UInt8) (m : ℕ) :
    StunAddress :=
  (lastAddress holds (messageAttributes buf m)).getD ⟨0, 0⟩

/-- The last address of a kind behind a message that ends at `m`, or where there is none, that of
the message. -/
def addressBehind (holds : StunAttribute → Option StunAddress) (buf : List UInt8) (m : ℕ)
    (ofMessage : StunAddress) : StunAddress :=
  (lastAddress holds (trailingAttributes buf m)).getD ofMessage

/-- The last address in two lists of attributes is that of the second one, if it has any, and
otherwise that of the first. -/
theorem lastAddress_append (holds : StunAttribute → Option StunAddress)
    (before after : List StunAttribute) :
    lastAddress holds (before ++ after) = (lastAddress holds after).or (lastAddress holds before) := by
  rw [lastAddress, List.filterMap_append, List.getLast?_append]
  rfl

/-- Cells that were zeroed do not change when zeros are stored there. -/
theorem AddressCells.zero_store_zero (cells : AddressCells) :
    cells.zero.store ⟨0, 0⟩ = cells.zero := by
  obtain ⟨ip, port⟩ := cells
  cases ip <;> cases port <;> rfl

/-- Cells that hold an address, or none, are what comes of zeroing them and then storing that
address, or zeros. -/
theorem AddressCells.holding_eq (cells : AddressCells) (address : Option StunAddress) :
    cells.holding address = cells.zero.store (address.getD ⟨0, 0⟩) := by
  cases address with
  | none => exact cells.zero_store_zero.symm
  | some address => rfl

/-- The cells tell two addresses apart where both pointers are there. -/
theorem AddressCells.zero_store_inj (cells : AddressCells) (a b : StunAddress) :
    cells.zero.store a = cells.zero.store b ↔ (cells.wanted = true → a = b) := by
  obtain ⟨ip, port⟩ := cells
  obtain ⟨ip₁, port₁⟩ := a
  obtain ⟨ip₂, port₂⟩ := b
  cases ip <;> cases port <;>
    simp [AddressCells.zero, AddressCells.store, AddressCells.wanted]

/-- **What is reported of a response**, of which the message ends at `m`. -/
theorem readResponse_eq (buf : List UInt8) (m : ℕ) (responseOrigin other : AddressCells) :
    (readResponse buf responseOrigin other).map (·.2) =
      let said (holds : StunAttribute → Option StunAddress) : StunAddress :=
        addressBehind holds buf m (messageAddress holds buf m)
      let publicAddress := said StunAttribute.publicAddress
      some ⟨publicAddress.ip ≠ 0 || publicAddress.port ≠ 0, publicAddress,
        responseOrigin.zero.store (said (StunAttribute.address stunResponseOrigin)),
        other.zero.store (said (StunAttribute.address stunOtherAddress))⟩ := by
  have hsaid : ∀ holds, addressBehind holds buf m (messageAddress holds buf m) =
      (lastAddress holds (attributesFrom buf 20)).getD ⟨0, 0⟩ := by
    intro holds
    rw [addressBehind, messageAddress, ← messageAttributes_append_trailing buf m,
      lastAddress_append]
    cases lastAddress holds (trailingAttributes buf m) <;> rfl
  rw [readResponse, attributeLoop_eq, foldl_add]
  simp only [hsaid, ← AddressCells.holding_eq]
  rfl

/-- **Two accepted datagrams with the same message** give the same result exactly if what stands
behind it leaves the same address of each kind that is asked for: of the public one, and of the
others where the caller passes both pointers. -/
theorem stun_result_of_message_iff (transactionId : TransactionId)
    (responseOrigin other : AddressCells) {start₁ start₂ now₁ now₂ n₁ n₂ : ℕ}
    {timeoutMs₁ timeoutMs₂ : UInt32} {ds₁ ds₂ : List (Arrival (List UInt8))}
    {turns₁ turns₂ : List Turn} {d₁ d₂ : Arrival (List UInt8)}
    (h₁ : (rrStunWaitForMatchingResponse stunBufferSize transactionId start₁ timeoutMs₁ ds₁ turns₁
      now₁).2 = .ok (n₁, d₁))
    (h₂ : (rrStunWaitForMatchingResponse stunBufferSize transactionId start₂ timeoutMs₂ ds₂ turns₂
      now₂).2 = .ok (n₂, d₂))
    (hmessage : (received stunBufferSize d₁).take (messageEnd (received stunBufferSize d₁)) =
      (received stunBufferSize d₂).take (messageEnd (received stunBufferSize d₁))) :
    rrStunBindingInternalAddr transactionId start₁ timeoutMs₁ responseOrigin other ds₁ turns₁ now₁ =
        rrStunBindingInternalAddr transactionId start₂ timeoutMs₂ responseOrigin other ds₂ turns₂
          now₂ ↔
      let m := messageEnd (received stunBufferSize d₁)
      let Agree (holds : StunAttribute → Option StunAddress) : Prop :=
        let ofMessage := messageAddress holds (received stunBufferSize d₁) m
        addressBehind holds (received stunBufferSize d₁) m ofMessage =
          addressBehind holds (received stunBufferSize d₂) m ofMessage
      Agree StunAttribute.publicAddress ∧
        (responseOrigin.wanted = true → Agree (StunAttribute.address stunResponseOrigin)) ∧
        (other.wanted = true → Agree (StunAttribute.address stunOtherAddress)) := by
  dsimp only
  rw [rrStunBindingInternalAddr, rrStunBindingInternalAddr, h₁, h₂]
  dsimp only
  generalize messageEnd (received stunBufferSize d₁) = m at hmessage ⊢
  have hsame : ∀ holds, messageAddress holds (received stunBufferSize d₂) m =
      messageAddress holds (received stunBufferSize d₁) m := by
    intro holds
    rw [messageAddress, messageAddress, messageAttributes, messageAttributes, hmessage]
  rw [readResponse_eq _ m, readResponse_eq _ m, Option.some.injEq, StunReport.mk.injEq,
    AddressCells.zero_store_inj, AddressCells.zero_store_inj]
  simp only [hsame]
  constructor
  · rintro ⟨-, hpublic, horigin, hother⟩
    exact ⟨hpublic, horigin, hother⟩
  · rintro ⟨hpublic, horigin, hother⟩
    exact ⟨by simp only [hpublic], hpublic, horigin, hother⟩

/-- Where there is no room for a header there is no attribute. -/
theorem attributesFrom_of_short {buf : List UInt8} {off : ℕ} (h : buf.length < off + 4) :
    attributesFrom buf off = [] := by
  rw [attributesFrom, dif_neg (Nat.not_le.mpr h)]

/-- Where there is no room for a header there is no address. -/
theorem addressBehind_of_short (holds : StunAttribute → Option StunAddress) {buf : List UInt8}
    (h : buf.length < 24) (m : ℕ) (ofMessage : StunAddress) :
    addressBehind holds buf m ofMessage = ofMessage := by
  rw [addressBehind, trailingAttributes, attributesFrom_of_short h, List.drop_nil]
  rfl

/-- A response without attributes, and the same one with a byte behind it: the results are the same.
-/
theorem stun_result_of_message_iff_padded :
    rrStunBindingInternalAddr zeroId 0 10 ⟨none, none⟩ ⟨none, none⟩ [⟨0, bindingResponse zeroId⟩]
        [] 0 =
      rrStunBindingInternalAddr zeroId 0 10 ⟨none, none⟩ ⟨none, none⟩
        [⟨0, bindingResponse zeroId ++ [0xFF]⟩] [] 0 := by
  have h₁ : (rrStunWaitForMatchingResponse stunBufferSize zeroId 0 10
      [⟨0, bindingResponse zeroId⟩] [] 0).2 = .ok (20, ⟨0, bindingResponse zeroId⟩) := by
    decide +kernel
  have h₂ : (rrStunWaitForMatchingResponse stunBufferSize zeroId 0 10
      [⟨0, bindingResponse zeroId ++ [0xFF]⟩] [] 0).2 =
        .ok (21, ⟨0, bindingResponse zeroId ++ [0xFF]⟩) := by
    decide +kernel
  refine (stun_result_of_message_iff zeroId ⟨none, none⟩ ⟨none, none⟩ h₁ h₂ (by decide)).mpr
    ⟨?_, fun h => (by cases h), fun h => (by cases h)⟩
  dsimp only
  rw [addressBehind_of_short _ (by decide), addressBehind_of_short _ (by decide)]

/-- The address 192.168.1.1, port 4660, as an attribute. -/
def mappedAttribute : PaddedAttribute :=
  ⟨⟨stunMappedAddress, ipv4Value 0x00 ⟨0xC0A80101, 0x1234⟩ []⟩, [], rfl⟩

/-- A response without attributes, and behind it an attribute that it does not declare. -/
def trailedResponse : List UInt8 := bindingResponse zeroId ++ mappedAttribute.bytes

/-- The attributes that the loop comes to in `trailedResponse`, of which the header counts none. -/
theorem attributesFrom_trailedResponse :
    attributesFrom trailedResponse 20 = [mappedAttribute.toStunAttribute] := by
  have hloop := attributeLoop_flatMap (bindingResponse zeroId) [mappedAttribute]
    ⟨false, ⟨0, 0⟩, ⟨none, none⟩, ⟨none, none⟩⟩ (by decide)
  rw [attributeLoop_eq] at hloop
  exact congrArg Prod.fst (Option.some.inj hloop)

/-- **An attribute behind the message is read.**  The message declares no attributes, and the
address behind it is reported. -/
theorem stun_result_beyond_message :
    ¬ ∀ (transactionId : TransactionId) (responseOrigin other : AddressCells)
      (start₁ start₂ now₁ now₂ n₁ n₂ : ℕ) (timeoutMs₁ timeoutMs₂ : UInt32)
      (ds₁ ds₂ : List (Arrival (List UInt8))) (turns₁ turns₂ : List Turn)
      (d₁ d₂ : Arrival (List UInt8)),
      (rrStunWaitForMatchingResponse stunBufferSize transactionId start₁ timeoutMs₁ ds₁ turns₁
        now₁).2 = .ok (n₁, d₁) →
      (rrStunWaitForMatchingResponse stunBufferSize transactionId start₂ timeoutMs₂ ds₂ turns₂
        now₂).2 = .ok (n₂, d₂) →
      (received stunBufferSize d₁).take (messageEnd (received stunBufferSize d₁)) =
        (received stunBufferSize d₂).take (messageEnd (received stunBufferSize d₁)) →
      rrStunBindingInternalAddr transactionId start₁ timeoutMs₁ responseOrigin other ds₁ turns₁
          now₁ =
        rrStunBindingInternalAddr transactionId start₂ timeoutMs₂ responseOrigin other ds₂ turns₂
          now₂ := by
  intro h
  have h₁ : (rrStunWaitForMatchingResponse stunBufferSize zeroId 0 10
      [⟨0, bindingResponse zeroId⟩] [] 0).2 = .ok (20, ⟨0, bindingResponse zeroId⟩) := by
    decide +kernel
  have h₂ : (rrStunWaitForMatchingResponse stunBufferSize zeroId 0 10 [⟨0, trailedResponse⟩] []
      0).2 = .ok (32, ⟨0, trailedResponse⟩) := by
    decide +kernel
  have hsame := h zeroId ⟨none, none⟩ ⟨none, none⟩ 0 0 0 0 20 32 10 10 _ _ [] [] _ _ h₁ h₂
    (by decide)
  rw [rrStunBindingInternalAddr, rrStunBindingInternalAddr, h₁, h₂] at hsame
  dsimp only at hsame
  have hbare : received stunBufferSize ⟨0, bindingResponse zeroId⟩ = bindingResponse zeroId := by
    decide
  have htrailed : received stunBufferSize ⟨0, trailedResponse⟩ = trailedResponse := by decide
  rw [hbare, htrailed, readResponse, readResponse, attributeLoop_eq, attributeLoop_eq,
    attributesFrom_trailedResponse, attributesFrom_of_short (by decide)] at hsame
  revert hsame
  decide

end RrLauncher
