import CcspCommon.AnscAsn1.Integer

set_option autoImplicit false

namespace CcspCommon.AnscAsn1

section Object

structure BitString where
  attrs : List Attr
  bOptional : Bool
  bIsDynamic : Bool
  uUnusedBit : Nat
  uLength : Nat
  pString : List UInt8
  pStringBuffer : Option (List UInt8)

def maximumOctetStringOctets : Nat := 64

namespace BitString

def create : BitString := ⟨[], false, false, 0, 0, List.replicate maximumOctetStringOctets 0, none⟩

def readyToEncode (object : BitString) : Bool := object.bOptional || decide (object.uUnusedBit ≤ 7)

def getSizeOfEncoded (object : BitString) : Int :=
  if object.bOptional then 0
  else if !object.readyToEncode then -1
  else long (attrListGetSizeOfEncoded 4 object.attrs (object.uLength + 1) 1)

def storage (object : BitString) : List UInt8 :=
  if object.bIsDynamic then object.pStringBuffer.getD [] else object.pString

def encodingData (object : BitString) : Except Asn1Error Encoded :=
  if object.bOptional then .ok ⟨[], 0⟩
  else do
    let written ← encodeFront object.attrs 0x03 object.getSizeOfEncoded (object.uLength + 1)
    if object.storage.length < object.uLength then .error .fault
    else
      .ok ⟨written ++ UInt8.ofNat object.uUnusedBit :: object.storage.take object.uLength,
        written.length + (1 + object.uLength)⟩

def release (object : BitString) : BitString :=
  if object.bIsDynamic then { object with uLength := 0, bIsDynamic := false, uUnusedBit := 0, pStringBuffer := none }
  else object

def copyAt (buffer : List UInt8) (offset : Nat) (octets : List UInt8) : Except Asn1Error (List UInt8) :=
  if offset + octets.length > buffer.length then .error .fault
  else .ok (buffer.take offset ++ octets ++ buffer.drop (offset + octets.length))

/-- The loop of `decodingConstructedBitString`. The octets of a part are taken from its dynamic
buffer, which a part of at most 64 octets does not have. -/
def constructedLoop (decode : List UInt8 → Except Asn1Error (BitString × List UInt8)) :
    Nat → BitString → List UInt8 → Int → List UInt8 → Except Asn1Error (BitString × List UInt8)
  | 0, _, _, _, _ => .error .fault
  | fuel + 1, object, buffer, actualLength, data =>
    if actualLength > 0 then do
      let (part, rest) ← decode data
      let octets ← match part.pStringBuffer with
        | some octets => .ok (octets.take part.uLength)
        | none => if part.uLength = 0 then .ok [] else .error .fault
      let buffer ← copyAt buffer object.uLength octets
      constructedLoop decode fuel
        { object with
          uUnusedBit := if part.uUnusedBit ≠ 0 then part.uUnusedBit else object.uUnusedBit
          uLength := object.uLength + part.uLength }
        buffer (actualLength - (data.length - rest.length : Nat)) rest
    else .ok ({ object with pStringBuffer := some buffer, bOptional := false }, data)

def decodingConstructedBitString (decode : List UInt8 → Except Asn1Error (BitString × List UInt8))
    (object : BitString) (data : List UInt8) (length : Int) : Except Asn1Error (BitString × List UInt8) := do
  if length = 0 then .error .unacceptableValueSize
  else
    let actualLength ← if length < 0 then do
        match ← lookingForInfiniteEnd data 4096 with
        | some actualLength => .ok (actualLength : Int)
        | none => .error .infiniteEndMissed
      else .ok length
    let (decoded, rest) ← constructedLoop decode (data.length + 1) { object.release with bIsDynamic := true }
      (List.replicate actualLength.toNat 0) actualLength data
    .ok (decoded, if length < 0 then rest.drop 2 else rest)

def withValue (w : Nat) (object : BitString) (data : List UInt8) (uValueLength : Nat) :
    Except Asn1Error (BitString × List UInt8) := do
  if uValueLength > 20000 then .error .unacceptableValueSize
  else
    let uLength := ulongSub w uValueLength 1
    let unused ← octet data 0
    let data := data.drop 1
    if data.length < uLength then .error .fault
    else
      let object := { object.release with uLength := uLength, uUnusedBit := unused.toNat }
      if uLength ≤ maximumOctetStringOctets then
        .ok ({ object with bIsDynamic := false, pString := data.take uLength ++ object.pString.drop uLength },
          data.drop uLength)
      else .ok ({ object with bIsDynamic := true, pStringBuffer := some (data.take uLength) }, data.drop uLength)

def decodeValue (w : Nat) (object : BitString) (state : Decoding) : Except Asn1Error (BitString × List UInt8) := do
  let uValueLength ← state.valueLength
  let (decoded, rest) ← object.withValue w state.pEncodingUnit uValueLength
  let rest ← infiniteEnds state.uInfinite rest
  .ok (decoded, rest)

def decodeInner (w : Nat) (decode : List UInt8 → Except Asn1Error (BitString × List UInt8)) (object : BitString)
    (state : Decoding) : Except Asn1Error (BitString × List UInt8) := do
  if state.bTag then
    let info ← tagInfoParsingData w state.pEncodingUnit
    if info.firstOctetOfTag ≠ 0x03 then
      if info.firstOctetOfTag = 0x23 then
        let (decoded, rest) ← decodingConstructedBitString decode object
          (state.pEncodingUnit.drop (1 + info.ulSizeOfLength)) (signed (8 * w) info.ulContentLength)
        let rest ← infiniteEnds state.uInfinite rest
        .ok (decoded, rest)
      else .error .unexpectedTag
    else if info.ulSizeOfTag ≠ 1 then .error .unacceptableValueSize
    else object.decodeValue w (state.inside info)
  else object.decodeValue w state

-- Every constructed value takes an octet for its tag, so that the octets bound the nesting.
def decodeNested (w : Nat) : Nat → BitString → List UInt8 → Except Asn1Error (BitString × List UInt8)
  | 0, _, _ => .error .fault
  | fuel + 1, object, data => do
    let state ← attrListDecodingData w object.attrs data
    object.decodeInner w (decodeNested w fuel create) state

def decodingData (w : Nat) (object : BitString) (data : List UInt8) : Except Asn1Error (BitString × List UInt8) :=
  decodeNested w (data.length + 1) object data

end BitString

end Object

section RoundTrip

namespace BitString

structure Holds (object : BitString) (octets : List UInt8) : Prop where
  present : object.bOptional = false
  unused : object.uUnusedBit ≤ 7
  length : object.uLength = octets.length
  stored : octets <+: object.storage

variable {object : BitString} {octets : List UInt8}

theorem Holds.getSizeOfEncoded (holds : object.Holds octets) :
    object.getSizeOfEncoded = long (attrListGetSizeOfEncoded 4 object.attrs (octets.length + 1) 1) := by
  have ready : object.readyToEncode = true := by
    rw [readyToEncode, holds.present, Bool.false_or]
    exact decide_eq_true holds.unused
  rw [BitString.getSizeOfEncoded, holds.present, if_neg Bool.false_ne_true, ready, if_neg (by decide), holds.length]

theorem Holds.encodingData (holds : object.Holds octets)
    (fits : content (shown object.attrs) (octets.length + 1) ≤ 0xFFFF) :
    object.encodingData = .ok
      ⟨front object.attrs 0x03 (octets.length + 1) ++ UInt8.ofNat object.uUnusedBit :: octets,
        (front object.attrs 0x03 (octets.length + 1)).length + (1 + octets.length)⟩ := by
  have enough := holds.stored.length_le
  have same : object.storage.take octets.length = octets := (List.prefix_iff_eq_take.mp holds.stored).symm
  rw [BitString.encodingData, holds.present, if_neg Bool.false_ne_true, holds.getSizeOfEncoded,
    holds.length, encodeFront_eq 0x03 fits, ok_bind, if_neg (by omega), same]

theorem isTag_bitString : IsTag [0x03] := .short 0x03 (by decide) (by decide)

structure Reads (object decoded : BitString) (unused : Nat) (octets : List UInt8) : Prop where
  attrs : decoded.attrs = object.attrs
  unusedBit : decoded.uUnusedBit = unused
  length : decoded.uLength = octets.length
  stored : octets <+: decoded.storage

theorem withValue_reads (object : BitString) {unused : Nat} (few : unused ≤ 7) (bounded : octets.length + 1 ≤ 20000)
    (further : List UInt8) :
    ∃ decoded, object.withValue 4 (UInt8.ofNat unused :: (octets ++ further)) (octets.length + 1) =
      .ok (decoded, further) ∧ object.Reads decoded unused octets := by
  have released : object.release.attrs = object.attrs := by
    rw [release]
    split_ifs <;> rfl
  have size : ulongSub 4 (octets.length + 1) 1 = octets.length := ulongSub_eq 4 (by omega)
  have bits : (UInt8.ofNat unused).toNat = unused := toNat_octet (by omega)
  rw [withValue, if_neg (by omega), octet_cons, ok_bind, size, bits]
  dsimp only
  rw [List.drop_succ_cons, List.drop_zero, if_neg (by simp), List.take_left, List.drop_left]
  by_cases short : octets.length ≤ maximumOctetStringOctets
  · rw [if_pos short]
    exact ⟨_, rfl, released, rfl, rfl, List.prefix_append _ _⟩
  · rw [if_neg short]
    exact ⟨_, rfl, released, rfl, rfl, List.prefix_refl _⟩

theorem decodingData_front (object : BitString) {v : Nat} (tagged : Tagged object.attrs v) (positive : 0 < v)
    (behind : List UInt8) :
    ∃ inner : Decoding, inner.pEncodingUnit = behind ∧ inner.uleftSize = v ∧ inner.uInfinite = 0 ∧
      object.decodingData 4 (front object.attrs 0x03 v ++ behind) = object.decodeValue 4 inner := by
  obtain ⟨state, begun, ended, stands⟩ := front_decoded isTag_bitString tagged positive behind
  rw [decodingData, decodeNested, begun, ok_bind, decodeInner]
  cases tag : state.bTag with
  | false =>
    rw [tag, if_neg Bool.false_ne_true] at stands
    exact ⟨state, stands.1, stands.2, ended, rfl⟩
  | true =>
    rw [tag, if_pos rfl] at stands
    rw [if_pos rfl, stands.1, ok_bind, if_neg (by simp), if_neg (by simp)]
    exact ⟨state.inside ⟨1, 0x03, false, getSizeOfEncodedLength 4 v, v⟩, stands.2, rfl, ended, rfl⟩

theorem decodingData_reads (object : BitString) (tagged : Tagged object.attrs (octets.length + 1))
    {unused : Nat} (few : unused ≤ 7) (bounded : octets.length + 1 ≤ 20000) (further : List UInt8) :
    ∃ decoded, object.decodingData 4 (front object.attrs 0x03 (octets.length + 1) ++
        (UInt8.ofNat unused :: (octets ++ further))) = .ok (decoded, further) ∧
      object.Reads decoded unused octets := by
  obtain ⟨inner, data, length, none, same⟩ := decodingData_front object tagged (Nat.succ_pos _)
    (UInt8.ofNat unused :: (octets ++ further))
  obtain ⟨decoded, read, reads⟩ := withValue_reads object few bounded further
  refine ⟨decoded, ?_, reads⟩
  rw [same, decodeValue, Decoding.valueLength_eq (by omega), ok_bind, length, data, read, ok_bind, none]
  rfl

theorem decodingData_long (object : BitString) {v : Nat} (tagged : Tagged object.attrs v) (long : 20000 < v)
    (behind : List UInt8) :
    object.decodingData 4 (front object.attrs 0x03 v ++ behind) = .error .unacceptableValueSize := by
  obtain ⟨inner, data, length, -, same⟩ := decodingData_front object tagged (by omega) behind
  rw [same, decodeValue, Decoding.valueLength_eq (by omega), ok_bind, length, withValue, if_pos long]
  rfl

def RoundTrips (object : BitString) (octets : List UInt8) : Prop :=
  ∃ encoded, object.encodingData = .ok encoded ∧
    encoded.written.length = object.getSizeOfEncoded ∧ encoded.advance = object.getSizeOfEncoded ∧
    ∀ (target : BitString) (further : List UInt8), target.attrs = object.attrs →
      ∃ decoded, target.decodingData 4 (encoded.written ++ further) = .ok (decoded, further) ∧
        decoded.uUnusedBit = object.uUnusedBit ∧ decoded.uLength = octets.length ∧
        decoded.storage.take decoded.uLength = octets

theorem Holds.roundTrips (holds : object.Holds octets) (bounded : octets.length < 20000)
    (tagged : Tagged object.attrs (octets.length + 1)) : object.RoundTrips octets := by
  have size : object.getSizeOfEncoded = attrListGetSizeOfEncoded 4 object.attrs (octets.length + 1) 1 := by
    rw [holds.getSizeOfEncoded, long_total tagged.fits, attrListGetSizeOfEncoded_eq]
  have whole := length_front 0x03 tagged
  refine ⟨_, holds.encodingData tagged.fits, ?_, ?_, fun target further same => ?_⟩
  · rw [size, ← whole, List.length_append, List.length_cons]
  · rw [size, ← whole, Nat.add_comm 1]
  · rw [← same] at tagged ⊢
    obtain ⟨decoded, read, reads⟩ := target.decodingData_reads tagged holds.unused (by omega) further
    refine ⟨decoded, ?_, reads.unusedBit, reads.length, ?_⟩
    · rw [← read, List.append_assoc, List.cons_append]
    · rw [reads.length]
      exact (List.prefix_iff_eq_take.mp reads.stored).symm

end BitString

end RoundTrip

section Limits

theorem content_explicit (attr : Attr) (some : attr.formType ≠ .emptyForm)
    (explicit : attr.bImplicit = false) (v n : Nat)
    (small : v + 10 * n < 0x80000000) :
    v + 2 * n ≤ content (List.replicate n attr) v ∧ content (List.replicate n attr) v ≤ v + 10 * n := by
  induction n with
  | zero => exact ⟨Nat.le_refl v, Nat.le_refl v⟩
  | succ n ih =>
    obtain ⟨low, high⟩ := ih (by omega)
    have size : 1 ≤ getSizeOfEncodedLength 4 (content (List.replicate n attr) v) ∧
        getSizeOfEncodedLength 4 (content (List.replicate n attr) v) ≤ 5 := by
      rw [getSizeOfEncodedLength, if_neg (by omega)]
      simp only [octetCount]
      split_ifs <;> omega
    have tag := tagSize_pos (List.replicate n attr) v
    have tagBound := tagSize_le (List.replicate n attr) v
    rw [List.replicate_succ, content_cons some, explicit, left, Bool.not_false, if_pos rfl, total]
    omega

theorem encodeLoop_deep {attr : Attr} {rest : List Attr} {v : Nat} (some : attr.formType ≠ .emptyForm)
    (long : 0xFFFF < content (attr :: rest) v) (small : content (attr :: rest) v < 0xFFFFF0) :
    encodeLoop 4 false (attr :: rest) true (total (attr :: rest) v) = .error .invalidEncodeLength := by
  have tagBound := getSizeOfEncodedTag_le attr
  rw [content_cons some] at long small
  rw [encodeLoop, if_neg some, total_cons some]
  simp only [Bool.not_true, Bool.false_eq_true, if_false]
  rw [ulongSub_eq 4 (by omega), Nat.add_sub_cancel, getPureEncodedLength_none long]

def unmarked : Integer := ⟨[⟨.universalForm, 0, true⟩], false, true, false, 5, 1, [5]⟩

def deep (n : Nat) : Integer := ⟨List.replicate n ⟨.contextForm, 0, false⟩, false, true, false, 5, 1, [5]⟩

def zeros (n : Nat) : BitString := ⟨[], false, true, 0, n, [], some (List.replicate n 0)⟩

theorem unmarked_fails : ¬ unmarked.RoundTrips [5] := by
  rintro ⟨encoded, encodes, -, -, decodes⟩
  obtain rfl : (⟨[0x00, 0x01, 0x05], 3⟩ : Encoded) = encoded := Except.ok.inj encodes
  obtain ⟨decoded, read, -⟩ := decodes unmarked [] rfl
  cases read

theorem deep_fails {n : Nat} (many : 32768 ≤ n) (few : n < 65536) : ¬ (deep n).RoundTrips [5] := by
  rintro ⟨encoded, encodes, -⟩
  obtain ⟨low, high⟩ := content_explicit ⟨.contextForm, 0, false⟩ (by decide) rfl 1 n (by omega)
  have all : shown (deep n).attrs = List.replicate n ⟨.contextForm, 0, false⟩ := by
    rw [shown]
    apply List.take_of_length_le
    change (List.replicate n _).length ≤ CcspCommon.AnscPlatform.ushort (List.replicate n _).length
    exact Nat.le_of_eq (by rw [List.length_replicate, CcspCommon.AnscPlatform.ushort, Nat.mod_eq_of_lt few])
  obtain ⟨n, rfl⟩ := Nat.exists_eq_add_of_le' (Nat.le_trans (by omega) many : 1 ≤ n)
  rw [List.replicate_succ] at low high all
  have failed := encodeLoop_deep (show FormType.contextForm ≠ .emptyForm by decide) (Nat.lt_of_lt_of_le (by omega) low)
    (Nat.lt_of_le_of_lt high (by omega))
  have size : (deep (n + 1)).getSizeOfEncoded = total (shown (deep (n + 1)).attrs) 1 := by
    have lengthSize : getSizeOfEncodedLength 4 (content (shown (deep (n + 1)).attrs) 1) ≤ 5 := by
      rw [all, getSizeOfEncodedLength, if_neg (by omega)]
      simp only [octetCount]
      split_ifs <;> omega
    have tagSize := tagSize_le (shown (deep (n + 1)).attrs) 1
    change long (attrListGetSizeOfEncoded 4 (deep (n + 1)).attrs 1 1) = _
    rw [attrListGetSizeOfEncoded_eq]
    apply long_small
    rw [total]
    rw [all] at lengthSize tagSize ⊢
    omega
  have front : encodeFront (deep (n + 1)).attrs 0x02 (deep (n + 1)).getSizeOfEncoded 1 =
    .error .invalidEncodeLength := by
    rw [size, encodeFront, if_neg (by omega), Int.toNat_natCast, attrListEncodingData, all, failed]
    rfl
  have fails : (deep (n + 1)).encodingData = .error .invalidEncodeLength := by
    change (encodeFront (deep (n + 1)).attrs 0x02 (deep (n + 1)).getSizeOfEncoded 1 >>= _) = _
    rw [front]
    rfl
  rw [fails] at encodes
  cases encodes

theorem zeros_fails {n : Nat} (many : 20000 ≤ n) (few : n < 0xFFFF) : ¬ (zeros n).RoundTrips (List.replicate n 0) := by
  have holds : (zeros n).Holds (List.replicate n 0) :=
    ⟨rfl, Nat.zero_le 7, List.length_replicate.symm, List.prefix_refl _⟩
  have tagged : Tagged (zeros n).attrs ((List.replicate n (0 : UInt8)).length + 1) := by
    refine ⟨fun attr member => ?_, ?_⟩
    · cases member
    · rw [List.length_replicate]
      exact few
  rintro ⟨encoded, encodes, -, -, decodes⟩
  rw [holds.encodingData tagged.fits] at encodes
  obtain rfl := Except.ok.inj encodes
  obtain ⟨decoded, read, -⟩ := decodes (zeros n) [] rfl
  rw [List.append_nil, (zeros n).decodingData_long tagged (by rw [List.length_replicate]; omega)] at read
  cases read

def plain (uValue : Nat) : Integer := Integer.setUlongValue ⟨[], false, false, false, 0, 0, []⟩ uValue

end Limits

section TaggedValues

theorem tagged_values_come_back :
    (∀ (object : Integer) (octets : List UInt8), object.Holds octets → Tagged object.attrs octets.length →
      object.RoundTrips octets) ∧
    (∀ (object : BitString) (octets : List UInt8), object.Holds octets → octets.length < 20000 →
      Tagged object.attrs (octets.length + 1) → object.RoundTrips octets) :=
  ⟨fun _ _ holds tagged => holds.roundTrips tagged, fun _ _ holds bounded tagged => holds.roundTrips bounded tagged⟩

def sampleAttrs : List Attr := [⟨.contextForm, 0, false⟩, ⟨.privateForm, 300, true⟩, ⟨.universalForm, 0, false⟩]

theorem readable_sampleAttrs : ∀ attr ∈ emitted true (shown sampleAttrs), attr.Readable := by
  have written : emitted true (shown sampleAttrs) = [⟨.contextForm, 0, false⟩, ⟨.privateForm, 300, true⟩] := rfl
  intro attr member
  rw [written, List.mem_cons, List.mem_singleton] at member
  obtain rfl | rfl := member
  · exact ⟨by decide, by decide, by decide⟩
  · exact ⟨by decide, by decide, by decide⟩

theorem tagged_values_come_back_sample :
    (Integer.setIntegerValue ⟨sampleAttrs, false, false, false, 0, 0, []⟩ (-129)).RoundTrips [0xFF, 0x7F] ∧
      (⟨sampleAttrs, false, false, 3, 2, [0xA5, 0x98], none⟩ : BitString).RoundTrips [0xA5, 0x98] :=
  ⟨tagged_values_come_back.1 _ _ (.negative _ (-129) (by decide) (by decide)) ⟨readable_sampleAttrs, by decide⟩,
    tagged_values_come_back.2 _ _ ⟨rfl, by decide, rfl, List.prefix_refl _⟩ (by decide)
      ⟨readable_sampleAttrs, by decide⟩⟩

theorem tagged_values_get_lost :
    (unmarked.Holds [5] ∧ (∀ attr ∈ unmarked.attrs, attr.ulClassNumber < 16384) ∧ ¬ unmarked.RoundTrips [5]) ∧
    ((deep 32768).Holds [5] ∧ (∀ attr ∈ (deep 32768).attrs, attr.ulClassNumber < 16384) ∧
      ¬ (deep 32768).RoundTrips [5]) ∧
    ((zeros 20000).Holds (List.replicate 20000 0) ∧ (zeros 20000).attrs = [] ∧
      ¬ (zeros 20000).RoundTrips (List.replicate 20000 0)) ∧
    (plain 0x80000000).encodingData = .ok ⟨[0x02, 0x05, 0x00, 0x80, 0x00, 0x00, 0x00, 0x00], 7⟩ ∧
      (plain 0x80000000).getSizeOfEncoded = 7 := by
  refine ⟨⟨?_, ?_, unmarked_fails⟩, ⟨?_, ?_, deep_fails (Nat.le_refl _) (by decide)⟩,
    ⟨?_, rfl, zeros_fails (Nat.le_refl _) (by decide)⟩, rfl, rfl⟩
  · exact .buffer unmarked rfl rfl rfl (by decide) (by decide)
  · decide
  · exact .buffer (deep 32768) rfl rfl rfl (Nat.le_refl 1) (Nat.le_of_ble_eq_true rfl)
  · intro attr member
    rw [List.eq_of_mem_replicate member]
    decide
  · exact ⟨rfl, Nat.zero_le 7, List.length_replicate.symm, List.prefix_refl _⟩

end TaggedValues

end CcspCommon.AnscAsn1
