import CcspCommon.AnscPlatform.DList
import Mathlib

set_option autoImplicit false

namespace CcspCommon.AnscAsn1

open CcspCommon.AnscPlatform (ushort)

section Lengths

/-- The results of the routines other than success; `fault` is a read behind the end of the buffer. -/
inductive Asn1Error
  | fault | unexpectedTag | invalidEncodeLength | notReadyToEncode | unacceptableValueSize
  | infiniteEndMissed | invalidValue | badOidValue
deriving DecidableEq

def octet (data : List UInt8) (index : Nat) : Except Asn1Error UInt8 :=
  match data[index]? with
  | some value => .ok value
  | none => .error .fault

def octetCount : Nat → Nat → Nat
  | 0, _ => 1
  | fuel + 1, ulTempLength => if ulTempLength > 0xFF then octetCount fuel (ulTempLength / 256) + 1 else 1

-- `w` is the size of `ULONG` in bytes.
variable (w : Nat)

def ulongSub (a b : Nat) : Nat := if b ≤ a then a - b else a + 2 ^ (8 * w) - b

theorem ulongSub_eq {a b : Nat} (ordered : b ≤ a) : ulongSub w a b = a - b := if_pos ordered

def getSizeOfEncodedLength (ulLength : Nat) : Nat :=
  -- `ANSC_ASN1_NOT_READY_TO_ENCODE`
  if 2 ^ (8 * w - 1) ≤ ulLength then 0xFFFF8000 + 21
  else if ulLength ≤ 0x7F then 1
  else 1 + octetCount (w - 1) ulLength

def ulongOctets (value : Nat) : List UInt8 :=
  (List.range w).map fun i => UInt8.ofNat (value / 256 ^ (w - 1 - i))

-- On a little-endian processor `AnscUlongFromHToN` leaves this order for a `ULONG` of four bytes only.
def asn1WriteUlong (value : Nat) : List UInt8 :=
  if value = 0 then [0] else (ulongOctets w value).dropWhile (· = 0)

def encodeLength (ulLength : Nat) : List UInt8 :=
  if ulLength ≤ 0x7F then [UInt8.ofNat ulLength]
  else (UInt8.ofNat (octetCount (w - 1) ulLength) ||| 0x80) :: asn1WriteUlong w ulLength

def pureLoop (totalLength : Nat) : List Nat → Option Nat
  | [] => none
  | i :: rest =>
    if getSizeOfEncodedLength w (ulongSub w totalLength i) = i then some (ulongSub w totalLength i)
    else pureLoop totalLength rest

def getPureEncodedLength (totalLength : Nat) : Option Nat := pureLoop w totalLength [1, 2, 3]

def getLengthFromBuffer (data : List UInt8) (ulLength : Nat) : Except Asn1Error Nat :=
  if ulLength = 0 then .ok 0
  else
    let ulLength := if ulLength > w then w else ulLength
    if data.length < ulLength then .error .fault
    else
      let buffer := List.replicate (w - ulLength) 0 ++ data.take ulLength
      .ok ((buffer.getD 3 0).toNat + (buffer.getD 2 0).toNat * 0x100 + (buffer.getD 1 0).toNat * 0x10000 +
        (buffer.getD 0 0).toNat * 0x1000000)

end Lengths

section TagInfo

structure TagInfo where
  ulSizeOfTag : Nat
  firstOctetOfTag : UInt8
  bIsInfinite : Bool
  ulSizeOfLength : Nat
  ulContentLength : Nat

def continuation : List UInt8 → Except Asn1Error Nat
  | [] => .error .fault
  | value :: rest => do
    if value &&& 0x80 = 0 then .ok 0
    else
      let more ← continuation rest
      .ok (more + 1)

/-- The part of `AnscTagInfoParsingData` from `ulStartOfLength` on: the flag of the infinite form,
the size of the length and the length. The octet 0x80 sets the flag, but the length is then
filled in as for any other long form. -/
def lengthParsing (w : Nat) (data : List UInt8) : Except Asn1Error (Bool × Nat × Nat) := do
  let length ← octet data 0
  if length &&& 0x80 = 0 then .ok (false, 1, length.toNat)
  else if (length &&& 0x7F).toNat > w then .error .invalidEncodeLength
  else
    let ulContentLength ← getLengthFromBuffer w (data.drop 1) (length &&& 0x7F).toNat
    .ok (length = 0x80, (length &&& 0x7F).toNat + 1, ulContentLength)

def tagInfoParsingData (w : Nat) (data : List UInt8) : Except Asn1Error TagInfo := do
  let first ← octet data 0
  if first = 0 then .error .unexpectedTag
  else
    let i ← if first &&& 0x1F = 0x1F then (1 + ·) <$> continuation (data.drop 1) else .ok 0
    if i ≥ 4 then .error .unexpectedTag
    else
      let (bIsInfinite, ulSizeOfLength, ulContentLength) ← lengthParsing w (data.drop (i + 1))
      .ok ⟨i + 1, first, bIsInfinite, ulSizeOfLength, ulContentLength⟩

end TagInfo

section Attributes

inductive FormType
  | emptyForm | universalForm | applicationForm | contextForm | privateForm
deriving DecidableEq

structure Attr where
  formType : FormType
  ulClassNumber : Nat
  bImplicit : Bool
deriving DecidableEq

namespace Attr

def getSizeOfEncodedTag (attr : Attr) : Nat :=
  if attr.formType = .emptyForm then 0
  else if attr.ulClassNumber ≤ 0x1E then 1
  else if attr.ulClassNumber ≥ 128 * 128 * 128 then 5
  else if attr.ulClassNumber ≥ 128 * 128 then 4
  else if attr.ulClassNumber ≥ 128 then 3
  else 2

def formBits : FormType → UInt8
  | .emptyForm | .universalForm => 0
  | .applicationForm => 0x40
  | .contextForm => 0x80
  | .privateForm => 0xC0

def digit (base uRestValue : Nat) : List UInt8 × Nat :=
  if uRestValue ≥ base then ([UInt8.ofNat (uRestValue / base) ||| 0x80], uRestValue % base) else ([], uRestValue)

def encodingData (attr : Attr) (bConstructed : Bool) : List UInt8 :=
  if attr.formType = .emptyForm then []
  else
    let first := formBits attr.formType ||| (if bConstructed || !attr.bImplicit then 0x20 else 0)
    if attr.ulClassNumber ≤ 0x1E then [first + UInt8.ofNat attr.ulClassNumber]
    else
      let (third, uRestValue) := digit (128 * 128 * 128) attr.ulClassNumber
      let (second, uRestValue) := digit (128 * 128) uRestValue
      let (last, uRestValue) := digit 128 uRestValue
      (first + 0x1F) :: third ++ second ++ last ++ [UInt8.ofNat uRestValue]

end Attr

def attrParsingData (data : List UInt8) : Except Asn1Error (FormType × Nat) := do
  let first ← octet data 0
  let uChar := first &&& 0xC0
  let formType :=
    if uChar = 0x40 then FormType.applicationForm
    else if uChar = 0x80 then .contextForm
    else if uChar = 0xC0 then .privateForm
    else .universalForm
  if first &&& 0x1F ≠ 0x1F then .ok (formType, (first &&& 0x1F).toNat)
  else
    let more ← continuation (data.drop 1)
    let octets := (data.drop 1).take (more + 1)
    .ok (formType, octets.foldl (fun ulClass uChar => ulClass * 128 + (uChar &&& 0x7F).toNat) 0)

-- The attributes a list shows: its depth is a `USHORT`.
def shown (attrs : List Attr) : List Attr := attrs.take (ushort attrs.length)

def sizeStep (w : Nat) (attr : Attr) (state : Nat × Nat) : Nat × Nat :=
  let (length, tagSize) := state
  if attr.formType = .emptyForm then state
  else
    (if !attr.bImplicit && tagSize > 0 then length + getSizeOfEncodedLength w length + tagSize else length,
      attr.getSizeOfEncodedTag)

-- The loop goes from the end of the list to its beginning.
def sizeLoop (w : Nat) (attrs : List Attr) (uValueLength uTags : Nat) : Nat × Nat :=
  attrs.foldr (sizeStep w) (uValueLength, uTags)

def attrListGetSizeOfEncoded (w : Nat) (attrs : List Attr) (uValueLength uTags : Nat) : Nat :=
  let (length, tagSize) := sizeLoop w (shown attrs) uValueLength uTags
  if tagSize > 0 then length + getSizeOfEncodedLength w length + tagSize else length

def encodeLoop (w : Nat) (bIsConstructive : Bool) :
    List Attr → Bool → Nat → Except Asn1Error (List UInt8 × Bool × Nat)
  | [], bTag, uleftSize => .ok ([], bTag, uleftSize)
  | attr :: rest, bTag, uleftSize =>
    if attr.formType = .emptyForm then encodeLoop w bIsConstructive rest bTag uleftSize
    else if !bTag then encodeLoop w bIsConstructive rest (!attr.bImplicit) uleftSize
    else
      let uleftSize := ulongSub w uleftSize attr.getSizeOfEncodedTag
      match getPureEncodedLength w uleftSize with
      | none => .error .invalidEncodeLength
      | some uleftSize => do
        let (later, bTag, left) ← encodeLoop w bIsConstructive rest (!attr.bImplicit) uleftSize
        .ok (attr.encodingData bIsConstructive ++ encodeLength w uleftSize ++ later, bTag, left)

def attrListEncodingData (w : Nat) (attrs : List Attr) (uSizeOfEncoded : Nat) (bIsConstructive : Bool) :
    Except Asn1Error (List UInt8 × Bool × Nat) :=
  encodeLoop w bIsConstructive (shown attrs) true uSizeOfEncoded

structure Decoding where
  pEncodingUnit : List UInt8
  bTag : Bool
  uleftSize : Nat
  uInfinite : Nat

def decodeLoop (w : Nat) : List Attr → Decoding → Except Asn1Error Decoding
  | [], state => .ok state
  | attr :: rest, state =>
    if attr.formType = .emptyForm then decodeLoop w rest state
    else if !state.bTag then decodeLoop w rest { state with bTag := !attr.bImplicit }
    else do
      let info ← tagInfoParsingData w state.pEncodingUnit
      let (formType, ulClassNumber) ← attrParsingData state.pEncodingUnit
      if formType ≠ attr.formType ∨ ulClassNumber ≠ attr.ulClassNumber then .error .unexpectedTag
      else
        let header := info.ulSizeOfTag + info.ulSizeOfLength
        let data := state.pEncodingUnit.drop header
        if info.bIsInfinite then decodeLoop w rest ⟨data, !attr.bImplicit, 0, state.uInfinite + 1⟩
        else if state.uleftSize = 0 then
          decodeLoop w rest ⟨data, !attr.bImplicit, info.ulContentLength, state.uInfinite⟩
        else
          let uleftSize := ulongSub w state.uleftSize header
          if uleftSize ≠ info.ulContentLength then .error .invalidEncodeLength
          else decodeLoop w rest ⟨data, !attr.bImplicit, uleftSize, state.uInfinite⟩

def attrListDecodingData (w : Nat) (attrs : List Attr) (data : List UInt8) : Except Asn1Error Decoding :=
  decodeLoop w (shown attrs) ⟨data, true, 0, 0⟩

end Attributes

section LengthFields

theorem ok_bind {A B : Type} (value : A) (next : A → Except Asn1Error B) :
    (Except.ok value >>= next) = next value := rfl

theorem octet_cons (value : UInt8) (rest : List UInt8) : octet (value :: rest) 0 = .ok value := rfl

theorem ulongOctets_small {value : Nat} (small : value ≤ 0xFFFF) :
    ulongOctets 4 value = [0, 0, UInt8.ofNat (value / 256), UInt8.ofNat value] := by
  have octets : ulongOctets 4 value =
      [UInt8.ofNat (value / 256 ^ 3), UInt8.ofNat (value / 256 ^ 2), UInt8.ofNat (value / 256 ^ 1),
        UInt8.ofNat (value / 256 ^ 0)] := rfl
  have high : value / 256 ^ 3 = 0 := by omega
  have middle : value / 256 ^ 2 = 0 := by omega
  rw [octets, high, middle, Nat.pow_one, Nat.pow_zero, Nat.div_one]
  rfl

theorem ofNat_ne_zero {value : Nat} (positive : 0 < value) (small : value < 256) : UInt8.ofNat value ≠ 0 := by
  intro zero
  have := congrArg UInt8.toNat zero
  rw [UInt8.toNat_ofNat_of_lt' small] at this
  simp at this
  omega

theorem encodeLength_one {ulLength : Nat} (short : ulLength ≤ 0x7F) :
    encodeLength 4 ulLength = [UInt8.ofNat ulLength] := by
  rw [encodeLength, if_pos short]

theorem encodeLength_two {ulLength : Nat} (long : 0x7F < ulLength) (small : ulLength ≤ 0xFF) :
    encodeLength 4 ulLength = [0x81, UInt8.ofNat ulLength] := by
  have count : octetCount 3 ulLength = 1 := by rw [octetCount, if_neg (by omega)]
  have zero : ulLength / 256 = 0 := by omega
  rw [encodeLength, if_neg (by omega), asn1WriteUlong, if_neg (by omega), ulongOctets_small (by omega), zero, count]
  simp [List.dropWhile, ofNat_ne_zero (show 0 < ulLength by omega) (by omega)]
  rfl

theorem encodeLength_three {ulLength : Nat} (long : 0xFF < ulLength) (small : ulLength ≤ 0xFFFF) :
    encodeLength 4 ulLength = [0x82, UInt8.ofNat (ulLength / 256), UInt8.ofNat ulLength] := by
  have count : octetCount 3 ulLength = 2 := by
    rw [octetCount, if_pos (by omega), octetCount, if_neg (by omega)]
  rw [encodeLength, if_neg (by omega), asn1WriteUlong, if_neg (by omega), ulongOctets_small small, count]
  simp [List.dropWhile, ofNat_ne_zero (show 0 < ulLength / 256 by omega) (by omega)]
  rfl

theorem encodeLength_cases {ulLength : Nat} (small : ulLength ≤ 0xFFFF) :
    (ulLength ≤ 0x7F ∧ encodeLength 4 ulLength = [UInt8.ofNat ulLength]) ∨
    (0x7F < ulLength ∧ ulLength ≤ 0xFF ∧ encodeLength 4 ulLength = [0x81, UInt8.ofNat ulLength]) ∨
    (0xFF < ulLength ∧ encodeLength 4 ulLength = [0x82, UInt8.ofNat (ulLength / 256), UInt8.ofNat ulLength]) := by
  by_cases short : ulLength ≤ 0x7F
  · exact .inl ⟨short, encodeLength_one short⟩
  by_cases long : ulLength ≤ 0xFF
  · exact .inr (.inl ⟨by omega, long, encodeLength_two (by omega) long⟩)
  · exact .inr (.inr ⟨by omega, encodeLength_three (by omega) small⟩)

theorem length_encodeLength {ulLength : Nat} (small : ulLength ≤ 0xFFFF) :
    (encodeLength 4 ulLength).length = getSizeOfEncodedLength 4 ulLength := by
  rw [getSizeOfEncodedLength, if_neg (by omega)]
  obtain ⟨short, same⟩ | ⟨long, small, same⟩ | ⟨long, same⟩ := encodeLength_cases small
  · rw [same, if_pos short]
    rfl
  · rw [same, if_neg (by omega), octetCount, if_neg (by omega)]
    rfl
  · rw [same, if_neg (by omega), octetCount, if_pos (by omega), octetCount, if_neg (by omega)]
    rfl

theorem octet_low : ∀ value : Fin 128, UInt8.ofNat value &&& 0x80 = 0 := by decide

theorem toNat_octet {value : Nat} (small : value < 256) : (UInt8.ofNat value).toNat = value :=
  UInt8.toNat_ofNat_of_lt' small

theorem lengthParsing_encodeLength {ulLength : Nat} (small : ulLength ≤ 0xFFFF) (rest : List UInt8) :
    lengthParsing 4 (encodeLength 4 ulLength ++ rest) = .ok (false, getSizeOfEncodedLength 4 ulLength, ulLength) := by
  rw [← length_encodeLength small]
  obtain ⟨short, same⟩ | ⟨long, small, same⟩ | ⟨long, same⟩ := encodeLength_cases small
  · have low := octet_low ⟨ulLength, by omega⟩
    rw [same, lengthParsing, List.cons_append, octet_cons, ok_bind, if_pos low, toNat_octet (by omega)]
    rfl
  · have length : getLengthFromBuffer 4 (UInt8.ofNat ulLength :: rest) 1 = .ok ulLength := by
      simp [getLengthFromBuffer, List.replicate, toNat_octet (show ulLength < 256 by omega)]
    rw [same, lengthParsing, List.cons_append, octet_cons, ok_bind, if_neg (by decide), if_neg (by decide)]
    change (getLengthFromBuffer 4 (UInt8.ofNat ulLength :: rest) 1 >>= _) = _
    rw [length]
    rfl
  · have length : getLengthFromBuffer 4 (UInt8.ofNat (ulLength / 256) :: UInt8.ofNat ulLength :: rest) 2 =
        .ok ulLength := by
      have low : (UInt8.ofNat ulLength).toNat = ulLength % 256 := by simp
      have enough : ¬ rest.length + 1 + 1 < 2 := by omega
      simp [getLengthFromBuffer, List.replicate, enough, low, toNat_octet (show ulLength / 256 < 256 by omega)]
      omega
    rw [same, lengthParsing, List.cons_append, octet_cons, ok_bind, if_neg (by decide), if_neg (by decide)]
    change (getLengthFromBuffer 4 (UInt8.ofNat (ulLength / 256) :: UInt8.ofNat ulLength :: rest) 2 >>= _) = _
    have size : ((0x82 : UInt8) &&& 0x7F).toNat + 1 = 3 := by decide
    rw [length, ok_bind, size]
    rfl

theorem getSizeOfEncodedLength_eq {ulLength : Nat} (small : ulLength < 0x1000000) :
    getSizeOfEncodedLength 4 ulLength =
      if ulLength ≤ 0x7F then 1 else if ulLength ≤ 0xFF then 2 else if ulLength ≤ 0xFFFF then 3 else 4 := by
  rw [getSizeOfEncodedLength, if_neg (by omega)]
  split
  · rfl
  rw [octetCount]
  by_cases two : ulLength ≤ 0xFF
  · rw [if_neg (by omega), if_pos two]
  rw [if_pos (by omega), if_neg two, octetCount]
  by_cases three : ulLength ≤ 0xFFFF
  · rw [if_neg (by omega), if_pos three]
  rw [if_pos (by omega), if_neg three, octetCount, if_neg (by omega)]

theorem pureLoop_found {ulLength i : Nat} (rest : List Nat)
    (size : getSizeOfEncodedLength 4 ulLength = i) : pureLoop 4 (ulLength + i) (i :: rest) = some ulLength := by
  rw [pureLoop, ulongSub_eq 4 (by omega), Nat.add_sub_cancel, if_pos size]

theorem pureLoop_next {totalLength i : Nat} (rest : List Nat) (ordered : i ≤ totalLength)
    (size : getSizeOfEncodedLength 4 (totalLength - i) ≠ i) :
    pureLoop 4 totalLength (i :: rest) = pureLoop 4 totalLength rest := by
  rw [pureLoop, ulongSub_eq 4 ordered, if_neg size]

theorem getPureEncodedLength_eq {ulLength : Nat} (small : ulLength ≤ 0xFFFF) :
    getPureEncodedLength 4 (ulLength + getSizeOfEncodedLength 4 ulLength) = some ulLength := by
  have size := getSizeOfEncodedLength_eq (show ulLength < 0x1000000 by omega)
  by_cases one : ulLength ≤ 0x7F
  · rw [if_pos one] at size
    rw [size, getPureEncodedLength, pureLoop_found _ size]
  by_cases two : ulLength ≤ 0xFF
  · rw [if_neg one, if_pos two] at size
    have other : getSizeOfEncodedLength 4 (ulLength + 2 - 1) ≠ 1 := by
      rw [getSizeOfEncodedLength_eq (by omega), if_neg (by omega)]
      split_ifs <;> omega
    rw [size, getPureEncodedLength, pureLoop_next _ (by omega) other,
      pureLoop_found _ size]
  · rw [if_neg one, if_neg two, if_pos small] at size
    have other1 : getSizeOfEncodedLength 4 (ulLength + 3 - 1) ≠ 1 := by
      rw [getSizeOfEncodedLength_eq (by omega), if_neg (by omega)]
      split_ifs <;> omega
    have other2 : getSizeOfEncodedLength 4 (ulLength + 3 - 2) ≠ 2 := by
      rw [getSizeOfEncodedLength_eq (by omega), if_neg (by omega), if_neg (by omega)]
      split_ifs <;> omega
    rw [size, getPureEncodedLength, pureLoop_next _ (by omega) other1,
      pureLoop_next _ (by omega) other2, pureLoop_found _ size]

theorem getSizeOfEncodedLength_large {ulLength : Nat} (large : 0xFFFF < ulLength) :
    4 ≤ getSizeOfEncodedLength 4 ulLength := by
  rw [getSizeOfEncodedLength]
  split
  next => decide
  next =>
    rw [if_neg (by omega), octetCount, if_pos (by omega), octetCount, if_pos (by omega)]
    simp only [octetCount]
    split_ifs <;> omega

theorem getPureEncodedLength_none {ulLength : Nat} (long : 0xFFFF < ulLength) :
    getPureEncodedLength 4 (ulLength + getSizeOfEncodedLength 4 ulLength) = none := by
  have size := getSizeOfEncodedLength_large long
  have other (i : Nat) (tried : i < 4) :
      getSizeOfEncodedLength 4 (ulLength + getSizeOfEncodedLength 4 ulLength - i) ≠ i := by
    have := getSizeOfEncodedLength_large (show 0xFFFF < ulLength + getSizeOfEncodedLength 4 ulLength - i by omega)
    omega
  rw [getPureEncodedLength, pureLoop_next _ (by omega) (other 1 (by decide)),
    pureLoop_next _ (by omega) (other 2 (by decide)), pureLoop_next _ (by omega) (other 3 (by decide))]
  rfl

end LengthFields

section TagFields

inductive IsTag : List UInt8 → Prop
  | short (first : UInt8) (some : first ≠ 0) (low : first &&& 0x1F ≠ 0x1F) : IsTag [first]
  | long (first : UInt8) (more : List UInt8) (last : UInt8) (high : first &&& 0x1F = 0x1F)
      (continued : ∀ value ∈ more, value &&& 0x80 ≠ 0) (ended : last &&& 0x80 = 0) (few : more.length ≤ 2) :
      IsTag (first :: (more ++ [last]))

theorem continuation_eq {more : List UInt8} (continued : ∀ value ∈ more, value &&& 0x80 ≠ 0) {last : UInt8}
    (ended : last &&& 0x80 = 0) (rest : List UInt8) :
    continuation (more ++ last :: rest) = .ok more.length := by
  induction more with
  | nil => rw [List.nil_append, continuation, if_pos ended]; rfl
  | cons value more ih =>
    rw [List.cons_append, continuation, if_neg (continued value (by simp)),
      ih fun other member => continued other (by simp [member])]
    rfl

theorem tagInfoParsingData_bind {w : Nat} {tag : List UInt8} (isTag : IsTag tag) (data : List UInt8) :
    tagInfoParsingData w (tag ++ data) = lengthParsing w data >>= fun parsed =>
      .ok ⟨tag.length, tag.headD 0, parsed.1, parsed.2.1, parsed.2.2⟩ := by
  cases isTag with
  | short first some low =>
    rw [tagInfoParsingData, List.cons_append, octet_cons, ok_bind, if_neg some, if_neg low, ok_bind]
    dsimp only
    rw [if_neg (by decide)]
    rfl
  | long first more last high continued ended few =>
    have some : first ≠ 0 := by
      rintro rfl
      exact absurd high (by decide)
    have size : (first :: (more ++ [last])).length = 1 + more.length + 1 := by
      rw [List.length_cons, List.length_append, List.length_singleton, Nat.add_comm 1]
    have behind : (first :: (more ++ [last]) ++ data).drop (1 + more.length + 1) = data := List.drop_left' size
    have tail : (first :: (more ++ [last]) ++ data).drop 1 = more ++ last :: data := by simp
    rw [tagInfoParsingData, tail, continuation_eq continued ended, List.cons_append, octet_cons, ok_bind,
      if_neg some, if_pos high]
    change (if 1 + more.length ≥ 4 then _ else _) = _
    rw [if_neg (by omega), ← List.cons_append, behind, size]
    rfl

theorem tagInfoParsingData_tag {w : Nat} {tag data : List UInt8} (isTag : IsTag tag) {bIsInfinite : Bool}
    {ulSizeOfLength ulContentLength : Nat}
    (parsed : lengthParsing w data = .ok (bIsInfinite, ulSizeOfLength, ulContentLength)) :
    tagInfoParsingData w (tag ++ data) =
      .ok ⟨tag.length, tag.headD 0, bIsInfinite, ulSizeOfLength, ulContentLength⟩ := by
  rw [tagInfoParsingData_bind isTag, parsed]
  rfl

theorem tagInfoParsingData_eq {tag : List UInt8} (isTag : IsTag tag) {ulLength : Nat} (small : ulLength ≤ 0xFFFF)
    (rest : List UInt8) :
    tagInfoParsingData 4 (tag ++ (encodeLength 4 ulLength ++ rest)) =
      .ok ⟨tag.length, tag.headD 0, false, getSizeOfEncodedLength 4 ulLength, ulLength⟩ :=
  tagInfoParsingData_tag isTag (lengthParsing_encodeLength small rest)

structure Attr.Readable (attr : Attr) : Prop where
  some : attr.formType ≠ .emptyForm
  small : attr.ulClassNumber < 16384
  marked : ¬ (attr.formType = .universalForm ∧ attr.ulClassNumber = 0 ∧ attr.bImplicit)

def firstOctet (formType : FormType) (bImplicit : Bool) : UInt8 :=
  Attr.formBits formType ||| (if !bImplicit then 0x20 else 0)

def formOf (first : UInt8) : FormType :=
  if first &&& 0xC0 = 0x40 then .applicationForm
  else if first &&& 0xC0 = 0x80 then .contextForm
  else if first &&& 0xC0 = 0xC0 then .privateForm
  else .universalForm

theorem firstOctet_low {formType : FormType} (some : formType ≠ .emptyForm) (bImplicit : Bool) :
    ∀ number : Fin 31, formOf (firstOctet formType bImplicit + UInt8.ofNat number) = formType ∧
      (firstOctet formType bImplicit + UInt8.ofNat number) &&& 0x1F ≠ 0x1F ∧
      ((firstOctet formType bImplicit + UInt8.ofNat number) &&& 0x1F).toNat = number ∧
      (firstOctet formType bImplicit + UInt8.ofNat number = 0 →
        formType = .universalForm ∧ number.val = 0 ∧ bImplicit) := by
  cases formType with
  | emptyForm => exact (some rfl).elim
  | universalForm => cases bImplicit <;> decide
  | applicationForm => cases bImplicit <;> decide
  | contextForm => cases bImplicit <;> decide
  | privateForm => cases bImplicit <;> decide

theorem firstOctet_high {formType : FormType} (some : formType ≠ .emptyForm) (bImplicit : Bool) :
    formOf (firstOctet formType bImplicit + 0x1F) = formType ∧
      (firstOctet formType bImplicit + 0x1F) &&& 0x1F = 0x1F := by
  cases formType with
  | emptyForm => exact (some rfl).elim
  | universalForm => cases bImplicit <;> decide
  | applicationForm => cases bImplicit <;> decide
  | contextForm => cases bImplicit <;> decide
  | privateForm => cases bImplicit <;> decide

theorem digit_octets : ∀ value : Fin 128,
    (UInt8.ofNat value &&& 0x80 = 0 ∧ (UInt8.ofNat value &&& 0x7F).toNat = value) ∧
      (UInt8.ofNat value ||| 0x80) &&& 0x80 ≠ 0 ∧ ((UInt8.ofNat value ||| 0x80) &&& 0x7F).toNat = value := by
  decide

theorem attrParsingData_long {first : UInt8} (high : first &&& 0x1F = 0x1F) {more : List UInt8}
    (continued : ∀ value ∈ more, value &&& 0x80 ≠ 0) {last : UInt8} (ended : last &&& 0x80 = 0) (rest : List UInt8) :
    attrParsingData (first :: (more ++ [last]) ++ rest) = .ok (formOf first,
      (more ++ [last]).foldl (fun ulClass uChar => ulClass * 128 + (uChar &&& 0x7F).toNat) 0) := by
  have tail : (first :: (more ++ [last]) ++ rest).drop 1 = more ++ last :: rest := by simp
  have number : (more ++ last :: rest).take (more.length + 1) = more ++ [last] := by
    rw [List.append_cons]
    exact List.take_left' (by simp)
  rw [attrParsingData, tail, continuation_eq continued ended, List.cons_append, octet_cons, ok_bind]
  dsimp only
  rw [if_neg (by simpa using high), ok_bind, number]
  rfl

theorem attr_octets {attr : Attr} (readable : attr.Readable) :
    IsTag (attr.encodingData false) ∧ (attr.encodingData false).length = attr.getSizeOfEncodedTag ∧
      ∀ rest, attrParsingData (attr.encodingData false ++ rest) = .ok (attr.formType, attr.ulClassNumber) := by
  have first : Attr.formBits attr.formType ||| (if false || !attr.bImplicit then 0x20 else 0) =
      firstOctet attr.formType attr.bImplicit := by rw [Bool.false_or, firstOctet]
  rw [Attr.encodingData, if_neg readable.some, Attr.getSizeOfEncodedTag, if_neg readable.some, first]
  dsimp only
  by_cases low : attr.ulClassNumber ≤ 0x1E
  · obtain ⟨form, short, number, zero⟩ :=
      firstOctet_low readable.some attr.bImplicit ⟨attr.ulClassNumber, by omega⟩
    rw [if_pos low, if_pos low]
    refine ⟨.short _ (fun none => readable.marked (zero none)) short, rfl, fun rest => ?_⟩
    rw [attrParsingData, List.cons_append, octet_cons, ok_bind]
    dsimp only
    rw [if_pos short, number]
    exact congrArg (fun formType => Except.ok (formType, attr.ulClassNumber)) form
  · obtain ⟨form, long⟩ := firstOctet_high readable.some attr.bImplicit
    have small := readable.small
    have none : Attr.digit (128 * 128 * 128) attr.ulClassNumber = ([], attr.ulClassNumber) := if_neg (by omega)
    have none' : Attr.digit (128 * 128) attr.ulClassNumber = ([], attr.ulClassNumber) := if_neg (by omega)
    rw [if_neg low, if_neg low, none, if_neg (by omega)]
    dsimp only
    rw [none', if_neg (by omega)]
    dsimp only
    by_cases two : attr.ulClassNumber ≥ 128
    · obtain ⟨-, continued, high⟩ := digit_octets ⟨attr.ulClassNumber / 128, by omega⟩
      obtain ⟨⟨ended, number⟩, -⟩ := digit_octets ⟨attr.ulClassNumber % 128, by omega⟩
      have more : ∀ value ∈ [UInt8.ofNat (attr.ulClassNumber / 128) ||| 0x80], value &&& 0x80 ≠ 0 := by
        simpa using continued
      rw [Attr.digit, if_pos two, if_pos two]
      refine ⟨.long _ [_] _ long more ended (by simp), rfl, fun rest => ?_⟩
      have parsed := attrParsingData_long long more ended rest
      rw [form] at parsed
      simp only [List.cons_append, List.nil_append, List.foldl_cons, List.foldl_nil, high, number] at parsed
      rw [show (0 * 128 + attr.ulClassNumber / 128) * 128 + attr.ulClassNumber % 128 = attr.ulClassNumber by
        omega] at parsed
      exact parsed
    · obtain ⟨⟨ended, number⟩, -⟩ := digit_octets ⟨attr.ulClassNumber, by omega⟩
      rw [Attr.digit, if_neg two, if_neg two]
      refine ⟨.long _ [] _ long (by simp) ended (by simp), rfl, fun rest => ?_⟩
      have parsed := attrParsingData_long long (List.forall_mem_nil _) ended rest
      rw [form] at parsed
      simp only [List.nil_append, List.foldl_cons, List.foldl_nil, number, Nat.zero_mul, Nat.zero_add] at parsed
      exact parsed

end TagFields

section AttributeLists

variable {attr : Attr} {rest attrs : List Attr} {v : Nat}

def content (attrs : List Attr) (v : Nat) : Nat := (sizeLoop 4 attrs v 1).1

def total (attrs : List Attr) (v : Nat) : Nat :=
  content attrs v + getSizeOfEncodedLength 4 (content attrs v) + (sizeLoop 4 attrs v 1).2

theorem sizeLoop_empty (empty : attr.formType = .emptyForm) : sizeLoop 4 (attr :: rest) v 1 = sizeLoop 4 rest v 1 := by
  rw [sizeLoop, List.foldr_cons, sizeStep, if_pos empty]
  rfl

theorem getSizeOfEncodedTag_pos (some : attr.formType ≠ .emptyForm) : 0 < attr.getSizeOfEncodedTag := by
  rw [Attr.getSizeOfEncodedTag, if_neg some]
  split_ifs <;> omega

theorem tagSize_pos (attrs : List Attr) (v : Nat) : 0 < (sizeLoop 4 attrs v 1).2 := by
  induction attrs with
  | nil => exact Nat.one_pos
  | cons attr rest ih =>
    by_cases empty : attr.formType = .emptyForm
    · rw [sizeLoop_empty empty]
      exact ih
    · rw [sizeLoop, List.foldr_cons, sizeStep, if_neg empty]
      exact getSizeOfEncodedTag_pos empty

theorem sizeLoop_cons (some : attr.formType ≠ .emptyForm) :
    sizeLoop 4 (attr :: rest) v 1 =
      (if attr.bImplicit then content rest v else total rest v, attr.getSizeOfEncodedTag) := by
  have positive := tagSize_pos rest v
  have unfolded : sizeLoop 4 (attr :: rest) v 1 =
      (if !attr.bImplicit && (sizeLoop 4 rest v 1).2 > 0 then total rest v else content rest v,
        attr.getSizeOfEncodedTag) := by
    rw [sizeLoop, List.foldr_cons, sizeStep, if_neg some]
    rfl
  rw [unfolded]
  cases attr.bImplicit <;> simp [positive]

theorem content_le_total (attrs : List Attr) (v : Nat) : content attrs v ≤ total attrs v := by
  rw [total]
  omega

def emitted : Bool → List Attr → List Attr
  | _, [] => []
  | bTag, attr :: rest =>
    if attr.formType = .emptyForm then emitted bTag rest
    else if bTag then attr :: emitted (!attr.bImplicit) rest
    else emitted (!attr.bImplicit) rest

def header (v : Nat) : List Attr → Bool → List UInt8 × Bool
  | [], bTag => ([], bTag)
  | attr :: rest, bTag =>
    if attr.formType = .emptyForm then header v rest bTag
    else
      let later := header v rest (!attr.bImplicit)
      if bTag then (attr.encodingData false ++ (encodeLength 4 (content (attr :: rest) v) ++ later.1), later.2)
      else later

def left (bTag : Bool) (attrs : List Attr) (v : Nat) : Nat := if bTag then total attrs v else content attrs v

theorem content_cons (some : attr.formType ≠ .emptyForm) :
    content (attr :: rest) v = left (!attr.bImplicit) rest v := by
  rw [content, sizeLoop_cons some, left]
  cases attr.bImplicit <;> rfl

theorem left_empty (empty : attr.formType = .emptyForm) (bTag : Bool) :
    left bTag (attr :: rest) v = left bTag rest v := by
  simp only [left, total, content, sizeLoop_empty empty]

theorem total_cons (some : attr.formType ≠ .emptyForm) :
    total (attr :: rest) v =
      left (!attr.bImplicit) rest v + getSizeOfEncodedLength 4 (left (!attr.bImplicit) rest v) +
        attr.getSizeOfEncodedTag := by
  rw [total, content_cons some, sizeLoop_cons some]

theorem content_le_left (bTag : Bool) (attrs : List Attr) (v : Nat) : content attrs v ≤ left bTag attrs v := by
  cases bTag
  · exact Nat.le_refl _
  · exact content_le_total attrs v

theorem content_le_cons (attr : Attr) (rest : List Attr) (v : Nat) : content rest v ≤ content (attr :: rest) v := by
  by_cases empty : attr.formType = .emptyForm
  · exact Nat.le_of_eq (by rw [content, content, sizeLoop_empty empty])
  · rw [content_cons empty]
    exact content_le_left _ rest v

theorem value_le_content (attrs : List Attr) (v : Nat) : v ≤ content attrs v := by
  induction attrs with
  | nil => exact Nat.le_refl v
  | cons attr rest ih => exact Nat.le_trans ih (content_le_cons attr rest v)

theorem getSizeOfEncodedTag_le (attr : Attr) : attr.getSizeOfEncodedTag ≤ 5 := by
  rw [Attr.getSizeOfEncodedTag]
  split_ifs <;> omega

theorem getSizeOfEncodedLength_le {ulLength : Nat} (small : ulLength ≤ 0xFFFF) :
    getSizeOfEncodedLength 4 ulLength ≤ 3 := by
  rw [getSizeOfEncodedLength_eq (by omega)]
  split_ifs <;> omega

theorem encodeLoop_eq (bTag : Bool) (small : content attrs v ≤ 0xFFFF) :
    encodeLoop 4 false attrs bTag (left bTag attrs v) =
      .ok ((header v attrs bTag).1, (header v attrs bTag).2, left (header v attrs bTag).2 [] v) := by
  induction attrs generalizing bTag with
  | nil => rfl
  | cons attr rest ih =>
    have restSmall : content rest v ≤ 0xFFFF := Nat.le_trans (content_le_cons attr rest v) small
    rw [encodeLoop, header]
    by_cases empty : attr.formType = .emptyForm
    · rw [if_pos empty, if_pos empty, left_empty empty]
      exact ih bTag restSmall
    rw [if_neg empty, if_neg empty]
    cases bTag with
    | false =>
      simp only [Bool.not_false, if_true, Bool.false_eq_true, if_false]
      have same : left false (attr :: rest) v = left (!attr.bImplicit) rest v := content_cons empty
      rw [same]
      exact ih _ restSmall
    | true =>
      have inner : left (!attr.bImplicit) rest v ≤ 0xFFFF := by
        rw [← content_cons empty]
        exact small
      have whole : left true (attr :: rest) v = left (!attr.bImplicit) rest v +
          getSizeOfEncodedLength 4 (left (!attr.bImplicit) rest v) + attr.getSizeOfEncodedTag := total_cons empty
      have lengthSize := getSizeOfEncodedLength_le inner
      have tagSize := getSizeOfEncodedTag_le attr
      simp only [Bool.not_true, Bool.false_eq_true, if_false, if_true, whole]
      rw [ulongSub_eq 4 (by omega), Nat.add_sub_cancel, getPureEncodedLength_eq inner]
      dsimp only
      rw [ih _ restSmall, content_cons empty]
      simp only [ok_bind, List.append_assoc]

theorem length_header_sized (bTag : Bool) (small : content attrs v ≤ 0xFFFF)
    (sized : ∀ attr ∈ emitted bTag attrs, (attr.encodingData false).length = attr.getSizeOfEncodedTag) :
    (header v attrs bTag).1.length + left (header v attrs bTag).2 [] v = left bTag attrs v := by
  induction attrs generalizing bTag with
  | nil => exact Nat.zero_add _
  | cons attr rest ih =>
    have restSmall : content rest v ≤ 0xFFFF := Nat.le_trans (content_le_cons attr rest v) small
    rw [header]
    rw [emitted] at sized
    by_cases empty : attr.formType = .emptyForm
    · rw [if_pos empty] at sized
      rw [if_pos empty, left_empty empty]
      exact ih bTag restSmall sized
    rw [if_neg empty] at sized
    rw [if_neg empty]
    cases bTag with
    | false =>
      rw [if_neg Bool.false_ne_true] at sized
      have same : left false (attr :: rest) v = left (!attr.bImplicit) rest v := content_cons empty
      rw [same]
      exact ih _ restSmall sized
    | true =>
      rw [if_pos rfl] at sized
      obtain ⟨tagSize, others⟩ := List.forall_mem_cons.mp sized
      have inner : content (attr :: rest) v = left (!attr.bImplicit) rest v := content_cons empty
      have whole : left true (attr :: rest) v = left (!attr.bImplicit) rest v +
          getSizeOfEncodedLength 4 (left (!attr.bImplicit) rest v) + attr.getSizeOfEncodedTag := total_cons empty
      have later := ih _ restSmall others
      simp only [if_true, List.length_append, tagSize, length_encodeLength small, whole]
      rw [inner] at small ⊢
      omega

theorem length_header (bTag : Bool) (small : content attrs v ≤ 0xFFFF)
    (readable : ∀ attr ∈ emitted bTag attrs, attr.Readable) :
    (header v attrs bTag).1.length + left (header v attrs bTag).2 [] v = left bTag attrs v :=
  length_header_sized bTag small fun attr member => (attr_octets (readable attr member)).2.1

theorem decodeLoop_tag (rest : List Attr) (readable : attr.Readable) {ulLength : Nat} (small : ulLength ≤ 0xFFFF)
    (behind : List UInt8) (uleftSize : Nat) :
    decodeLoop 4 (attr :: rest) ⟨attr.encodingData false ++ (encodeLength 4 ulLength ++ behind), true, uleftSize, 0⟩ =
      (let size := attr.getSizeOfEncodedTag + getSizeOfEncodedLength 4 ulLength
      if uleftSize = 0 then decodeLoop 4 rest ⟨behind, !attr.bImplicit, ulLength, 0⟩
      else if ulongSub 4 uleftSize size ≠ ulLength then .error .invalidEncodeLength
      else decodeLoop 4 rest ⟨behind, !attr.bImplicit, ulongSub 4 uleftSize size, 0⟩) := by
  obtain ⟨isTag, tagSize, parsed⟩ := attr_octets readable
  have dropped : (attr.encodingData false ++ (encodeLength 4 ulLength ++ behind)).drop
      (attr.getSizeOfEncodedTag + getSizeOfEncodedLength 4 ulLength) = behind := by
    rw [← List.append_assoc]
    exact List.drop_left' (by rw [List.length_append, tagSize, length_encodeLength small])
  rw [decodeLoop, if_neg readable.some, if_neg (by simp), tagInfoParsingData_eq isTag small, ok_bind, parsed, ok_bind]
  dsimp only
  rw [if_neg (by simp), tagSize, dropped, if_neg Bool.false_ne_true]

theorem decodeLoop_eq (bTag : Bool) (small : content attrs v ≤ 0xFFFF) (positive : 0 < v)
    (readable : ∀ attr ∈ emitted bTag attrs, attr.Readable) {uleftSize : Nat}
    (known : uleftSize = left bTag attrs v ∨ (bTag = true ∧ uleftSize = 0)) (behind : List UInt8) :
    ∃ uleftSize', decodeLoop 4 attrs ⟨(header v attrs bTag).1 ++ behind, bTag, uleftSize, 0⟩ =
        .ok ⟨behind, (header v attrs bTag).2, uleftSize', 0⟩ ∧
      ((header v attrs bTag).2 = false → uleftSize' = v) := by
  induction attrs generalizing bTag uleftSize with
  | nil =>
    refine ⟨uleftSize, rfl, fun none => ?_⟩
    obtain rfl : bTag = false := none
    obtain same | ⟨wrong, -⟩ := known
    · exact same
    · cases wrong
  | cons attr rest ih =>
    have restSmall : content rest v ≤ 0xFFFF := Nat.le_trans (content_le_cons attr rest v) small
    rw [decodeLoop, header]
    rw [emitted] at readable
    by_cases empty : attr.formType = .emptyForm
    · rw [if_pos empty] at readable
      rw [if_pos empty, if_pos empty]
      rw [left_empty empty] at known
      exact ih bTag restSmall readable known
    rw [if_neg empty] at readable
    rw [if_neg empty, if_neg empty]
    cases bTag with
    | false =>
      rw [if_neg Bool.false_ne_true] at readable
      have same : left false (attr :: rest) v = left (!attr.bImplicit) rest v := content_cons empty
      obtain rfl | ⟨wrong, -⟩ := known
      · exact ih _ restSmall readable (.inl same)
      · cases wrong
    | true =>
      rw [if_pos rfl] at readable
      have inner : content (attr :: rest) v = left (!attr.bImplicit) rest v := content_cons empty
      have later := ih (!attr.bImplicit) restSmall
        (fun other member => readable other (List.mem_cons_of_mem attr member)) (.inl rfl)
      have whole : left true (attr :: rest) v = left (!attr.bImplicit) rest v +
          getSizeOfEncodedLength 4 (left (!attr.bImplicit) rest v) + attr.getSizeOfEncodedTag := total_cons empty
      have step := decodeLoop_tag rest (readable attr (List.mem_cons_self ..)) small
        ((header v rest (!attr.bImplicit)).1 ++ behind) uleftSize
      rw [decodeLoop, if_neg empty] at step
      simp only [if_true, List.append_assoc]
      rw [step, inner]
      obtain rfl | ⟨-, rfl⟩ := known
      · have nonzero : left true (attr :: rest) v ≠ 0 := by
          have := value_le_content (attr :: rest) v
          have := content_le_left true (attr :: rest) v
          omega
        have same : ulongSub 4 (left true (attr :: rest) v)
            (attr.getSizeOfEncodedTag + getSizeOfEncodedLength 4 (left (!attr.bImplicit) rest v)) =
              left (!attr.bImplicit) rest v := by
          rw [whole, ulongSub_eq 4 (by omega)]
          omega
        rw [if_neg nonzero, if_neg (by simpa using same), same]
        exact later
      · rw [if_pos rfl]
        exact later

end AttributeLists

section Values

def signed (bits value : Nat) : Int :=
  if value % 2 ^ bits < 2 ^ (bits - 1) then (value % 2 ^ bits : Nat) else (value % 2 ^ bits : Nat) - 2 ^ bits

theorem signed_small {bits value : Nat} (positive : 0 < bits) (small : value < 2 ^ (bits - 1)) :
    signed bits value = value := by
  have wider : 2 ^ (bits - 1) ≤ 2 ^ bits := Nat.pow_le_pow_right (by decide) (by omega)
  have same : value % 2 ^ bits = value := Nat.mod_eq_of_lt (by omega)
  rw [signed, same, if_pos small]

def long (value : Nat) : Int :=
  if value % 0x100000000 < 0x80000000 then (value % 0x100000000 : Nat) else (value % 0x100000000 : Nat) - 0x100000000

theorem long_small {value : Nat} (small : value < 0x80000000) : long value = value := by
  have same : value % 0x100000000 = value := Nat.mod_eq_of_lt (by omega)
  rw [long, same, if_pos small]

structure Encoded where
  written : List UInt8
  advance : Nat

def encodeFront (attrs : List Attr) (first : UInt8) (uSizeOfEncoded : Int) (uLength : Nat) :
    Except Asn1Error (List UInt8) :=
  if uSizeOfEncoded < 0 then .error .notReadyToEncode
  else do
    let (written, bTagIncluded, _) ← attrListEncodingData 4 attrs uSizeOfEncoded.toNat false
    .ok (written ++ if bTagIncluded then first :: encodeLength 4 uLength else [])

def infiniteLoop (data : List UInt8) (uMaxLength : Nat) : Nat → Nat → Except Asn1Error (Option Nat)
  | 0, _ => .ok none
  | fuel + 1, index =>
    if index < uMaxLength then do
      let here ← octet data index
      let next ← octet data (index + 1)
      if here = 0 ∧ next = 0 then .ok (some index)
      else infiniteLoop data uMaxLength fuel (if next = 0 then index + 1 else index + 2)
    else .ok none

def lookingForInfiniteEnd (data : List UInt8) (uMaxLength : Nat) : Except Asn1Error (Option Nat) :=
  if uMaxLength < 2 then .ok none else infiniteLoop data uMaxLength uMaxLength 0

def infiniteEnds : Nat → List UInt8 → Except Asn1Error (List UInt8)
  | 0, data => .ok data
  | uInfiniteTags + 1, data => do
    let first ← octet data 0
    if first ≠ 0 then .error .infiniteEndMissed
    else
      let second ← octet data 1
      if second ≠ 0 then .error .infiniteEndMissed else infiniteEnds uInfiniteTags (data.drop 2)

namespace Decoding

def inside (state : Decoding) (info : TagInfo) : Decoding :=
  { state with
    pEncodingUnit := state.pEncodingUnit.drop (1 + info.ulSizeOfLength)
    uleftSize := if info.bIsInfinite then 0 else info.ulContentLength
    uInfinite := if info.bIsInfinite then state.uInfinite + 1 else state.uInfinite }

def valueLength (state : Decoding) : Except Asn1Error Nat :=
  if state.uleftSize = 0 then do
    match ← lookingForInfiniteEnd state.pEncodingUnit 4096 with
    | some uValueLength => .ok uValueLength
    | none => .error .infiniteEndMissed
  else .ok state.uleftSize

theorem valueLength_eq {state : Decoding} (some : state.uleftSize ≠ 0) : state.valueLength = .ok state.uleftSize :=
  if_neg some

end Decoding

variable {attrs : List Attr} {v : Nat}

def front (attrs : List Attr) (first : UInt8) (v : Nat) : List UInt8 :=
  (header v (shown attrs) true).1 ++ if (header v (shown attrs) true).2 then first :: encodeLength 4 v else []

structure Tagged (attrs : List Attr) (v : Nat) : Prop where
  readable : ∀ attr ∈ emitted true (shown attrs), attr.Readable
  fits : content (shown attrs) v ≤ 0xFFFF

theorem attrListGetSizeOfEncoded_eq (attrs : List Attr) (v : Nat) :
    attrListGetSizeOfEncoded 4 attrs v 1 = total (shown attrs) v := by
  rw [attrListGetSizeOfEncoded]
  exact if_pos (tagSize_pos (shown attrs) v)

theorem tagSize_le (attrs : List Attr) (v : Nat) : (sizeLoop 4 attrs v 1).2 ≤ 5 := by
  induction attrs with
  | nil => exact Nat.le_of_ble_eq_true rfl
  | cons attr rest ih =>
    by_cases empty : attr.formType = .emptyForm
    · rw [sizeLoop_empty empty]
      exact ih
    · rw [sizeLoop_cons empty]
      exact getSizeOfEncodedTag_le attr

theorem long_total (fits : content (shown attrs) v ≤ 0xFFFF) :
    long (attrListGetSizeOfEncoded 4 attrs v 1) = total (shown attrs) v := by
  have lengthSize := getSizeOfEncodedLength_le fits
  have tagSize := tagSize_le (shown attrs) v
  rw [attrListGetSizeOfEncoded_eq]
  apply long_small
  rw [total]
  omega

theorem encodeFront_eq (first : UInt8) (fits : content (shown attrs) v ≤ 0xFFFF) :
    encodeFront attrs first (long (attrListGetSizeOfEncoded 4 attrs v 1)) v = .ok (front attrs first v) := by
  have loop := encodeLoop_eq true fits
  rw [long_total fits, encodeFront, if_neg (by omega), Int.toNat_natCast, attrListEncodingData]
  change (encodeLoop 4 false (shown attrs) true (left true (shown attrs) v) >>= _) = _
  rw [loop]
  rfl

theorem length_front (first : UInt8) (tagged : Tagged attrs v) :
    (front attrs first v).length + v = attrListGetSizeOfEncoded 4 attrs v 1 := by
  have outer := length_header true tagged.fits tagged.readable
  have inner := length_encodeLength (Nat.le_trans (value_le_content (shown attrs) v) tagged.fits)
  rw [attrListGetSizeOfEncoded_eq, front, List.length_append]
  change _ = left true (shown attrs) v
  rw [← outer]
  cases (header v (shown attrs) true).2 with
  | false => rfl
  | true =>
    have own : left true [] v = v + getSizeOfEncodedLength 4 v + 1 := rfl
    rw [if_pos rfl, List.length_cons, inner, own]
    omega

theorem front_decoded {first : UInt8} (isTag : IsTag [first]) (tagged : Tagged attrs v) (positive : 0 < v)
    (behind : List UInt8) :
    ∃ state, attrListDecodingData 4 attrs (front attrs first v ++ behind) = .ok state ∧ state.uInfinite = 0 ∧
      if state.bTag then
        tagInfoParsingData 4 state.pEncodingUnit = .ok ⟨1, first, false, getSizeOfEncodedLength 4 v, v⟩ ∧
          state.pEncodingUnit.drop (1 + getSizeOfEncodedLength 4 v) = behind
      else state.pEncodingUnit = behind ∧ state.uleftSize = v := by
  have small := Nat.le_trans (value_le_content (shown attrs) v) tagged.fits
  obtain ⟨uleftSize, decoded, known⟩ := decodeLoop_eq true tagged.fits positive tagged.readable (.inr ⟨rfl, rfl⟩)
    ((if (header v (shown attrs) true).2 then first :: encodeLength 4 v else []) ++ behind)
  rw [← List.append_assoc] at decoded
  refine ⟨_, decoded, rfl, ?_⟩
  dsimp only
  generalize (header v (shown attrs) true).2 = bTag at known
  cases bTag with
  | false => exact ⟨rfl, known rfl⟩
  | true =>
    have length : (first :: encodeLength 4 v).length = 1 + getSizeOfEncodedLength 4 v := by
      rw [List.length_cons, length_encodeLength small, Nat.add_comm]
    exact ⟨tagInfoParsingData_eq isTag small behind, List.drop_left' length⟩

end Values

end CcspCommon.AnscAsn1
