import CcspCommon.AnscAsn1.Tags

set_option autoImplicit false

namespace CcspCommon.AnscAsn1

section Object

-- `ANSC_ASN1_INTEGER`, with a `ULONG` of four bytes.
structure Integer where
  attrs : List Attr
  bOptional : Bool
  bIsDynamic : Bool
  bFirstZero : Bool
  lValue : Int
  uLength : Nat
  pValueBuffer : List UInt8

def ulong (value : Int) : Nat := (value % 0x100000000).toNat

def getIntegerValueFromBuffer (data : List UInt8) (ulLength : Nat) : Except Asn1Error Int :=
  if ulLength = 0 then .ok 0
  else do
    let first ← octet data 0
    if first < 0x80 then
      let value ← getLengthFromBuffer 4 data ulLength
      .ok (long value)
    else if ulLength > 4 ∨ data.length < ulLength then .error .fault
    else
      let buffer := List.replicate (4 - ulLength) 0xFF ++ data.take ulLength
      let uValue := (buffer.getD 3 0).toNat + (buffer.getD 2 0).toNat * 0x100 + (buffer.getD 1 0).toNat * 0x10000 +
        (buffer.getD 0 0).toNat * 0x1000000
      -- The product with -1 is one of the type `LONG` again.
      .ok (long (ulong (-long (0xFFFFFFFF - uValue + 1))))

namespace Integer

def digits : Nat → Nat → Nat → Nat × Nat
  | 0, _, uLast => (0, uLast)
  | fuel + 1, uTemp, uLast =>
    if uTemp > 0 then
      let (ulSize, uLast) := digits fuel (uTemp / 256) uTemp
      (ulSize + 1, uLast)
    else (0, uLast)

def setUlongValue (object : Integer) (uValue : Nat) : Integer :=
  let (ulSize, uLast) := if uValue ≤ 0xFF then (1, uValue) else digits 4 uValue uValue
  let bFirstZero := decide (uLast ≥ 0x80)
  { object with
    pValueBuffer := [], lValue := long uValue, bIsDynamic := false, bFirstZero := bFirstZero,
    uLength := if bFirstZero then ulSize + 1 else ulSize, bOptional := false }

def negativeSize : Nat → List UInt8 → Nat
  | ulSize + 2, here :: next :: rest =>
    if here = 0xFF ∧ next ≥ 0x80 then negativeSize (ulSize + 1) (next :: rest) else ulSize + 2
  | ulSize, _ => ulSize

def setIntegerValue (object : Integer) (lValue : Int) : Integer :=
  if lValue ≥ 0 then object.setUlongValue (ulong lValue)
  else
    { object with
      pValueBuffer := [], lValue := lValue, bIsDynamic := false, bFirstZero := false,
      uLength := negativeSize 4 (ulongOctets 4 (ulong lValue)), bOptional := false }

def getSizeOfEncoded (object : Integer) : Int :=
  if object.bOptional then 0 else long (attrListGetSizeOfEncoded 4 object.attrs object.uLength 1)

def encodeValue (object : Integer) : Except Asn1Error Encoded :=
  let ulResult := ulong object.lValue
  if object.bIsDynamic then
    if object.pValueBuffer.length < object.uLength then .error .fault
    else .ok ⟨object.pValueBuffer.take object.uLength, object.uLength⟩
  else if object.lValue ≥ 0 then
    let written := (if object.bFirstZero then [0x00] else []) ++
      if ulResult ≤ 0xFF then [UInt8.ofNat ulResult] else asn1WriteUlong 4 ulResult
    .ok ⟨written, written.length⟩
  else
    let pTmp := ulongOctets 4 ulResult ++ [0]
    if object.bFirstZero then
      -- All `uLength` octets are copied behind the zero, but the pointer moves over one less.
      if object.uLength > 5 then .error .fault
      else .ok ⟨0x00 :: (pTmp.drop (5 - object.uLength)).take object.uLength, 1 + ulongSub 4 object.uLength 1⟩
    else if object.uLength > 4 then .error .fault
    else .ok ⟨(pTmp.drop (4 - object.uLength)).take object.uLength, object.uLength⟩

def encodingData (object : Integer) : Except Asn1Error Encoded :=
  if object.bOptional then .ok ⟨[], 0⟩
  else do
    let written ← encodeFront object.attrs 0x02 object.getSizeOfEncoded object.uLength
    let value ← object.encodeValue
    .ok ⟨written ++ value.written, written.length + value.advance⟩

def ownTag (state : Decoding) : Except Asn1Error Decoding :=
  if state.bTag then do
    let info ← tagInfoParsingData 4 state.pEncodingUnit
    if info.firstOctetOfTag ≠ 0x02 ∨ info.ulSizeOfTag ≠ 1 then .error .unexpectedTag
    else if info.ulContentLength = 0 then .error .unacceptableValueSize
    else .ok (state.inside info)
  else .ok state

def withValue (object : Integer) (data : List UInt8) (uValueLength : Nat) : Except Asn1Error Integer := do
  let octets := data.take uValueLength
  let object := { object with
    bIsDynamic := true, uLength := uValueLength, pValueBuffer := octets, bOptional := false }
  if uValueLength ≤ 5 then
    let first ← octet data 0
    if uValueLength ≤ 4 ∨ first = 0x00 then
      let lValue ← getIntegerValueFromBuffer octets uValueLength
      .ok { object with lValue := lValue, bFirstZero := decide (first = 0x00 ∧ uValueLength > 1) }
    else .ok object
  else .ok object

def decodingData (object : Integer) (data : List UInt8) : Except Asn1Error (Integer × List UInt8) := do
  let state ← attrListDecodingData 4 object.attrs data
  let state ← ownTag state
  let uValueLength ← state.valueLength
  if uValueLength > 2000 then .error .unacceptableValueSize
  else if state.pEncodingUnit.length < uValueLength then .error .fault
  else
    let decoded ← object.withValue state.pEncodingUnit uValueLength
    let rest ← infiniteEnds state.uInfinite (state.pEncodingUnit.drop uValueLength)
    .ok (decoded, rest)

end Integer

end Object

section TwosComplement

def twosComplement (size : Nat) (value : Int) : List UInt8 :=
  (List.range size).map fun i => UInt8.ofNat (value / 256 ^ (size - 1 - i) % 256).toNat

def derSize (value : Int) : Nat :=
  if -0x80 ≤ value ∧ value < 0x80 then 1
  else if -0x8000 ≤ value ∧ value < 0x8000 then 2
  else if -0x800000 ≤ value ∧ value < 0x800000 then 3
  else 4

def derOctets (value : Int) : List UInt8 := twosComplement (derSize value) value

def digitAt (value : Int) (index : Nat) : Nat := (value / 256 ^ index % 256).toNat

theorem digitAt_lt (value : Int) (index : Nat) : digitAt value index < 256 := by
  have := Int.emod_lt_of_pos (value / 256 ^ index) (show (0 : Int) < 256 by decide)
  have := Int.emod_nonneg (value / 256 ^ index) (show (256 : Int) ≠ 0 by decide)
  rw [digitAt]
  omega

theorem digitAt_cast (value : Int) (index : Nat) : (digitAt value index : Int) = value / 256 ^ index % 256 :=
  Int.toNat_of_nonneg (Int.emod_nonneg _ (by decide))

theorem digits_eq (value : Int) :
    (digitAt value 0 : Int) = value % 256 ∧ (digitAt value 1 : Int) = value / 256 % 256 ∧
      (digitAt value 2 : Int) = value / 65536 % 256 ∧ (digitAt value 3 : Int) = value / 16777216 % 256 := by
  refine ⟨?_, digitAt_cast value 1, digitAt_cast value 2, digitAt_cast value 3⟩
  rw [digitAt_cast, Int.pow_zero, Int.ediv_one]

theorem twosComplement_four (value : Int) :
    twosComplement 4 value =
      [UInt8.ofNat (digitAt value 3), UInt8.ofNat (digitAt value 2), UInt8.ofNat (digitAt value 1),
        UInt8.ofNat (digitAt value 0)] := rfl

theorem octet_congr {a b : Nat} (same : a % 256 = b % 256) : UInt8.ofNat a = UInt8.ofNat b := by
  apply UInt8.toNat_inj.mp
  simpa using same

theorem ulongOctets_ulong (value : Int) : ulongOctets 4 (ulong value) = twosComplement 4 value := by
  obtain ⟨zero, one, two, three⟩ := digits_eq value
  have octets : ulongOctets 4 (ulong value) =
      [UInt8.ofNat (ulong value / 16777216), UInt8.ofNat (ulong value / 65536), UInt8.ofNat (ulong value / 256),
        UInt8.ofNat (ulong value / 1)] := rfl
  rw [octets, twosComplement_four]
  congr 1
  · exact octet_congr (by rw [ulong]; omega)
  congr 1
  · exact octet_congr (by rw [ulong]; omega)
  congr 1
  · exact octet_congr (by rw [ulong]; omega)
  congr 1
  exact octet_congr (by rw [ulong]; omega)

theorem derOctets_cases (value : Int) :
    (-0x80 ≤ value ∧ value < 0x80 ∧ derOctets value = [UInt8.ofNat (digitAt value 0)]) ∨
    (¬ (-0x80 ≤ value ∧ value < 0x80) ∧ -0x8000 ≤ value ∧ value < 0x8000 ∧
      derOctets value = [UInt8.ofNat (digitAt value 1), UInt8.ofNat (digitAt value 0)]) ∨
    (¬ (-0x8000 ≤ value ∧ value < 0x8000) ∧ -0x800000 ≤ value ∧ value < 0x800000 ∧
      derOctets value =
        [UInt8.ofNat (digitAt value 2), UInt8.ofNat (digitAt value 1), UInt8.ofNat (digitAt value 0)]) ∨
    (¬ (-0x800000 ≤ value ∧ value < 0x800000) ∧
      derOctets value =
        [UInt8.ofNat (digitAt value 3), UInt8.ofNat (digitAt value 2), UInt8.ofNat (digitAt value 1),
          UInt8.ofNat (digitAt value 0)]) := by
  by_cases one : -0x80 ≤ value ∧ value < 0x80
  · refine .inl ⟨one.1, one.2, ?_⟩
    rw [derOctets, derSize, if_pos one]
    rfl
  by_cases two : -0x8000 ≤ value ∧ value < 0x8000
  · refine .inr (.inl ⟨one, two.1, two.2, ?_⟩)
    rw [derOctets, derSize, if_neg one, if_pos two]
    rfl
  by_cases three : -0x800000 ≤ value ∧ value < 0x800000
  · refine .inr (.inr (.inl ⟨two, three.1, three.2, ?_⟩))
    rw [derOctets, derSize, if_neg one, if_neg two, if_pos three]
    rfl
  · refine .inr (.inr (.inr ⟨three, ?_⟩))
    rw [derOctets, derSize, if_neg one, if_neg two, if_neg three]
    rfl

theorem length_derOctets (value : Int) : (derOctets value).length = derSize value := by
  rw [derOctets, twosComplement, List.length_map, List.length_range]

theorem octet_lt {n : Nat} (small : n < 256) (bound : UInt8) : UInt8.ofNat n < bound ↔ n < bound.toNat := by
  rw [UInt8.lt_iff_toNat_lt, toNat_octet small]

theorem octet_eq {n : Nat} (small : n < 256) (other : UInt8) : UInt8.ofNat n = other ↔ n = other.toNat := by
  rw [← UInt8.toNat_inj, toNat_octet small]

theorem negativeSize_eq {value : Int} (negative : value < 0) (bounded : -0x80000000 ≤ value) :
    Integer.negativeSize 4 (twosComplement 4 value) = derSize value := by
  obtain ⟨zero, one, two, three⟩ := digits_eq value
  have top : UInt8.ofNat (digitAt value 3) = 0xFF ∧ UInt8.ofNat (digitAt value 2) ≥ 0x80 ↔ -0x800000 ≤ value := by
    rw [octet_eq (digitAt_lt value 3), ge_iff_le, ← UInt8.not_lt, octet_lt (digitAt_lt value 2)]
    change digitAt value 3 = 255 ∧ ¬ digitAt value 2 < 128 ↔ _
    omega
  have middle (short : -0x800000 ≤ value) :
      UInt8.ofNat (digitAt value 2) = 0xFF ∧ UInt8.ofNat (digitAt value 1) ≥ 0x80 ↔ -0x8000 ≤ value := by
    rw [octet_eq (digitAt_lt value 2), ge_iff_le, ← UInt8.not_lt, octet_lt (digitAt_lt value 1)]
    change digitAt value 2 = 255 ∧ ¬ digitAt value 1 < 128 ↔ _
    omega
  have low (short : -0x8000 ≤ value) :
      UInt8.ofNat (digitAt value 1) = 0xFF ∧ UInt8.ofNat (digitAt value 0) ≥ 0x80 ↔ -0x80 ≤ value := by
    rw [octet_eq (digitAt_lt value 1), ge_iff_le, ← UInt8.not_lt, octet_lt (digitAt_lt value 0)]
    change digitAt value 1 = 255 ∧ ¬ digitAt value 0 < 128 ↔ _
    omega
  rw [twosComplement_four, Integer.negativeSize, derSize]
  by_cases three : -0x800000 ≤ value
  · rw [if_pos (top.mpr three), Integer.negativeSize]
    by_cases two : -0x8000 ≤ value
    · rw [if_pos ((middle three).mpr two), Integer.negativeSize]
      by_cases one : -0x80 ≤ value
      · rw [if_pos ((low two).mpr one), if_pos (by omega)]
        rfl
      · rw [if_neg (mt (low two).mp one), if_neg (by omega), if_pos (by omega)]
    · rw [if_neg (mt (middle three).mp two), if_neg (by omega), if_neg (by omega), if_pos (by omega)]
  · rw [if_neg (mt top.mp three), if_neg (by omega), if_neg (by omega), if_neg (by omega)]

end TwosComplement

section StaticValues

variable (object : Integer)

theorem ulong_natCast {uValue : Nat} (small : uValue < 0x100000000) : ulong uValue = uValue := by
  rw [ulong]
  omega

theorem ulong_lt (value : Int) : ulong value < 0x100000000 := by
  rw [ulong]
  omega

def ulongDigits (uValue : Nat) : Nat × Nat := if uValue ≤ 0xFF then (1, uValue) else Integer.digits 4 uValue uValue

theorem ulongDigits_cases {uValue : Nat} (small : uValue < 0x100000000) :
    (uValue ≤ 0xFF ∧ ulongDigits uValue = (1, uValue)) ∨
    (0xFF < uValue ∧ uValue ≤ 0xFFFF ∧ ulongDigits uValue = (2, uValue / 256)) ∨
    (0xFFFF < uValue ∧ uValue ≤ 0xFFFFFF ∧ ulongDigits uValue = (3, uValue / 256 / 256)) ∨
    (0xFFFFFF < uValue ∧ ulongDigits uValue = (4, uValue / 256 / 256 / 256)) := by
  by_cases one : uValue ≤ 0xFF
  · exact .inl ⟨one, if_pos one⟩
  rw [ulongDigits, if_neg one]
  simp only [Integer.digits]
  rw [if_pos (show uValue > 0 by omega), if_pos (show uValue / 256 > 0 by omega)]
  by_cases two : uValue ≤ 0xFFFF
  · rw [if_neg (show ¬ uValue / 256 / 256 > 0 by omega)]
    exact .inr (.inl ⟨by omega, two, rfl⟩)
  rw [if_pos (show uValue / 256 / 256 > 0 by omega)]
  by_cases three : uValue ≤ 0xFFFFFF
  · rw [if_neg (show ¬ uValue / 256 / 256 / 256 > 0 by omega)]
    exact .inr (.inr (.inl ⟨by omega, three, rfl⟩))
  · rw [if_pos (show uValue / 256 / 256 / 256 > 0 by omega)]
    exact .inr (.inr (.inr ⟨by omega, rfl⟩))

def plainOctets (uValue : Nat) : List UInt8 :=
  (if decide ((ulongDigits uValue).2 ≥ 0x80) then [0x00] else []) ++
    if uValue ≤ 0xFF then [UInt8.ofNat uValue] else asn1WriteUlong 4 uValue

theorem octet_digitAt (uValue index : Nat) :
    UInt8.ofNat (digitAt uValue index) = UInt8.ofNat (uValue / 256 ^ index) := by
  have digit : digitAt uValue index = uValue / 256 ^ index % 256 := by
    have cast : (uValue : Int) / 256 ^ index % 256 = (uValue / 256 ^ index % 256 : Nat) := by
      rw [Int.natCast_emod, Int.natCast_ediv, Int.natCast_pow]
      rfl
    rw [digitAt, cast, Int.toNat_natCast]
  rw [digit]
  exact octet_congr (Nat.mod_mod _ 256)

theorem asn1WriteUlong_cases {uValue : Nat} (long : 0xFF < uValue) (small : uValue < 0x100000000) :
    (uValue ≤ 0xFFFF ∧ asn1WriteUlong 4 uValue = [UInt8.ofNat (uValue / 256 ^ 1), UInt8.ofNat (uValue / 256 ^ 0)]) ∨
    (0xFFFF < uValue ∧ uValue ≤ 0xFFFFFF ∧ asn1WriteUlong 4 uValue =
      [UInt8.ofNat (uValue / 256 ^ 2), UInt8.ofNat (uValue / 256 ^ 1), UInt8.ofNat (uValue / 256 ^ 0)]) ∨
    (0xFFFFFF < uValue ∧ asn1WriteUlong 4 uValue =
      [UInt8.ofNat (uValue / 256 ^ 3), UInt8.ofNat (uValue / 256 ^ 2), UInt8.ofNat (uValue / 256 ^ 1),
        UInt8.ofNat (uValue / 256 ^ 0)]) := by
  have octets : ulongOctets 4 uValue =
      [UInt8.ofNat (uValue / 256 ^ 3), UInt8.ofNat (uValue / 256 ^ 2), UInt8.ofNat (uValue / 256 ^ 1),
        UInt8.ofNat (uValue / 256 ^ 0)] := rfl
  rw [asn1WriteUlong, if_neg (by omega), octets]
  by_cases two : uValue ≤ 0xFFFF
  · have three : uValue / 256 ^ 3 = 0 := by omega
    have four : uValue / 256 ^ 2 = 0 := by omega
    have some := ofNat_ne_zero (show 0 < uValue / 256 ^ 1 by omega) (by omega)
    refine .inl ⟨two, ?_⟩
    rw [three, four, List.dropWhile_cons_of_pos (by decide), List.dropWhile_cons_of_pos (by decide),
      List.dropWhile_cons_of_neg (by simpa using some)]
  by_cases three : uValue ≤ 0xFFFFFF
  · have four : uValue / 256 ^ 3 = 0 := by omega
    have some := ofNat_ne_zero (show 0 < uValue / 256 ^ 2 by omega) (by omega)
    refine .inr (.inl ⟨by omega, three, ?_⟩)
    rw [four, List.dropWhile_cons_of_pos (by decide), List.dropWhile_cons_of_neg (by simpa using some)]
  · have some := ofNat_ne_zero (show 0 < uValue / 256 ^ 3 by omega) (by omega)
    refine .inr (.inr ⟨by omega, ?_⟩)
    rw [List.dropWhile_cons_of_neg (by simpa using some)]

theorem signOctet_none {uLast : Nat} (low : uLast < 0x80) :
    (if decide (uLast ≥ 0x80) then [(0x00 : UInt8)] else []) = [] :=
  if_neg (by simpa using low)

theorem signOctet_zero {uLast : Nat} (high : uLast ≥ 0x80) :
    (if decide (uLast ≥ 0x80) then [(0x00 : UInt8)] else []) = [0x00] :=
  if_pos (decide_eq_true high)

theorem plainOctets_eq {uValue : Nat} (small : uValue < 0x80000000) : plainOctets uValue = derOctets uValue := by
  have der := derOctets_cases uValue
  simp only [octet_digitAt] at der
  obtain ⟨one, same⟩ | ⟨long, two, same⟩ | ⟨long, three, same⟩ | ⟨long, same⟩ :=
    ulongDigits_cases (show uValue < 0x100000000 by omega)
  all_goals
    rw [plainOctets, same]
    dsimp only
  · rw [if_pos one]
    obtain ⟨-, short, der⟩ | ⟨long, -, -, der⟩ | ⟨long, -⟩ | ⟨long, -⟩ := der
    · rw [der, signOctet_none (by omega), Nat.pow_zero, Nat.div_one, List.nil_append]
    · rw [der, signOctet_zero (by omega), Nat.pow_zero, Nat.div_one, show uValue / 256 ^ 1 = 0 by omega]
      rfl
    · omega
    · omega
  · have written : asn1WriteUlong 4 uValue = [UInt8.ofNat (uValue / 256 ^ 1), UInt8.ofNat (uValue / 256 ^ 0)] := by
      obtain ⟨-, written⟩ | ⟨high, -⟩ | ⟨high, -⟩ := asn1WriteUlong_cases long (by omega)
      · exact written
      · omega
      · omega
    rw [if_neg (show ¬ uValue ≤ 0xFF by omega), written]
    obtain ⟨-, short, der⟩ | ⟨-, -, short, der⟩ | ⟨top, -, -, der⟩ | ⟨top, -⟩ := der
    · omega
    · rw [der, signOctet_none (by omega), List.nil_append]
    · rw [der, signOctet_zero (by omega), show uValue / 256 ^ 2 = 0 by omega]
      rfl
    · omega
  · have written : asn1WriteUlong 4 uValue =
        [UInt8.ofNat (uValue / 256 ^ 2), UInt8.ofNat (uValue / 256 ^ 1), UInt8.ofNat (uValue / 256 ^ 0)] := by
      obtain ⟨low, -⟩ | ⟨-, -, written⟩ | ⟨high, -⟩ := asn1WriteUlong_cases (show 0xFF < uValue by omega) (by omega)
      · omega
      · exact written
      · omega
    rw [if_neg (show ¬ uValue ≤ 0xFF by omega), written]
    obtain ⟨-, short, -⟩ | ⟨-, -, short, -⟩ | ⟨-, -, short, der⟩ | ⟨top, der⟩ := der
    · omega
    · omega
    · rw [der, signOctet_none (by omega), List.nil_append]
    · rw [der, signOctet_zero (by omega), show uValue / 256 ^ 3 = 0 by omega]
      rfl
  · obtain ⟨low, -⟩ | ⟨-, low, -⟩ | ⟨-, written⟩ := asn1WriteUlong_cases (show 0xFF < uValue by omega) (by omega)
    · omega
    · omega
    · rw [if_neg (show ¬ uValue ≤ 0xFF by omega), written]
      obtain ⟨-, short, -⟩ | ⟨-, -, short, -⟩ | ⟨-, -, short, -⟩ | ⟨-, der⟩ := der
      · omega
      · omega
      · omega
      · rw [der, signOctet_none (by omega), List.nil_append]

theorem setUlongValue_uLength {uValue : Nat} (small : uValue < 0x80000000) :
    (object.setUlongValue uValue).uLength = derSize uValue := by
  have unfolded : (object.setUlongValue uValue).uLength =
      if decide ((ulongDigits uValue).2 ≥ 0x80) then (ulongDigits uValue).1 + 1 else (ulongDigits uValue).1 := rfl
  rw [unfolded, derSize]
  simp only [decide_eq_true_eq]
  obtain ⟨one, same⟩ | ⟨long, two, same⟩ | ⟨long, three, same⟩ | ⟨long, same⟩ :=
    ulongDigits_cases (show uValue < 0x100000000 by omega)
  all_goals
    rw [same]
    dsimp only
    split_ifs <;> omega

theorem encodeValue_setUlongValue {uValue : Nat} (small : uValue < 0x80000000) :
    (object.setUlongValue uValue).encodeValue = .ok ⟨derOctets uValue, derSize uValue⟩ := by
  have same : (object.setUlongValue uValue).lValue = uValue := long_small small
  have encoded : (object.setUlongValue uValue).encodeValue = .ok ⟨plainOctets uValue, (plainOctets uValue).length⟩ := by
    have static : (object.setUlongValue uValue).bIsDynamic = false := rfl
    rw [Integer.encodeValue, same, ulong_natCast (by omega), static, if_neg Bool.false_ne_true, if_pos (by omega)]
    rfl
  rw [encoded, plainOctets_eq small, length_derOctets]

theorem encodeValue_setIntegerValue {value : Int} (negative : value < 0) (bounded : -0x80000000 ≤ value) :
    (object.setIntegerValue value).encodeValue = .ok ⟨derOctets value, derSize value⟩ := by
  have size : (object.setIntegerValue value).uLength = derSize value := by
    rw [Integer.setIntegerValue, if_neg (by omega), ulongOctets_ulong]
    exact negativeSize_eq negative bounded
  have same : (object.setIntegerValue value).lValue = value := by
    rw [Integer.setIntegerValue, if_neg (by omega)]
  have static : (object.setIntegerValue value).bIsDynamic = false ∧
    (object.setIntegerValue value).bFirstZero = false := by
    rw [Integer.setIntegerValue, if_neg (by omega)]
    exact ⟨rfl, rfl⟩
  have small : derSize value ≤ 4 := by
    rw [derSize]
    split_ifs <;> omega
  have octets : (((twosComplement 4 value) ++ [0]).drop (4 - derSize value)).take (derSize value) =
    derOctets value := by
    rw [derOctets, derSize]
    split_ifs <;> rfl
  rw [Integer.encodeValue, same, size, static.1, static.2, if_neg Bool.false_ne_true, if_neg (by omega)]
  dsimp only
  rw [if_neg Bool.false_ne_true, if_neg (by omega), ulongOctets_ulong, octets]

theorem long_ulong {value : Int} (low : -0x80000000 ≤ value) (high : value < 0x80000000) :
    long (ulong value) = value := by
  have same : ulong value % 0x100000000 = ulong value := Nat.mod_eq_of_lt (ulong_lt value)
  rw [long, same, ulong]
  split_ifs <;> omega

theorem negative_value {value : Int} (negative : value < 0) (low : -0x80000000 ≤ value) {uValue : Nat}
    (same : (uValue : Int) = value + 0x100000000) : long (ulong (-long (0xFFFFFFFF - uValue + 1))) = value := by
  have opposite : 0xFFFFFFFF - uValue + 1 = (-value).toNat := by omega
  rw [opposite]
  by_cases least : value = -0x80000000
  · rw [least]
    decide
  · have inner : long (-value).toNat = -value := by
      rw [long_small (by omega)]
      omega
    rw [inner, Int.neg_neg, long_ulong low (by omega)]

def bufferValue (buffer : List UInt8) : Nat :=
  (buffer.getD 3 0).toNat + (buffer.getD 2 0).toNat * 0x100 + (buffer.getD 1 0).toNat * 0x10000 +
    (buffer.getD 0 0).toNat * 0x1000000

theorem getIntegerValueFromBuffer_of {value : Int} (low : -0x80000000 ≤ value) (high : value < 0x80000000)
    {first : Nat} (small : first < 256) {rest : List UInt8} (few : rest.length ≤ 3)
    (sign : first < (0x80 : UInt8).toNat ↔ 0 ≤ value)
    (positive : 0 ≤ value →
      (bufferValue (List.replicate (3 - rest.length) 0 ++ UInt8.ofNat first :: rest) : Int) = value)
    (negative : value < 0 →
      (bufferValue (List.replicate (3 - rest.length) 0xFF ++ UInt8.ofNat first :: rest) : Int) = value + 0x100000000) :
    getIntegerValueFromBuffer (UInt8.ofNat first :: rest) (rest.length + 1) = .ok value := by
  have fill : 4 - (rest.length + 1) = 3 - rest.length := by omega
  have whole : (UInt8.ofNat first :: rest).take (rest.length + 1) = UInt8.ofNat first :: rest :=
    List.take_of_length_le (Nat.le_refl _)
  rw [getIntegerValueFromBuffer, if_neg (Nat.succ_ne_zero _), octet_cons, ok_bind]
  by_cases plain : 0 ≤ value
  · have length : getLengthFromBuffer 4 (UInt8.ofNat first :: rest) (rest.length + 1) = .ok value.toNat := by
      rw [getLengthFromBuffer, if_neg (Nat.succ_ne_zero _), if_neg (show ¬ rest.length + 1 > 4 by omega)]
      dsimp only
      rw [if_neg (by simp), whole, fill]
      exact congrArg Except.ok (by have := positive plain; rw [bufferValue] at this; omega)
    rw [if_pos ((octet_lt small _).mpr (sign.mpr plain)), length, ok_bind, long_small (by omega),
      Int.toNat_of_nonneg plain]
  · rw [if_neg (fun less => plain (sign.mp ((octet_lt small _).mp less))),
      if_neg (by simp; omega)]
    dsimp only
    rw [whole, fill]
    exact congrArg Except.ok (negative_value (by omega) low (negative (by omega)))

theorem getIntegerValueFromBuffer_eq {value : Int} (low : -0x80000000 ≤ value) (high : value < 0x80000000) :
    getIntegerValueFromBuffer (derOctets value) (derSize value) = .ok value := by
  obtain ⟨zero, one, two, three⟩ := digits_eq value
  rw [← length_derOctets]
  have d0 := digitAt_lt value 0
  have d1 := digitAt_lt value 1
  have d2 := digitAt_lt value 2
  have d3 := digitAt_lt value 3
  obtain ⟨_, _, der⟩ | ⟨_, _, _, der⟩ | ⟨_, _, _, der⟩ | ⟨_, der⟩ := derOctets_cases value
  all_goals
    rw [der]
    apply getIntegerValueFromBuffer_of low high (digitAt_lt value _) (by simp)
    · change digitAt value _ < 128 ↔ _
      omega
  -- In front of the octets stand zeros, or 0xFF for a negative number.
  all_goals
    intro sign
    simp only [bufferValue, List.length_cons, List.length_nil, Nat.reduceAdd, Nat.reduceSub, List.replicate,
      List.cons_append, List.nil_append, List.getD_cons_zero, List.getD_cons_succ, toNat_octet, d0, d1, d2,
      d3, UInt8.reduceToNat]
    omega

end StaticValues

section RoundTrip

namespace Integer

inductive Holds : Integer → List UInt8 → Prop
  | buffer (object : Integer) (present : object.bOptional = false) (dynamic : object.bIsDynamic = true)
      (length : object.uLength = object.pValueBuffer.length) (positive : 1 ≤ object.pValueBuffer.length)
      (bounded : object.pValueBuffer.length ≤ 2000) : Holds object object.pValueBuffer
  | plain (object : Integer) (uValue : Nat) (small : uValue < 0x80000000) :
      Holds (object.setUlongValue uValue) (derOctets uValue)
  | negative (object : Integer) (lValue : Int) (negative : lValue < 0) (bounded : -0x80000000 ≤ lValue) :
      Holds (object.setIntegerValue lValue) (derOctets lValue)

variable {object : Integer} {octets : List UInt8}

theorem Holds.length (holds : object.Holds octets) : object.uLength = octets.length := by
  cases holds with
  | buffer _ _ _ length => exact length
  | plain object uValue small => rw [setUlongValue_uLength object small, length_derOctets]
  | negative object lValue negative bounded =>
    rw [length_derOctets, setIntegerValue, if_neg (by omega), ulongOctets_ulong]
    exact negativeSize_eq negative bounded

theorem Holds.present (holds : object.Holds octets) : object.bOptional = false := by
  cases holds with
  | buffer _ present => exact present
  | plain => rfl
  | negative object lValue negative => rw [setIntegerValue, if_neg (by omega)]

theorem derSize_bounds (value : Int) : 1 ≤ derSize value ∧ derSize value ≤ 4 := by
  rw [derSize]
  split_ifs <;> decide

theorem Holds.bounds (holds : object.Holds octets) : 1 ≤ octets.length ∧ octets.length ≤ 2000 := by
  cases holds with
  | buffer _ _ _ _ positive bounded => exact ⟨positive, bounded⟩
  | plain object uValue =>
    have := derSize_bounds uValue
    rw [length_derOctets]
    omega
  | negative object lValue =>
    have := derSize_bounds lValue
    rw [length_derOctets]
    omega

theorem Holds.encodeValue (holds : object.Holds octets) : object.encodeValue = .ok ⟨octets, octets.length⟩ := by
  cases holds with
  | buffer _ _ dynamic length =>
    rw [Integer.encodeValue, dynamic, if_pos rfl, length, if_neg (Nat.lt_irrefl _), List.take_length]
  | plain object uValue small => rw [encodeValue_setUlongValue object small, length_derOctets]
  | negative object lValue negative bounded =>
    rw [encodeValue_setIntegerValue object negative bounded, length_derOctets]

theorem Holds.getSizeOfEncoded (holds : object.Holds octets) :
    object.getSizeOfEncoded = long (attrListGetSizeOfEncoded 4 object.attrs octets.length 1) := by
  rw [Integer.getSizeOfEncoded, holds.present, if_neg Bool.false_ne_true, holds.length]

theorem Holds.encodingData (holds : object.Holds octets) (fits : content (shown object.attrs) octets.length ≤ 0xFFFF) :
    object.encodingData = .ok ⟨front object.attrs 0x02 octets.length ++ octets,
      (front object.attrs 0x02 octets.length).length + octets.length⟩ := by
  rw [Integer.encodingData, holds.present, if_neg Bool.false_ne_true, holds.getSizeOfEncoded, holds.length,
    encodeFront_eq 0x02 fits, ok_bind, holds.encodeValue, ok_bind]

theorem isTag_integer : IsTag [0x02] := .short 0x02 (by decide) (by decide)

structure Reads (object decoded : Integer) (octets : List UInt8) : Prop where
  attrs : decoded.attrs = object.attrs
  present : decoded.bOptional = false
  dynamic : decoded.bIsDynamic = true
  length : decoded.uLength = octets.length
  same : decoded.pValueBuffer = octets
  number : ∀ value : Int, -0x80000000 ≤ value → value < 0x80000000 → octets = derOctets value → decoded.lValue = value

theorem getIntegerValueFromBuffer_total (first : UInt8) (rest : List UInt8)
    (short : (first :: rest).length ≤ 4 ∨ first = 0x00) :
    ∃ lValue, getIntegerValueFromBuffer (first :: rest) (first :: rest).length = .ok lValue := by
  rw [getIntegerValueFromBuffer, if_neg (by simp), octet_cons, ok_bind]
  by_cases plain : first < 0x80
  · have read : ∃ value, getLengthFromBuffer 4 (first :: rest) (first :: rest).length = .ok value := by
      rw [getLengthFromBuffer, if_neg (by simp)]
      dsimp only
      rw [if_neg (by split_ifs <;> omega)]
      exact ⟨_, rfl⟩
    obtain ⟨value, read⟩ := read
    rw [if_pos plain, read]
    exact ⟨_, rfl⟩
  · have few : (first :: rest).length ≤ 4 := by
      obtain few | rfl := short
      · exact few
      · exact (plain (by decide)).elim
    rw [if_neg plain, if_neg (by omega)]
    exact ⟨_, rfl⟩

theorem withValue_reads (object : Integer) (positive : 1 ≤ octets.length) (further : List UInt8) :
    ∃ decoded, object.withValue (octets ++ further) octets.length = .ok decoded ∧ object.Reads decoded octets := by
  obtain ⟨first, rest, rfl⟩ := List.exists_cons_of_length_pos positive
  have long (value : Int) (same : first :: rest = derOctets value) : (first :: rest).length ≤ 4 := by
    rw [same, length_derOctets]
    exact (derSize_bounds value).2
  rw [withValue, List.take_left]
  dsimp only
  by_cases short : (first :: rest).length ≤ 5
  · rw [if_pos short, List.cons_append, octet_cons, ok_bind]
    by_cases number : (first :: rest).length ≤ 4 ∨ first = 0x00
    · rw [if_pos number]
      obtain ⟨lValue, read⟩ := getIntegerValueFromBuffer_total first rest number
      rw [read]
      refine ⟨_, rfl, rfl, rfl, rfl, rfl, rfl, fun value low high same => ?_⟩
      rw [same, length_derOctets, getIntegerValueFromBuffer_eq low high] at read
      exact (Except.ok.inj read).symm
    · rw [if_neg number]
      exact ⟨_, rfl, rfl, rfl, rfl, rfl, rfl, fun value _ _ same => (number (.inl (long value same))).elim⟩
  · rw [if_neg short]
    exact ⟨_, rfl, rfl, rfl, rfl, rfl, rfl, fun value _ _ same => (short (by have := long value same; omega)).elim⟩

theorem decodingData_front (object : Integer) (tagged : Tagged object.attrs octets.length)
    (positive : 1 ≤ octets.length)
    (bounded : octets.length ≤ 2000) (further : List UInt8) :
    ∃ decoded, object.decodingData (front object.attrs 0x02 octets.length ++ (octets ++ further)) =
      .ok (decoded, further) ∧ object.Reads decoded octets := by
  obtain ⟨state, begun, ended, stands⟩ := front_decoded isTag_integer tagged positive (octets ++ further)
  obtain ⟨decoded, read, reads⟩ := withValue_reads object positive further
  refine ⟨decoded, ?_, reads⟩
  have own : ∃ inner, ownTag state = .ok inner ∧ inner.pEncodingUnit = octets ++ further ∧
      inner.uleftSize = octets.length ∧ inner.uInfinite = 0 := by
    rw [ownTag]
    cases tag : state.bTag with
    | false =>
      rw [tag, if_neg Bool.false_ne_true] at stands
      exact ⟨state, rfl, stands.1, stands.2, ended⟩
    | true =>
      rw [tag, if_pos rfl] at stands
      rw [if_pos rfl, stands.1, ok_bind, if_neg (by simp), if_neg (by simp only; omega)]
      exact ⟨_, rfl, stands.2, rfl, ended⟩
  obtain ⟨inner, opened, data, length, none⟩ := own
  rw [decodingData, begun, ok_bind, opened, ok_bind, Decoding.valueLength_eq (by omega), ok_bind, length,
    if_neg (by omega), data, if_neg (by simp), read, ok_bind, none, List.drop_left]
  rfl

theorem Holds.number (holds : object.Holds octets) (static : object.bIsDynamic = false) :
    ∃ value : Int, -0x80000000 ≤ value ∧ value < 0x80000000 ∧ octets = derOctets value ∧ object.lValue = value := by
  cases holds with
  | buffer _ _ dynamic =>
    rw [static] at dynamic
    cases dynamic
  | plain object uValue small => exact ⟨uValue, by omega, by omega, rfl, long_small small⟩
  | negative object lValue negative bounded =>
    refine ⟨lValue, bounded, by omega, rfl, ?_⟩
    rw [setIntegerValue, if_neg (by omega)]

def RoundTrips (object : Integer) (octets : List UInt8) : Prop :=
  ∃ encoded, object.encodingData = .ok encoded ∧
    encoded.written.length = object.getSizeOfEncoded ∧ encoded.advance = object.getSizeOfEncoded ∧
    ∀ (target : Integer) (further : List UInt8), target.attrs = object.attrs →
      ∃ decoded, target.decodingData (encoded.written ++ further) = .ok (decoded, further) ∧
        decoded.uLength = octets.length ∧ decoded.pValueBuffer = octets ∧
        (object.bIsDynamic = false → decoded.lValue = object.lValue)

theorem Holds.roundTrips (holds : object.Holds octets) (tagged : Tagged object.attrs octets.length) :
    object.RoundTrips octets := by
  have size : object.getSizeOfEncoded = attrListGetSizeOfEncoded 4 object.attrs octets.length 1 := by
    rw [holds.getSizeOfEncoded, long_total tagged.fits, attrListGetSizeOfEncoded_eq]
  have whole := length_front 0x02 tagged
  refine ⟨_, holds.encodingData tagged.fits, ?_, ?_, fun target further same => ?_⟩
  · rw [size, ← whole, List.length_append]
  · rw [size, ← whole]
  · rw [← same] at tagged ⊢
    obtain ⟨decoded, read, reads⟩ := target.decodingData_front tagged holds.bounds.1 holds.bounds.2 further
    refine ⟨decoded, ?_, reads.length, reads.same, fun static => ?_⟩
    · rw [← read, List.append_assoc]
    · obtain ⟨value, low, high, number, set⟩ := holds.number static
      rw [set]
      exact reads.number value low high number

end Integer

end RoundTrip

end CcspCommon.AnscAsn1
