import CcspCommon.AnscAsn1.Integer
import CcspCommon.Shared.TwosComplement

set_option autoImplicit false

namespace CcspCommon.AnscAsn1

open CcspCommon.Shared (signedValue unsignedValue IsMinimal isMinimal_of)

namespace Integer

def create : Integer := ⟨[], false, false, false, 0, 1, []⟩

def getIntegerValue (object : Integer) : Int := object.lValue

def getUlongValue (object : Integer) : Int := ulong object.lValue

structure ValueRoundTrips (get : Integer → Int) (object : Integer) (value : Int) (octets : List UInt8) : Prop where
  minimal : IsMinimal octets value
  encodes : object.encodingData = .ok ⟨0x02 :: UInt8.ofNat octets.length :: octets, octets.length + 2⟩
  size : object.getSizeOfEncoded = octets.length + 2
  back : ∀ further, ∃ decoded,
    create.decodingData (0x02 :: UInt8.ofNat octets.length :: (octets ++ further)) = .ok (decoded, further) ∧
      get decoded = value

end Integer

section Octets

theorem isMinimal_derOctets {value : Int} (low : -0x80000000 ≤ value) (high : value < 0x80000000) :
    IsMinimal (derOctets value) value := by
  obtain ⟨zero, one, two, three⟩ := digits_eq value
  have d0 := digitAt_lt value 0
  have d1 := digitAt_lt value 1
  have d2 := digitAt_lt value 2
  have d3 := digitAt_lt value 3
  have sign (digit : Nat) (small : digit < 256) : UInt8.ofNat digit < 0x80 ↔ digit < 128 := octet_lt small 0x80
  obtain ⟨least, most, der⟩ | ⟨large, least, most, der⟩ | ⟨large, least, most, der⟩ | ⟨large, der⟩ :=
    derOctets_cases value
  all_goals
    rw [der]
    apply isMinimal_of
  case inl.same =>
    simp only [signedValue, unsignedValue, List.headD_cons, sign _ d0, toNat_octet d0, List.length_cons,
      List.length_nil]
    split_ifs <;> omega
  case inl.large =>
    intro fewer less
    exact absurd less (Nat.not_lt_zero fewer)
  case inr.inl.same =>
    simp only [signedValue, unsignedValue, List.headD_cons, sign _ d1, toNat_octet d1, toNat_octet d0, List.length_cons,
      List.length_nil]
    split_ifs <;> omega
  case inr.inl.large =>
    intro fewer less
    obtain rfl : fewer = 0 := by simpa using less
    simpa using large
  case inr.inr.inl.same =>
    simp only [signedValue, unsignedValue, List.headD_cons, sign _ d2, toNat_octet d2, toNat_octet d1, toNat_octet d0,
      List.length_cons, List.length_nil]
    split_ifs <;> omega
  case inr.inr.inl.large =>
    intro fewer less
    obtain rfl | rfl : fewer = 0 ∨ fewer = 1 := by
      simp only [List.length_cons, List.length_nil] at less
      omega
    · rintro ⟨least, most⟩
      omega
    · rintro ⟨least, most⟩
      omega
  case inr.inr.inr.same =>
    simp only [signedValue, unsignedValue, List.headD_cons, sign _ d3, toNat_octet d3, toNat_octet d2, toNat_octet d1,
      toNat_octet d0, List.length_cons, List.length_nil]
    split_ifs <;> omega
  case inr.inr.inr.large =>
    intro fewer less
    obtain rfl | rfl | rfl : fewer = 0 ∨ fewer = 1 ∨ fewer = 2 := by
      simp only [List.length_cons, List.length_nil] at less
      omega
    all_goals
      rintro ⟨least, most⟩
      omega

end Octets

section Values

namespace Integer

variable {object : Integer} {octets : List UInt8} {value : Int}

theorem front_plain (object : Integer) (plain : object.attrs = []) {v : Nat} (short : v ≤ 0x7F) :
    front object.attrs 0x02 v = [0x02, UInt8.ofNat v] := by
  rw [plain, ← encodeLength_one short]
  rfl

theorem Holds.valueRoundTrips (holds : object.Holds octets) (plain : object.attrs = []) (low : -0x80000000 ≤ value)
    (high : value < 0x80000000) (same : octets = derOctets value) {get : Integer → Int}
    (reads : ∀ decoded : Integer, decoded.lValue = value → get decoded = value) :
    ValueRoundTrips get object value octets := by
  have few : octets.length ≤ 4 := by
    rw [same, length_derOctets]
    exact (derSize_bounds value).2
  have tagged (object : Integer) (plain : object.attrs = []) : Tagged object.attrs octets.length := by
    rw [plain]
    constructor
    · intro attr member
      cases member
    · exact Nat.le_trans few (by decide)
  have written := front_plain object plain (show octets.length ≤ 0x7F by omega)
  have begun := front_plain create rfl (show octets.length ≤ 0x7F by omega)
  constructor
  case minimal =>
    rw [same]
    exact isMinimal_derOctets low high
  case encodes =>
    rw [holds.encodingData (tagged object plain).fits, written, List.length_cons, List.length_singleton, Nat.add_comm]
    rfl
  case size =>
    have whole := length_front 0x02 (tagged object plain)
    rw [holds.getSizeOfEncoded, long_total (tagged object plain).fits, ← attrListGetSizeOfEncoded_eq, ← whole, written,
      List.length_cons, List.length_singleton, Nat.add_comm]
    rfl
  case back =>
    intro further
    obtain ⟨decoded, read, back⟩ := create.decodingData_front (tagged create rfl) holds.bounds.1 holds.bounds.2 further
    rw [begun] at read
    exact ⟨decoded, read, reads decoded (back.number value low high same)⟩

theorem attrs_setUlongValue (object : Integer) (uValue : Nat) :
    (object.setUlongValue uValue).attrs = object.attrs := rfl

theorem attrs_setIntegerValue (object : Integer) (lValue : Int) :
    (object.setIntegerValue lValue).attrs = object.attrs := by
  rw [setIntegerValue]
  split_ifs <;> rfl

theorem setIntegerValue_holds (object : Integer) (low : -0x80000000 ≤ value) (high : value < 0x80000000) :
    (object.setIntegerValue value).Holds (derOctets value) := by
  by_cases negative : value < 0
  · exact .negative object value negative low
  · have same : (ulong value : Int) = value := by
      rw [ulong]
      omega
    have plain := Holds.plain object (ulong value) (by omega)
    rw [same] at plain
    rw [setIntegerValue, if_pos (by omega)]
    exact plain

theorem encodingData_overrun (object : Integer) (plain : object.attrs = []) {uValue : Nat} (large : 0x80000000 ≤ uValue)
    (small : uValue < 0x100000000) :
    ∃ encoded, (object.setUlongValue uValue).encodingData = .ok encoded ∧ encoded.written.length = 8 ∧
      encoded.advance = 7 := by
  have digits : ulongDigits uValue = (4, uValue / 256 / 256 / 256) := by
    obtain ⟨one, -⟩ | ⟨-, two, -⟩ | ⟨-, three, -⟩ | ⟨-, same⟩ := ulongDigits_cases small
    · omega
    · omega
    · omega
    · exact same
  have high : uValue / 256 / 256 / 256 ≥ 0x80 := by omega
  have length : (object.setUlongValue uValue).uLength = 5 := by
    have unfolded : (object.setUlongValue uValue).uLength =
        if decide ((ulongDigits uValue).2 ≥ 0x80) then (ulongDigits uValue).1 + 1 else (ulongDigits uValue).1 := rfl
    rw [unfolded, digits, if_pos (decide_eq_true high)]
  have zero : (object.setUlongValue uValue).bFirstZero = true := by
    have unfolded : (object.setUlongValue uValue).bFirstZero = decide ((ulongDigits uValue).2 ≥ 0x80) := rfl
    rw [unfolded, digits]
    exact decide_eq_true high
  have negative : (object.setUlongValue uValue).lValue < 0 := by
    have set : (object.setUlongValue uValue).lValue = long uValue := rfl
    rw [set, long, Nat.mod_eq_of_lt small, if_neg (by omega)]
    omega
  have value : ∃ octets : List UInt8, octets.length = 6 ∧
    (object.setUlongValue uValue).encodeValue = .ok ⟨octets, 5⟩ := by
    have static : (object.setUlongValue uValue).bIsDynamic = false := rfl
    rw [Integer.encodeValue, static, length, zero, if_neg Bool.false_ne_true, if_neg (by omega)]
    dsimp only
    rw [if_pos rfl, if_neg (by decide)]
    exact ⟨_, rfl, rfl⟩
  obtain ⟨octets, six, encodes⟩ := value
  have fits : content (shown object.attrs) 5 ≤ 0xFFFF := by
    rw [plain]
    decide
  have size : (object.setUlongValue uValue).getSizeOfEncoded = long (attrListGetSizeOfEncoded 4 object.attrs 5 1) := by
    rw [Integer.getSizeOfEncoded, length]
    rfl
  have present : (object.setUlongValue uValue).bOptional = false := rfl
  refine ⟨⟨front object.attrs 0x02 5 ++ octets, (front object.attrs 0x02 5).length + 5⟩, ?_, ?_, ?_⟩
  · rw [Integer.encodingData, present, if_neg Bool.false_ne_true, size, length, attrs_setUlongValue,
      encodeFront_eq 0x02 fits, ok_bind, encodes, ok_bind]
  · rw [List.length_append, front_plain object plain (by decide), six]
    rfl
  · rw [front_plain object plain (by decide)]
    rfl

theorem values_come_back {object : Integer} (plain : object.attrs = []) :
    (∀ value : Int, -0x80000000 ≤ value → value < 0x80000000 →
      ∃ octets, ValueRoundTrips getIntegerValue (object.setIntegerValue value) value octets) ∧
    ∀ uValue : Nat, uValue < 0x100000000 →
      ((∃ octets, ValueRoundTrips getUlongValue (object.setUlongValue uValue) uValue octets) ↔
        uValue < 0x80000000) := by
  constructor
  · intro value low high
    exact ⟨_, (setIntegerValue_holds object low high).valueRoundTrips ((attrs_setIntegerValue object value).trans plain)
      low high rfl fun decoded same => same⟩
  · intro uValue small
    constructor
    · rintro ⟨octets, roundTrips⟩
      by_contra large
      obtain ⟨encoded, encodes, written, advance⟩ := encodingData_overrun object plain (Nat.le_of_not_lt large) small
      rw [roundTrips.encodes] at encodes
      obtain rfl := Except.ok.inj encodes
      rw [List.length_cons, List.length_cons] at written
      dsimp only at advance
      omega
    · intro short
      refine ⟨_, (Holds.plain object uValue short).valueRoundTrips plain (by omega) (by omega) rfl
        fun decoded same => ?_⟩
      rw [getUlongValue, same, ulong]
      omega

theorem values_come_back_sample :
    (∃ octets, ValueRoundTrips getIntegerValue (create.setIntegerValue (-129)) (-129) octets) ∧
      ((∃ octets, ValueRoundTrips getUlongValue (create.setUlongValue 200) (200 : Nat) octets) ↔ 200 < 0x80000000) :=
  ⟨(@values_come_back create rfl).1 (-129) (by decide) (by decide),
    (@values_come_back create rfl).2 200 (by decide)⟩

theorem ulong_lost :
    (create.setUlongValue 0x80000001).encodingData =
        .ok ⟨[0x02, 0x05, 0x00, 0x80, 0x00, 0x00, 0x01, 0x00], 7⟩ ∧
      (create.setUlongValue 0x80000001).getSizeOfEncoded = 7 ∧
      ¬ ∃ octets, ValueRoundTrips getUlongValue (create.setUlongValue 0x80000001) (0x80000001 : Nat) octets := by
  refine ⟨rfl, rfl, ?_⟩
  rintro ⟨octets, roundTrips⟩
  have encodes := roundTrips.encodes
  have written : (create.setUlongValue 0x80000001).encodingData =
      .ok ⟨[0x02, 0x05, 0x00, 0x80, 0x00, 0x00, 0x01, 0x00], 7⟩ := rfl
  rw [written] at encodes
  obtain ⟨octets, advance⟩ := Encoded.mk.inj (Except.ok.inj encodes)
  have length := congrArg List.length octets
  simp only [List.length_cons, List.length_nil] at length
  omega

end Integer

end Values

end CcspCommon.AnscAsn1
