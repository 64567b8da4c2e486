import CcspCommon.AnscAsn1.Integer
import CcspCommon.AnscPlatform.AnscString
import CcspCommon.Shared.Run

set_option autoImplicit false

namespace CcspCommon.AnscAsn1

open CcspCommon.AnscPlatform (Machine UlongSize)
open CcspCommon.Shared (bind_eq_ok)

section Words

def ulongSize (machine : Machine) : Nat :=
  match machine.ulongSize with
  | .four => 4
  | .eight => 8

-- `AnscSwapUlong` turns the lowest four bytes around and drops the others.
def swapUlong (ulValue : Nat) : Nat :=
  ulValue % 0x100 * 0x1000000 + ulValue / 0x100 % 0x100 * 0x10000 + ulValue / 0x10000 % 0x100 * 0x100 +
    ulValue / 0x1000000 % 0x100

def memoryOfUlong (machine : Machine) (value : Nat) : List UInt8 :=
  if machine.littleEndian then (ulongOctets (ulongSize machine) value).reverse
  else ulongOctets (ulongSize machine) value

def networkMemory (machine : Machine) (value : Nat) : List UInt8 :=
  memoryOfUlong machine (if machine.littleEndian then swapUlong value else value)

def writeUlong (machine : Machine) (length : Nat) : List UInt8 :=
  if length = 0 then [0] else (networkMemory machine length).dropWhile (· = 0)

structure WrittenLength where
  octets : List UInt8
  advance : Nat
deriving DecidableEq, Repr

def writeLength (machine : Machine) (ulLength : Nat) : WrittenLength :=
  if ulLength ≤ 0x7F then ⟨[UInt8.ofNat ulLength], 1⟩
  else
    let counter := octetCount (ulongSize machine - 1) ulLength
    ⟨(UInt8.ofNat counter ||| 0x80) :: writeUlong machine ulLength, counter + 1⟩

theorem swapUlong_digits (value : Nat) :
    swapUlong value % 0x100 = value / 0x1000000 % 0x100 ∧ swapUlong value / 0x100 % 0x100 = value / 0x10000 % 0x100 ∧
      swapUlong value / 0x10000 % 0x100 = value / 0x100 % 0x100 ∧
      swapUlong value / 0x1000000 % 0x100 = value % 0x100 := by
  have zero := Nat.mod_lt value (show 0 < 0x100 by decide)
  have one := Nat.mod_lt (value / 0x100) (show 0 < 0x100 by decide)
  have two := Nat.mod_lt (value / 0x10000) (show 0 < 0x100 by decide)
  have three := Nat.mod_lt (value / 0x1000000) (show 0 < 0x100 by decide)
  rw [swapUlong]
  generalize value % 0x100 = a at *
  generalize value / 0x100 % 0x100 = b at *
  generalize value / 0x10000 % 0x100 = c at *
  generalize value / 0x1000000 % 0x100 = d at *
  omega

theorem swapUlong_octets (value : Nat) : (ulongOctets 4 (swapUlong value)).reverse = ulongOctets 4 value := by
  obtain ⟨zero, one, two, three⟩ := swapUlong_digits value
  have octets (value : Nat) : ulongOctets 4 value =
      [UInt8.ofNat (value / 0x1000000), UInt8.ofNat (value / 0x10000), UInt8.ofNat (value / 0x100),
        UInt8.ofNat (value / 1)] := rfl
  simp only [octets, List.reverse_cons, List.reverse_nil, List.nil_append, List.cons_append, Nat.div_one]
  rw [octet_congr zero, octet_congr one, octet_congr two, octet_congr three]

theorem writeLength_four {machine : Machine} (four : machine.ulongSize = .four) (ulLength : Nat) :
    (writeLength machine ulLength).octets = encodeLength 4 ulLength := by
  have size : ulongSize machine = 4 := by rw [ulongSize, four]
  have memory : networkMemory machine ulLength = ulongOctets 4 ulLength := by
    rw [networkMemory, memoryOfUlong, size]
    cases machine.littleEndian with
    | true => simpa using swapUlong_octets ulLength
    | false => rfl
  rw [writeLength, encodeLength, size]
  split_ifs
  next => rfl
  next => simp only [writeUlong, asn1WriteUlong, memory]

end Words

section RoundTrip

structure LengthRoundTrips (machine : Machine) (ulLength : Nat) : Prop where
  size : (writeLength machine ulLength).octets.length = getSizeOfEncodedLength (ulongSize machine) ulLength
  advance : (writeLength machine ulLength).advance = getSizeOfEncodedLength (ulongSize machine) ulLength
  back : ∀ tag rest, IsTag tag →
    tagInfoParsingData (ulongSize machine) (tag ++ ((writeLength machine ulLength).octets ++ rest)) =
      .ok ⟨tag.length, tag.headD 0, false, getSizeOfEncodedLength (ulongSize machine) ulLength, ulLength⟩
  pure : getPureEncodedLength (ulongSize machine)
    (ulLength + getSizeOfEncodedLength (ulongSize machine) ulLength) = some ulLength

theorem lengthRoundTrips_short {machine : Machine} {ulLength : Nat} (short : ulLength ≤ 0x7F) :
    LengthRoundTrips machine ulLength := by
  have written : writeLength machine ulLength = ⟨[UInt8.ofNat ulLength], 1⟩ := if_pos short
  have size (w : Nat) (large : 4 ≤ w) : getSizeOfEncodedLength w ulLength = 1 := by
    have room : 2 ^ 31 ≤ 2 ^ (8 * w - 1) := Nat.pow_le_pow_right (by decide) (by omega)
    rw [getSizeOfEncodedLength, if_neg (by omega), if_pos short]
  have large : 4 ≤ ulongSize machine := by
    rw [ulongSize]
    split <;> decide
  constructor
  next => rw [written, size _ large, List.length_singleton]
  next => rw [written, size _ large]
  next =>
    intro tag rest isTag
    have low := octet_low ⟨ulLength, by omega⟩
    apply tagInfoParsingData_tag isTag
    rw [written, size _ large, lengthParsing, List.cons_append, octet_cons, ok_bind, if_pos low, toNat_octet (by omega)]
  next =>
    rw [size _ large, getPureEncodedLength, pureLoop, ulongSub_eq _ (by omega), Nat.add_sub_cancel,
      if_pos (size _ large)]

theorem lengthRoundTrips_four {machine : Machine} (four : machine.ulongSize = .four) {ulLength : Nat}
    (small : ulLength ≤ 0xFFFF) : LengthRoundTrips machine ulLength := by
  have size : ulongSize machine = 4 := by rw [ulongSize, four]
  have written := writeLength_four four ulLength
  constructor
  next => rw [written, size, length_encodeLength small]
  next =>
    rw [writeLength, getSizeOfEncodedLength, size, if_neg (show ¬ 2 ^ (8 * 4 - 1) ≤ ulLength by omega)]
    split
    next => rfl
    next => apply Nat.add_comm
  next =>
    intro tag rest isTag
    rw [written, size, tagInfoParsingData_eq isTag small]
  next => rw [size, getPureEncodedLength_eq small]

theorem octetCount_le (ulLength : Nat) (small : ulLength < 2 ^ 31) : octetCount 7 ulLength ≤ 4 := by
  simp only [octetCount]
  split_ifs <;> omega

theorem long_form : ∀ count : Fin 8,
    (UInt8.ofNat count ||| 0x80) &&& 0x80 ≠ 0 ∧ ((UInt8.ofNat count ||| 0x80) &&& 0x7F).toNat = count := by decide

theorem getLengthFromBuffer_eight {data : List UInt8} {count : Nat} (few : count ≤ 4) {ulLength : Nat}
    (found : getLengthFromBuffer 8 data count = .ok ulLength) : ulLength = 0 := by
  rw [getLengthFromBuffer] at found
  split at found
  next => simpa using found.symm
  next =>
    dsimp only at found
    rw [if_neg (show ¬ count > 8 by omega)] at found
    split at found
    next => cases found
    next =>
      have zero (index : Nat) (first : index < 4) :
          (List.replicate (8 - count) (0 : UInt8) ++ data.take count).getD index 0 = 0 := by
        rw [List.getD_append _ _ _ _ (by rw [List.length_replicate]; omega), List.getD_replicate _ (by omega)]
      rw [zero 0 (by decide), zero 1 (by decide), zero 2 (by decide), zero 3 (by decide)] at found
      simpa using found.symm

theorem lengthParsing_eight {count : Nat} (few : count ≤ 4) {data : List UInt8} {parsed : Bool × Nat × Nat}
    (read : lengthParsing 8 ((UInt8.ofNat count ||| 0x80) :: data) = .ok parsed) : parsed.2.2 = 0 := by
  obtain ⟨flag, digits⟩ := long_form ⟨count, by omega⟩
  rw [lengthParsing, octet_cons, ok_bind, if_neg flag, digits, if_neg (show ¬ count > 8 by omega)] at read
  obtain ⟨value, found, same⟩ := bind_eq_ok read
  injection same with same
  rw [← same]
  exact getLengthFromBuffer_eight few found

theorem not_read_back {machine : Machine} (eight : machine.ulongSize = .eight) {ulLength : Nat} (long : 0x7F < ulLength)
    (small : ulLength < 2 ^ 31) : ¬ LengthRoundTrips machine ulLength := by
  intro roundTrips
  have size : ulongSize machine = 8 := by rw [ulongSize, eight]
  have count := octetCount_le ulLength small
  have isTag : IsTag [0x30] := .short 0x30 (by decide) (by decide)
  have read := roundTrips.back [0x30] [] isTag
  rw [writeLength, if_neg (by omega), size, tagInfoParsingData_bind isTag] at read
  obtain ⟨parsed, found, same⟩ := bind_eq_ok read
  have zero := lengthParsing_eight count found
  injection same with same
  injection same with _ _ _ _ same
  omega

theorem length_round_trips {machine : Machine} {ulLength : Nat} (small : ulLength < 2 ^ 31) :
    LengthRoundTrips machine ulLength ↔ ulLength ≤ 0x7F ∨ machine.ulongSize = .four ∧ ulLength ≤ 0xFFFF := by
  constructor
  next =>
    intro roundTrips
    by_cases short : ulLength ≤ 0x7F
    · exact .inl short
    cases size : machine.ulongSize with
    | four =>
      have words : ulongSize machine = 4 := by rw [ulongSize, size]
      by_cases long : 0xFFFF < ulLength
      · have found := roundTrips.pure
        rw [words, getPureEncodedLength_none long] at found
        cases found
      · exact .inr ⟨rfl, by omega⟩
    | eight => exact absurd roundTrips (not_read_back size (by omega) small)
  next =>
    intro fits
    cases fits with
    | inl short => exact lengthRoundTrips_short short
    | inr fits => exact lengthRoundTrips_four fits.1 fits.2

theorem length_round_trips_sample : 300 < 2 ^ 31 ∧
    (LengthRoundTrips ⟨.four, true, true⟩ 300 ↔ 300 ≤ 0x7F ∨ UlongSize.four = .four ∧ 300 ≤ 0xFFFF) :=
  ⟨by decide, length_round_trips (by decide)⟩

theorem length_not_round_trips : 65536 < 2 ^ 31 ∧ ¬ LengthRoundTrips ⟨.four, true, true⟩ 65536 ∧
    ¬ LengthRoundTrips ⟨.eight, true, true⟩ 128 := by
  constructor
  next => decide
  constructor
  next =>
    intro roundTrips
    have found := roundTrips.pure
    have none : getPureEncodedLength 4 (65536 + getSizeOfEncodedLength 4 65536) = none := by decide
    rw [show ulongSize ⟨.four, true, true⟩ = 4 from rfl, none] at found
    cases found
  next => exact not_read_back rfl (by decide) (by decide)

end RoundTrip

end CcspCommon.AnscAsn1
