import CcspCommon.AnscPlatform.HexString
import CcspCommon.SlapVarConverter.VarString

set_option autoImplicit false

namespace CcspCommon.SlapVarConverter

open CcspCommon.Shared CcspCommon.AnscPlatform

section Conversion

abbrev UcharArray : Type := List UInt8

def printUchars (limit room : Nat) : Nat → UcharArray → Text → Except Failure Text
  | _, [], var_string => .ok var_string
  | i, value :: rest, var_string =>
    match printAt limit room var_string (i * 2) (hexByte value) with
    | .error failure => .error failure
    | .ok var_string => printUchars limit room (i + 1) rest var_string

def ucharArrayToString (limit : Nat) (var_uchar_array : UcharArray) : Except Failure Text :=
  if var_uchar_array.length = 0 then .error .null
  else printUchars limit (var_uchar_array.length * 2 + 1) 0 var_uchar_array []

def readUchars (machine : Machine) : Nat → Text → UcharArray
  | ulUcharCount + 1, first :: second :: rest =>
    UInt8.ofNat (getStringUlongHex machine [first, second]).toNat :: readUchars machine ulUcharCount rest
  | _, _ => []

-- `AnscSizeOfString` of NULL is a read outside of any string.
def stringToUcharArray (machine : Machine) : Option Text → Except Failure UcharArray
  | none => .error .outside
  | some var_uchar_array => .ok (readUchars machine (var_uchar_array.length / 2) var_uchar_array)

def handedOn : Except Failure Text → Except Failure (Option Text)
  | .ok var_string => .ok (some var_string)
  | .error .null => .ok none
  | .error .outside => .error .outside

end Conversion

section RoundTrip

def hexText (array : UcharArray) : Text := (array.map hexByte).flatten

theorem hexText_cons (value : UInt8) (rest : UcharArray) : hexText (value :: rest) = hexByte value ++ hexText rest := by
  rw [hexText, List.map_cons, List.flatten_cons, hexText]

theorem length_hexText (array : UcharArray) : (hexText array).length = array.length * 2 := by
  induction array with
  | nil => rfl
  | cons value rest ih =>
    rw [hexText_cons, List.length_append, ih, List.length_cons]
    change 2 + rest.length * 2 = _
    omega

theorem printUchars_ok {limit room : Nat} (taken : room ≤ limit) (array : UcharArray) {i : Nat} {var_string : Text}
    (stands : var_string.length = i * 2) (fits : i * 2 + array.length * 2 < room) :
    printUchars limit room i array var_string = .ok (var_string ++ hexText array) := by
  induction array generalizing i var_string with
  | nil => rw [printUchars, hexText, List.map_nil, List.flatten_nil, List.append_nil]
  | cons value rest ih =>
    have two : (hexByte value).length = 2 := rfl
    rw [List.length_cons] at fits
    have first := printAt_end taken var_string (show var_string.length + (hexByte value).length < room by omega)
    rw [stands] at first
    rw [printUchars, first]
    dsimp only
    rw [ih (by rw [List.length_append]; omega) (by omega), hexText_cons, List.append_assoc]

theorem readUchars_hexText (machine : Machine) (array : UcharArray) :
    readUchars machine array.length (hexText array) = array := by
  induction array with
  | nil => rfl
  | cons value rest ih =>
    have read := hexByte_read machine value
    rw [hexByte] at read
    rw [hexText_cons, hexByte]
    change UInt8.ofNat (getStringUlongHex machine [_, _]).toNat :: readUchars machine rest.length (hexText rest) = _
    rw [read, ih]

structure UcharRoundTrips (machine : Machine) (limit : Nat) (array : UcharArray) : Prop where
  fits : ∃ var_string, ucharArrayToString limit array = .ok var_string ∧ var_string.length + 1 ≤ array.length * 2 + 1
  back : handedOn (ucharArrayToString limit array) >>= stringToUcharArray machine = .ok array

theorem uchar_round_trips (machine : Machine) (limit : Nat) (array : UcharArray) :
    UcharRoundTrips machine limit array ↔ array ≠ [] ∧ array.length * 2 + 1 ≤ limit := by
  constructor
  next =>
    rintro ⟨⟨var_string, printed, _⟩, _⟩
    rw [ucharArrayToString] at printed
    cases array with
    | nil => cases printed
    | cons value rest =>
      constructor
      next => exact List.cons_ne_nil value rest
      next =>
        by_contra beyond
        rw [if_neg (by simp), printUchars, printAt, if_pos (.inl (by omega))] at printed
        cases printed
  next =>
    rintro ⟨nonempty, taken⟩
    have some : ¬ array.length = 0 := fun zero => nonempty (List.eq_nil_of_length_eq_zero zero)
    have printed : ucharArrayToString limit array = .ok (hexText array) := by
      rw [ucharArrayToString, if_neg some, printUchars_ok taken array rfl (by omega), List.nil_append]
    constructor
    next => exact ⟨hexText array, printed, by rw [length_hexText]⟩
    next =>
      rw [printed]
      change Except.ok (readUchars machine ((hexText array).length / 2) (hexText array)) = _
      rw [length_hexText, Nat.mul_div_cancel _ (by decide), readUchars_hexText]

theorem uchar_lost : ¬ UcharRoundTrips ⟨.eight, true, true⟩ 4096 [] := by
  intro roundTrips
  obtain ⟨_, printed, _⟩ := roundTrips.fits
  cases printed

end RoundTrip

end CcspCommon.SlapVarConverter
