import CcspCommon.AnscPlatform.AnscString

set_option autoImplicit false

namespace CcspCommon.AnscPlatform

open CcspCommon.Shared

section Reading

-- One turn of the loop; a character that is no digit leaves `char_value` as it is.
def addHexDigit (machine : Machine) (c : Char) :
    machine.Ulong × machine.Ulong × machine.Ulong → machine.Ulong × machine.Ulong × machine.Ulong
  | (total_value, char_value, hex_times) =>
    let char_value := if isHexAlphaOrDigit c then BitVec.ofNat _ (hexDigit c) else char_value
    (total_value + char_value * hex_times, char_value, hex_times * 16)

def getStringUlongHex (machine : Machine) (ulong_str_hex : Text) : machine.Ulong :=
  if 10 < ulong_str_hex.length then 0 else (ulong_str_hex.foldr (addHexDigit machine) (0, 0, 1)).1

def hexValue (last : Nat) (c : Char) : Nat := if isHexAlphaOrDigit c then hexDigit c else last

theorem hexDigit_lt {c : Char} (hex : isHexAlphaOrDigit c = true) : hexDigit c < 16 := by
  simp only [isHexAlphaOrDigit, isHexAlpha, Bool.or_eq_true, Bool.and_eq_true, decide_eq_true_eq, Char.le_def,
    UInt32.le_iff_toNat_le, Char.toNat_val, Char.reduceVal, UInt32.reduceToNat] at hex
  rw [hexDigit]
  have upperA : 'A'.toNat = 65 := rfl
  have lowerA : 'a'.toNat = 97 := rfl
  have zero : '0'.toNat = 48 := rfl
  by_cases digit : c.isDigit = true
  next =>
    obtain ⟨_, high⟩ := Char.isDigit_iff_toNat.mp digit
    have most : c.toNat ≤ 57 := high
    rw [if_pos digit]
    omega
  next =>
    simp only [digit, Bool.false_eq_true, or_false] at hex
    rw [if_neg digit]
    by_cases upper : isUpAlpha c = true
    next =>
      rw [if_pos upper]
      simp only [isUpAlpha, Bool.and_eq_true, decide_eq_true_eq, Char.le_def, UInt32.le_iff_toNat_le, Char.toNat_val,
        Char.reduceVal, UInt32.reduceToNat] at upper
      omega
    next =>
      rw [if_neg upper]
      simp only [isUpAlpha, Bool.and_eq_true, decide_eq_true_eq, Char.le_def, UInt32.le_iff_toNat_le, Char.toNat_val,
        Char.reduceVal, UInt32.reduceToNat] at upper
      omega

theorem addHexDigit_eq (machine : Machine) (c : Char) (total last times : Nat) :
    addHexDigit machine c (BitVec.ofNat _ total, BitVec.ofNat _ last, BitVec.ofNat _ times) =
      (BitVec.ofNat _ (total + hexValue last c * times), BitVec.ofNat _ (hexValue last c),
        BitVec.ofNat _ (times * 16)) := by
  rw [addHexDigit, hexValue]
  split_ifs <;> simp [BitVec.ofNat_add, BitVec.ofNat_mul]

theorem getStringUlongHex_nil (machine : Machine) : getStringUlongHex machine [] = BitVec.ofNat _ 0 := rfl

theorem getStringUlongHex_one (machine : Machine) (c : Char) :
    getStringUlongHex machine [c] = BitVec.ofNat _ (hexValue 0 c) := by
  have step := addHexDigit_eq machine c 0 0 1
  change (addHexDigit machine c (BitVec.ofNat _ 0, BitVec.ofNat _ 0, BitVec.ofNat _ 1)).1 = _
  rw [step, Nat.zero_add, Nat.mul_one]

theorem getStringUlongHex_two (machine : Machine) (c d : Char) :
    getStringUlongHex machine [c, d] = BitVec.ofNat _ (hexValue 0 d + hexValue (hexValue 0 d) c * 16) := by
  have last := addHexDigit_eq machine d 0 0 1
  have first := addHexDigit_eq machine c (0 + hexValue 0 d * 1) (hexValue 0 d) (1 * 16)
  change (addHexDigit machine c (addHexDigit machine d (BitVec.ofNat _ 0, BitVec.ofNat _ 0, BitVec.ofNat _ 1))).1 = _
  rw [last, first, Nat.zero_add, Nat.mul_one, Nat.one_mul]

end Reading

section Octets

def hexChar (value : Nat) : Char := if value < 10 then Char.ofNat (48 + value) else Char.ofNat (55 + value)

def hexByte (value : UInt8) : Text := [hexChar (value.toNat / 16), hexChar (value.toNat % 16)]

theorem hexChar_digit : ∀ value : Fin 16,
    isHexAlphaOrDigit (hexChar value) = true ∧ hexDigit (hexChar value) = value := by decide

theorem hexValue_hexChar (last : Nat) {value : Nat} (small : value < 16) : hexValue last (hexChar value) = value := by
  obtain ⟨hex, same⟩ := hexChar_digit ⟨value, small⟩
  rw [hexValue, if_pos hex, same]

theorem hexByte_read (machine : Machine) (value : UInt8) :
    UInt8.ofNat (getStringUlongHex machine (hexByte value)).toNat = value := by
  have size := machine.ulongSize.bits_ge
  have small := value.toNat_lt
  have room : 2 ^ 32 ≤ 2 ^ machine.ulongSize.bits := Nat.pow_le_pow_right (by decide) size
  rw [hexByte, getStringUlongHex_two, hexValue_hexChar _ (by omega), hexValue_hexChar _ (by omega), BitVec.toNat_ofNat,
    Nat.mod_eq_of_lt (by omega), Nat.add_comm, Nat.div_add_mod', UInt8.ofNat_toNat]

end Octets

end CcspCommon.AnscPlatform
