import Mathlib.Data.Nat.Basic
import Mathlib.Tactic.Ring
import Mathlib.Tactic.Linarith

set_option autoImplicit false

namespace CcspCommon.Shared

section TwosComplement

def unsignedValue : List UInt8 → Nat
  | [] => 0
  | octet :: rest => octet.toNat * 256 ^ rest.length + unsignedValue rest

def signedValue (octets : List UInt8) : Int :=
  if octets.headD 0 < 0x80 then unsignedValue octets else unsignedValue octets - 256 ^ octets.length

structure IsMinimal (octets : List UInt8) (value : Int) : Prop where
  some : octets ≠ []
  same : signedValue octets = value
  least : ∀ others, others ≠ [] → signedValue others = value → octets.length ≤ others.length

theorem unsignedValue_lt (octets : List UInt8) : unsignedValue octets < 256 ^ octets.length := by
  induction octets with
  | nil => decide
  | cons octet rest ih =>
    have digit : (octet.toNat + 1) * 256 ^ rest.length ≤ 256 * 256 ^ rest.length :=
      Nat.mul_le_mul_right _ octet.toNat_lt
    rw [Nat.add_mul, Nat.one_mul] at digit
    rw [unsignedValue, List.length_cons, Nat.pow_succ, Nat.mul_comm (256 ^ rest.length)]
    omega

theorem unsignedValue_zeros (count : Nat) (octets : List UInt8) :
    unsignedValue (List.replicate count 0 ++ octets) = unsignedValue octets := by
  induction count with
  | zero => rfl
  | succ count ih =>
    rw [List.replicate_succ, List.cons_append, unsignedValue, ih, UInt8.toNat_zero, Nat.zero_mul, Nat.zero_add]

theorem signedValue_bounds (octet : UInt8) (rest : List UInt8) :
    -(128 * 256 ^ rest.length : Int) ≤ signedValue (octet :: rest) ∧
      signedValue (octet :: rest) < 128 * 256 ^ rest.length := by
  have below := unsignedValue_lt rest
  have cast : ((256 ^ rest.length : Nat) : Int) = 256 ^ rest.length := Nat.cast_pow 256 rest.length
  have whole : (unsignedValue (octet :: rest) : Int) = octet.toNat * 256 ^ rest.length + unsignedValue rest := by
    rw [unsignedValue, Nat.cast_add, Nat.cast_mul, cast]
  have belowInt : (unsignedValue rest : Int) < 256 ^ rest.length := by
    rw [← cast]
    exact_mod_cast below
  have size : (256 : Int) ^ (octet :: rest).length = 256 * 256 ^ rest.length := by
    rw [List.length_cons, pow_succ]
    ring
  have positive : (0 : Int) < 256 ^ rest.length := by positivity
  have byte : (octet.toNat : Int) < 256 := by exact_mod_cast octet.toNat_lt
  rw [signedValue, List.headD_cons, whole, size]
  by_cases low : octet < 0x80
  · have small : (octet.toNat : Int) ≤ 127 := by
      have := UInt8.lt_iff_toNat_lt.mp low
      have bound : (0x80 : UInt8).toNat = 128 := rfl
      omega
    rw [if_pos low]
    constructor <;> nlinarith
  · have large : (128 : Int) ≤ octet.toNat := by
      have := UInt8.le_iff_toNat_le.mp (UInt8.not_lt.mp low)
      have bound : (0x80 : UInt8).toNat = 128 := rfl
      omega
    rw [if_neg low]
    constructor <;> nlinarith

theorem isMinimal_of {octet : UInt8} {rest : List UInt8} {value : Int} (same : signedValue (octet :: rest) = value)
    (large : ∀ fewer, fewer < rest.length → ¬ (-(128 * 256 ^ fewer : Int) ≤ value ∧ value < 128 * 256 ^ fewer)) :
    IsMinimal (octet :: rest) value := by
  constructor
  case some => exact List.cons_ne_nil octet rest
  case same => exact same
  case least =>
    intro others nonempty known
    obtain ⟨first, later, rfl⟩ := List.exists_cons_of_ne_nil nonempty
    by_contra less
    rw [List.length_cons, List.length_cons] at less
    have bounds := signedValue_bounds first later
    rw [known] at bounds
    exact large later.length (by omega) bounds

end TwosComplement

end CcspCommon.Shared
