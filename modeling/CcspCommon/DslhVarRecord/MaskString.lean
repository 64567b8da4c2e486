import CcspCommon.AnscPlatform.AnscString
import CcspCommon.AnscPlatform.DList

set_option autoImplicit false

namespace CcspCommon.DslhVarRecord

open CcspCommon.Shared CcspCommon.AnscPlatform

def maskValue (machine : Machine) (tokens : List Text) : machine.Ulong :=
  tokens.foldl (fun ulMaskValue token => (ulMaskValue <<< 8) + getStringUlong machine token) 0

-- The loop that shifts the zeros out, for as many turns as there are bits.
def shiftOut (machine : Machine) : Nat → Nat → machine.Ulong → Nat × machine.Ulong
  | 0, i, ulMaskValue => (i, ulMaskValue)
  | turns + 1, i, ulMaskValue =>
    if ulMaskValue &&& 1 ≠ 0 then (i, ulMaskValue) else shiftOut machine turns (i + 1) (ulMaskValue >>> 1)

def validBits (machine : Machine) (ulMaskValue : machine.Ulong) : Bool :=
  if ulMaskValue = 0 then true
  else
    let (i, ulMaskValue) := shiftOut machine machine.ulongSize.bits 0 ulMaskValue
    if 24 < i then false
    else (i = 0 && ~~~((0 : machine.Ulong) ^^^ ulMaskValue) = 0) ||
      ~~~((~~~(0 : machine.Ulong) <<< (31 - i)) ^^^ ulMaskValue) = 0

def isValidMaskString (machine : Machine) : Option Text → Bool
  | none => true
  | some pStringValue =>
    if pStringValue.length = 0 then true
    else
      match tcAllocate '.' pStringValue with
      | none => false
      -- the depth of the queue is a `USHORT`
      | some tokens => if ushort tokens.length ≠ 4 then false else validBits machine (maskValue machine tokens)

section Bits

variable {w : Nat}

theorem odd_part_unique {i j m n : Nat} (oddFirst : m % 2 = 1) (oddSecond : n % 2 = 1)
    (same : 2 ^ i * m = 2 ^ j * n) : i = j ∧ m = n := by
  induction i generalizing j with
  | zero =>
    cases j with
    | zero => simpa using same
    | succ j =>
      rw [Nat.pow_succ, Nat.mul_assoc, Nat.mul_left_comm] at same
      omega
  | succ i ih =>
    cases j with
    | zero =>
      rw [Nat.pow_succ, Nat.mul_assoc, Nat.mul_left_comm] at same
      omega
    | succ j =>
      have halved : 2 ^ i * m = 2 ^ j * n := by
        rw [Nat.pow_succ, Nat.pow_succ, Nat.mul_assoc, Nat.mul_assoc, Nat.mul_left_comm,
          Nat.mul_left_comm (2 ^ j)] at same
        omega
      obtain ⟨rfl, equal⟩ := ih halved
      exact ⟨rfl, equal⟩

theorem and_one_ne_zero (wide : 1 < w) (value : BitVec w) : value &&& 1 ≠ 0 ↔ value.toNat % 2 = 1 := by
  have one : (1 : BitVec w).toNat = 1 := BitVec.toNat_one (by omega)
  rw [ne_eq, ← BitVec.toNat_inj, BitVec.toNat_and, one, Nat.and_one_is_mod]
  simp

theorem shiftOut_spec {machine : Machine} {turns i : Nat} {value : machine.Ulong} (nonzero : value.toNat ≠ 0)
    (small : value.toNat < 2 ^ turns) :
    ∃ zeros odd, shiftOut machine turns i value = (i + zeros, odd) ∧ value.toNat = 2 ^ zeros * odd.toNat ∧
      odd.toNat % 2 = 1 := by
  have wide : 1 < machine.ulongSize.bits := Nat.lt_of_lt_of_le (by decide) machine.ulongSize.bits_ge
  induction turns generalizing i value with
  | zero =>
    rw [Nat.pow_zero] at small
    omega
  | succ turns ih =>
    by_cases odd : value &&& 1 ≠ 0
    next => exact ⟨0, value, by rw [shiftOut, if_pos odd]; rfl, by simp, (and_one_ne_zero wide value).mp odd⟩
    next =>
      have even : value.toNat % 2 ≠ 1 := fun last => odd ((and_one_ne_zero wide value).mpr last)
      have half : (value >>> 1).toNat = value.toNat / 2 := by
        rw [BitVec.toNat_ushiftRight, Nat.shiftRight_eq_div_pow, Nat.pow_one]
      rw [Nat.pow_succ] at small
      obtain ⟨zeros, rest, result, product, last⟩ := @ih (i + 1) (value >>> 1) (by omega) (by omega)
      refine ⟨zeros + 1, rest, ?_, ?_, last⟩
      · rw [shiftOut, if_neg odd, result, Nat.add_right_comm, Nat.add_assoc]
      · rw [Nat.pow_succ, Nat.mul_right_comm, ← product, half]
        omega

theorem not_xor_eq_zero (first second : BitVec w) : ~~~(first ^^^ second) = 0 ↔ second = ~~~first := by
  rw [BitVec.not_xor_left]
  exact BitVec.xor_eq_zero_iff.trans eq_comm

theorem toNat_pattern {k : Nat} (within : k < w) : (~~~(~~~(0 : BitVec w) <<< k)).toNat = 2 ^ k - 1 := by
  have ones : (~~~(0 : BitVec w)).toNat = 2 ^ w - 1 := by simp
  have split : (2 ^ w - 1) * 2 ^ k = (2 ^ w - 2 ^ k) + (2 ^ k - 1) * 2 ^ w := by
    have below : 2 ^ k ≤ 2 ^ w := Nat.pow_le_pow_right (by decide) (by omega)
    have positive : 0 < 2 ^ k := Nat.two_pow_pos k
    rw [Nat.sub_mul, Nat.sub_mul, Nat.one_mul, Nat.one_mul, Nat.mul_comm (2 ^ k)]
    have large : 2 ^ w ≤ 2 ^ w * 2 ^ k := Nat.le_mul_of_pos_right _ positive
    omega
  have below : 2 ^ k < 2 ^ w := Nat.pow_lt_pow_right (by decide) within
  have positive : 0 < 2 ^ k := Nat.two_pow_pos k
  rw [BitVec.toNat_not, BitVec.toNat_shiftLeft, ones, Nat.shiftLeft_eq, split, Nat.add_mul_mod_self_right,
    Nat.mod_eq_of_lt (by omega)]
  omega

end Bits

section Accepted

variable {machine : Machine}

-- The numbers that pass: zero, all ones, and ones up to the bit 30 with at most 24 zeros behind them.
def PassingNumber (machine : Machine) (value : machine.Ulong) : Prop :=
  value = 0 ∨ value = ~~~0 ∨ ∃ zeros, zeros ≤ 24 ∧ value.toNat + 2 ^ zeros = 2 ^ 31

theorem block_product {zeros : Nat} (few : zeros ≤ 24) : 2 ^ zeros * (2 ^ (31 - zeros) - 1) + 2 ^ zeros = 2 ^ 31 := by
  have whole : 2 ^ zeros * 2 ^ (31 - zeros) = 2 ^ 31 := by
    rw [← Nat.pow_add]
    congr 1
    omega
  have least : 2 ^ zeros ≤ 2 ^ zeros * 2 ^ (31 - zeros) := Nat.le_mul_of_pos_right _ (Nat.two_pow_pos _)
  rw [Nat.mul_sub, Nat.mul_one, whole]
  omega

theorem odd_ones {k : Nat} (positive : 0 < k) : (2 ^ k - 1) % 2 = 1 := by
  obtain ⟨k, rfl⟩ := Nat.exists_eq_add_of_le' positive
  have least : 0 < 2 ^ k := Nat.two_pow_pos k
  rw [Nat.pow_succ]
  omega

theorem validBits_shape {value : machine.Ulong} (nonzero : value ≠ 0) {zeros : Nat} {odd : machine.Ulong}
    (result : shiftOut machine machine.ulongSize.bits 0 value = (zeros, odd)) :
    validBits machine value = true ↔
      zeros ≤ 24 ∧ ((zeros = 0 ∧ odd = ~~~0) ∨ odd.toNat = 2 ^ (31 - zeros) - 1) := by
  have wide := machine.ulongSize.bits_ge
  have pattern := toNat_pattern (w := machine.ulongSize.bits) (k := 31 - zeros) (by omega)
  rw [validBits, if_neg nonzero, result, ← pattern, BitVec.toNat_inj]
  by_cases many : 24 < zeros
  next => simp [many, Nat.not_le_of_lt many]
  next =>
    simp only [many, if_false, Bool.or_eq_true, Bool.and_eq_true, decide_eq_true_eq, not_xor_eq_zero,
      Nat.le_of_not_lt many, true_and]

theorem validBits_iff (value : machine.Ulong) : validBits machine value = true ↔ PassingNumber machine value := by
  by_cases zero : value = 0
  next => simp [validBits, PassingNumber, zero]
  next =>
    have wide := machine.ulongSize.bits_ge
    have nonzero : value.toNat ≠ 0 := fun nothing => zero (BitVec.eq_of_toNat_eq (by simpa using nothing))
    obtain ⟨zeros, odd, result, product, last⟩ := shiftOut_spec (i := 0) nonzero value.isLt
    rw [Nat.zero_add] at result
    rw [validBits_shape zero result, PassingNumber, or_iff_right zero]
    constructor
    · rintro ⟨few, ⟨rfl, ones⟩ | block⟩
      · rw [Nat.pow_zero, Nat.one_mul, BitVec.toNat_inj] at product
        exact .inl (product.trans ones)
      · refine .inr ⟨zeros, few, ?_⟩
        rw [product, block, block_product few]
    · rintro (ones | ⟨k, few, sum⟩)
      · have number : value.toNat = 2 ^ 0 * (2 ^ machine.ulongSize.bits - 1) := by simp [ones]
        obtain ⟨rfl, _⟩ := odd_part_unique last (odd_ones (by omega)) (product.symm.trans number)
        rw [Nat.pow_zero, Nat.one_mul, BitVec.toNat_inj] at product
        exact ⟨Nat.zero_le _, .inl ⟨rfl, product ▸ ones⟩⟩
      · have number : value.toNat = 2 ^ k * (2 ^ (31 - k) - 1) := by
          have whole := block_product few
          omega
        obtain ⟨rfl, block⟩ := odd_part_unique last (odd_ones (by omega)) (product.symm.trans number)
        exact ⟨few, .inr block⟩

end Accepted

section Masks

def MaskText (text : Text) : Prop := ∃ ones, 8 ≤ ones ∧ ones ≤ 32 ∧ text = quadText (2 ^ 32 - 2 ^ (32 - ones))

def MaskOrNone (text : Text) : Prop := text = [] ∨ text = quadText 0 ∨ MaskText text

def PassingFields (machine : Machine) (text : Text) : Prop :=
  ∃ fields, tcAllocate '.' text = some fields ∧ ushort fields.length = 4 ∧
    PassingNumber machine (maskValue machine fields)

def MaskCheckExact (machine : Machine) (text : Text) : Prop :=
  isValidMaskString machine (some text) = true ↔ MaskOrNone text

variable {machine : Machine} {text : Text}

theorem isValidMaskString_iff :
    isValidMaskString machine (some text) = true ↔ text = [] ∨ PassingFields machine text := by
  by_cases empty : text = []
  next => simp [isValidMaskString, empty]
  next =>
    have long : text.length ≠ 0 := fun nothing => empty (List.length_eq_zero_iff.mp nothing)
    rw [or_iff_right empty, PassingFields, isValidMaskString, if_neg long]
    cases tcAllocate '.' text with
    | none => simp
    | some fields =>
      simp only [Option.some.injEq, exists_eq_left', ← validBits_iff]
      by_cases four : ushort fields.length = 4 <;> simp [four]

theorem toNat_shift_add {w : Nat} (value : BitVec w) {octet : Nat} (fits : value.toNat * 256 + octet < 2 ^ w) :
    ((value <<< 8) + BitVec.ofNat w octet).toNat = value.toNat * 256 + octet := by
  rw [BitVec.toNat_add, BitVec.toNat_shiftLeft, BitVec.toNat_ofNat, Nat.shiftLeft_eq, ← Nat.add_mod]
  exact Nat.mod_eq_of_lt fits

theorem toNat_maskValue {address : Nat} (small : address < 2 ^ 32) :
    (maskValue machine (octetTexts address)).toNat = address := by
  have wide : 2 ^ 32 ≤ 2 ^ machine.ulongSize.bits :=
    Nat.pow_le_pow_right (by decide) machine.ulongSize.bits_ge
  have texts : octetTexts address = [decimal (address / 16777216 % 256 : Nat), decimal (address / 65536 % 256 : Nat),
      decimal (address / 256 % 256 : Nat), decimal (address % 256 : Nat)] := rfl
  have first : (((0 : machine.Ulong) <<< 8) + BitVec.ofNat _ (address / 16777216 % 256)).toNat =
      address / 16777216 % 256 := by
    rw [toNat_shift_add _ (by simp; omega)]
    simp
  simp only [maskValue, texts, List.foldl_cons, List.foldl_nil,
    getStringUlong_decimal machine (Nat.mod_lt _ (by decide : 256 > 0))]
  have second := @toNat_shift_add machine.ulongSize.bits
    (((0 : machine.Ulong) <<< 8) + BitVec.ofNat _ (address / 16777216 % 256)) (address / 65536 % 256)
    (by rw [first]; omega)
  rw [first] at second
  have third := @toNat_shift_add machine.ulongSize.bits _ (address / 256 % 256) (by rw [second]; omega)
  rw [second] at third
  rw [toNat_shift_add _ (by rw [third]; omega), third]
  omega

theorem passingFields_quadText {address : Nat} (small : address < 2 ^ 32) :
    PassingFields machine (quadText address) ↔
      address = 0 ∨ address = 2 ^ machine.ulongSize.bits - 1 ∨ ∃ zeros, zeros ≤ 24 ∧ address + 2 ^ zeros = 2 ^ 31 := by
  have number := @toNat_maskValue machine address small
  have depth : ushort (octetTexts address).length = 4 := rfl
  have ones : (~~~(0 : machine.Ulong)).toNat = 2 ^ machine.ulongSize.bits - 1 := by simp
  have zero : (0 : machine.Ulong).toNat = 0 := BitVec.toNat_zero
  simp only [PassingFields, tcAllocate_quadText, Option.some.injEq, exists_eq_left', depth, true_and, PassingNumber,
    ← BitVec.toNat_inj, number, ones, zero]

theorem passingFields_mask {ones : Nat} (least : 8 ≤ ones) (most : ones ≤ 32) :
    PassingFields machine (quadText (2 ^ 32 - 2 ^ (32 - ones))) ↔ machine.ulongSize = .four ∧ ones = 32 := by
  have positive : 0 < 2 ^ (32 - ones) := Nat.two_pow_pos _
  have bound : 2 ^ (32 - ones) ≤ 2 ^ 24 := Nat.pow_le_pow_right (by decide) (by omega)
  rw [passingFields_quadText (by omega)]
  constructor
  · rintro (nothing | all | ⟨zeros, _, sum⟩)
    · omega
    · cases size : machine.ulongSize with
      | four =>
        rw [size, UlongSize.bits] at all
        refine ⟨rfl, ?_⟩
        have one : 2 ^ (32 - ones) = 2 ^ 0 := by omega
        have same := Nat.pow_right_injective (Nat.le_refl 2) one
        omega
      | eight =>
        rw [size, UlongSize.bits] at all
        omega
    · have positiveZeros : 0 < 2 ^ zeros := Nat.two_pow_pos _
      omega
  · rintro ⟨size, rfl⟩
    exact .inr (.inl (by rw [size]; rfl))

theorem maskCheck_exact_iff (machine : Machine) (text : Text) :
    MaskCheckExact machine text ↔
      text = [] ∨ text = quadText 0 ∨ (machine.ulongSize = .four ∧ text = quadText (2 ^ 32 - 1)) ∨
        (¬ MaskText text ∧ ¬ PassingFields machine text) := by
  rw [MaskCheckExact, isValidMaskString_iff, MaskOrNone]
  by_cases empty : text = []
  · simp [empty]
  by_cases zero : text = quadText 0
  · have passes : PassingFields machine text := by
      rw [zero, passingFields_quadText (by decide)]
      exact .inl rfl
    exact ⟨fun _ => .inr (.inl zero), fun _ => ⟨fun _ => .inr (.inl zero), fun _ => .inr passes⟩⟩
  simp only [empty, zero, false_or]
  by_cases mask : MaskText text
  next =>
    simp only [mask, iff_true, not_true_eq_false, false_and, or_false]
    obtain ⟨ones, least, most, rfl⟩ := mask
    rw [passingFields_mask least most]
    constructor
    · rintro ⟨size, rfl⟩
      exact ⟨size, rfl⟩
    · rintro ⟨size, same⟩
      refine ⟨size, ?_⟩
      have positive : 0 < 2 ^ (32 - ones) := Nat.two_pow_pos _
      have below : 2 ^ (32 - ones) ≤ 2 ^ 24 := Nat.pow_le_pow_right (by decide) (by omega)
      have number := quadText_injective (by omega) (by decide) same
      have one : 2 ^ (32 - ones) = 2 ^ 0 := by omega
      have exponent := Nat.pow_right_injective (Nat.le_refl 2) one
      omega
  next =>
    have full : text ≠ quadText (2 ^ 32 - 1) := fun same => mask ⟨32, by decide, by decide, same⟩
    simp only [mask, full, iff_false, and_false, false_or, not_false_eq_true, true_and]

theorem proper_mask_is_rejected : ¬ MaskCheckExact ⟨.eight, true, true⟩ "255.255.255.0".toList := by
  intro agrees
  have mask : MaskOrNone "255.255.255.0".toList := .inr (.inr ⟨24, by decide, by decide, by decide⟩)
  exact absurd (agrees.mpr mask) (by decide)

end Masks

end CcspCommon.DslhVarRecord
