import Mathlib.Data.ZMod.Basic
import Mathlib.Tactic.LinearCombination
import Mathlib.Tactic.Ring

set_option autoImplicit false

namespace CcspCommon.Shared

section Words

def word (littleEndian : Bool) (first second : UInt8) : Nat :=
  if littleEndian then first.toNat + 256 * second.toNat else 256 * first.toNat + second.toNat

def wordSum (littleEndian : Bool) : List UInt8 → Nat
  | [] => 0
  | [last] => word littleEndian last 0
  | first :: second :: rest => word littleEndian first second + wordSum littleEndian rest

theorem word_lt (littleEndian : Bool) (first second : UInt8) : word littleEndian first second < 65536 := by
  have small := first.toNat_lt
  have smallToo := second.toNat_lt
  cases littleEndian <;> simp only [word, if_true, Bool.false_eq_true, if_false] <;> omega

theorem word_eq_zero {littleEndian : Bool} {first second : UInt8} :
    word littleEndian first second = 0 ↔ first = 0 ∧ second = 0 := by
  rw [← UInt8.toNat_inj, ← UInt8.toNat_inj, UInt8.toNat_zero]
  cases littleEndian <;> simp only [word, if_true, Bool.false_eq_true, if_false] <;> omega

theorem wordSum_eq_zero {littleEndian : Bool} (bytes : List UInt8) :
    wordSum littleEndian bytes = 0 ↔ ∀ byte ∈ bytes, byte = 0 := by
  fun_induction wordSum littleEndian bytes with
  | case1 => simp
  | case2 last => simp [word_eq_zero]
  | case3 first second rest ih => simp [word_eq_zero, ih, and_assoc]

theorem wordSum_append {littleEndian : Bool} {front : List UInt8} (even : front.length % 2 = 0) (back : List UInt8) :
    wordSum littleEndian (front ++ back) = wordSum littleEndian front + wordSum littleEndian back := by
  fun_induction wordSum littleEndian front with
  | case1 => simp
  | case2 => cases even
  | case3 first second rest ih =>
    have evenRest : rest.length % 2 = 0 := by
      rw [List.length_cons, List.length_cons] at even
      omega
    rw [List.cons_append, List.cons_append, wordSum, ih evenRest, Nat.add_assoc]

def digits : List UInt8 → ZMod 65535
  | [] => 0
  | first :: rest => first.toNat + 256 * digits rest

def lead (littleEndian : Bool) : ZMod 65535 := if littleEndian then 1 else 256

theorem base_square : (256 : ZMod 65535) * 256 = 1 := by
  have cast : ((65536 : ℕ) : ZMod 65535) = ((1 : ℕ) : ZMod 65535) :=
    (ZMod.natCast_eq_natCast_iff' _ _ _).mpr rfl
  push_cast at cast
  linear_combination cast

theorem word_digits (littleEndian : Bool) (first second : UInt8) :
    (word littleEndian first second : ZMod 65535) = lead littleEndian * (first.toNat + 256 * second.toNat) := by
  have square := base_square
  cases littleEndian <;> simp only [word, lead, if_true, Bool.false_eq_true, if_false] <;> push_cast
  next => linear_combination (-(second.toNat : ZMod 65535)) * square
  next => ring

theorem wordSum_digits (littleEndian : Bool) (bytes : List UInt8) :
    (wordSum littleEndian bytes : ZMod 65535) = lead littleEndian * digits bytes := by
  fun_induction wordSum littleEndian bytes with
  | case1 => simp [digits]
  | case2 last =>
    rw [word_digits, digits, digits, UInt8.toNat_zero]
    push_cast
    ring
  | case3 first second rest ih =>
    rw [Nat.cast_add, word_digits, ih, digits, digits]
    linear_combination (-lead littleEndian * digits rest) * base_square

theorem digits_append (front back : List UInt8) :
    digits (front ++ back) = digits front + 256 ^ front.length * digits back := by
  induction front with
  | nil => simp [digits]
  | cons first front ih =>
    rw [List.cons_append, digits, digits, ih, List.length_cons, pow_succ]
    ring

theorem base_pow (place : Nat) : (256 : ZMod 65535) ^ place = if place % 2 = 1 then 256 else 1 := by
  induction place with
  | zero => rfl
  | succ place ih =>
    rw [pow_succ, ih]
    by_cases odd : place % 2 = 1
    next => rw [if_pos odd, if_neg (by omega), base_square]
    next => rw [if_neg odd, if_pos (by omega), one_mul]

end Words

section Pieces

def misplaced (littleEndian : Bool) : Nat → List (List UInt8) → Nat
  | _, [] => 0
  | place, piece :: rest =>
    (if place % 2 = 1 then wordSum littleEndian piece else 0) + misplaced littleEndian (place + piece.length) rest

theorem wordSum_pieces (littleEndian : Bool) (place : Nat) (pieces : List (List UInt8)) :
    256 ^ place * (wordSum littleEndian pieces.flatten : ZMod 65535) =
      ((pieces.map (wordSum littleEndian)).sum : ℕ) + 255 * misplaced littleEndian place pieces := by
  induction pieces generalizing place with
  | nil => simp [wordSum, misplaced]
  | cons piece rest ih =>
    have later := ih (place + piece.length)
    rw [wordSum_digits] at later
    rw [List.flatten_cons, wordSum_digits, digits_append, List.map_cons, List.sum_cons, misplaced]
    have here := wordSum_digits littleEndian piece
    rw [pow_add] at later
    rw [Nat.cast_add, Nat.cast_add]
    by_cases odd : place % 2 = 1
    next =>
      have power := base_pow place
      rw [if_pos odd] at power ⊢
      linear_combination later - 256 * here + (lead littleEndian * digits piece) * power
    next =>
      have power := base_pow place
      rw [if_neg odd] at power ⊢
      rw [Nat.cast_zero]
      linear_combination later - here + (lead littleEndian * digits piece) * power

end Pieces

section Folding

def fold16 (checksum : Nat) : Nat :=
  if _more : checksum >>> 16 = 0 then checksum
  else fold16 ((checksum &&& 0xFFFF) + checksum >>> 16)
termination_by checksum
decreasing_by
  have low : checksum &&& 0xFFFF = checksum % 2 ^ 16 := Nat.and_two_pow_sub_one_eq_mod checksum 16
  rw [Nat.shiftRight_eq_div_pow] at _more ⊢
  rw [low]
  omega

theorem fold16_step (checksum : Nat) : ((checksum &&& 0xFFFF) + checksum >>> 16) % 65535 = checksum % 65535 ∧
    ((checksum &&& 0xFFFF) + checksum >>> 16 = 0 ↔ checksum = 0) := by
  have low : checksum &&& 0xFFFF = checksum % 2 ^ 16 := Nat.and_two_pow_sub_one_eq_mod checksum 16
  rw [Nat.shiftRight_eq_div_pow, low]
  omega

theorem fold16_spec (checksum : Nat) :
    fold16 checksum < 65536 ∧ fold16 checksum % 65535 = checksum % 65535 ∧ (fold16 checksum = 0 ↔ checksum = 0) := by
  fun_induction fold16 checksum with
  | case1 checksum more =>
    rw [Nat.shiftRight_eq_div_pow] at more
    omega
  | case2 checksum more ih =>
    have step := fold16_step checksum
    exact ⟨ih.1, ih.2.1.trans step.1, ih.2.2.trans step.2⟩

theorem fold16_eq_iff (first second : Nat) :
    fold16 first = fold16 second ↔ first % 65535 = second % 65535 ∧ (first = 0 ↔ second = 0) := by
  have one := fold16_spec first
  have two := fold16_spec second
  constructor
  next =>
    intro same
    refine ⟨by rw [← one.2.1, ← two.2.1, same], ?_⟩
    rw [← one.2.2, ← two.2.2, same]
  next =>
    rintro ⟨residues, zeros⟩
    have zerosToo := one.2.2.trans (zeros.trans two.2.2.symm)
    omega

theorem fold16_unique {checksum folded : Nat} (some : checksum ≠ 0) (positive : 0 < folded) (small : folded < 65536)
    (same : folded % 65535 = checksum % 65535) : fold16 checksum = folded := by
  have spec := fold16_spec checksum
  have positiveToo : fold16 checksum ≠ 0 := fun zero => some (spec.2.2.mp zero)
  omega

end Folding

end CcspCommon.Shared
