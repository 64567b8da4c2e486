import CcspCommon.Shared.Text
import Mathlib.Data.Int.Basic
import Mathlib.Data.List.TakeWhile
import Mathlib.Tactic.Common
import Mathlib.Tactic.IntervalCases

set_option autoImplicit false

namespace CcspCommon.Shared

def decimal : Int → Text
  | .ofNat n => Nat.toDigits 10 n
  | .negSucc n => '-' :: Nat.toDigits 10 (n + 1)

def isSpace (c : Char) : Bool := c = ' ' || (9 ≤ c.toNat && c.toNat ≤ 13)

def leadingDigits (text : Text) : Nat := Nat.ofDigitChars 10 (text.takeWhile Char.isDigit) 0

def signedDigits : Text → Int
  | '-' :: rest => -(leadingDigits rest : Int)
  | '+' :: rest => leadingDigits rest
  | rest => leadingDigits rest

def atoi (text : Text) : Int := signedDigits (text.dropWhile isSpace)

theorem isDigit_ne {c : Char} (digit : c.isDigit = true) : isSpace c = false ∧ c ≠ '-' ∧ c ≠ '+' := by
  have large : 48 ≤ c.toNat := (Char.isDigit_iff_toNat.mp digit).1
  have differs : ∀ other : Char, other.toNat < 48 → c ≠ other := by
    rintro other small rfl
    omega
  refine ⟨?_, differs '-' (by decide), differs '+' (by decide)⟩
  have high : ¬ c.toNat ≤ 13 := by omega
  simp [isSpace, high, differs ' ' (by decide)]

theorem atoi_digit {c : Char} (digit : c.isDigit = true) (rest : Text) :
    atoi (c :: rest) = leadingDigits (c :: rest) := by
  obtain ⟨notSpace, notMinus, notPlus⟩ := isDigit_ne digit
  rw [atoi, List.dropWhile_cons_of_neg (by rw [notSpace]; exact Bool.false_ne_true), signedDigits]
  · intro later equal
    exact notMinus (List.cons.inj equal).1
  · intro later equal
    exact notPlus (List.cons.inj equal).1

theorem leadingDigits_toDigits (n : Nat) : leadingDigits (Nat.toDigits 10 n) = n := by
  have all : (Nat.toDigits 10 n).takeWhile Char.isDigit = Nat.toDigits 10 n :=
    List.takeWhile_eq_self_iff.mpr fun c member =>
      Nat.isDigit_of_mem_toDigits (by decide) (by decide) member
  rw [leadingDigits, all, Nat.ofDigitChars_ten_toDigits]

theorem toDigits_head (n : Nat) : ∃ c rest, Nat.toDigits 10 n = c :: rest ∧ c.isDigit = true := by
  cases digits : Nat.toDigits 10 n with
  | nil => exact absurd digits Nat.toDigits_ne_nil
  | cons c rest =>
    refine ⟨c, rest, rfl, Nat.isDigit_of_mem_toDigits (b := 10) (n := n) (by decide) (by decide) ?_⟩
    rw [digits]
    exact List.mem_cons_self

@[simp] theorem atoi_decimal (value : Int) : atoi (decimal value) = value := by
  cases value with
  | ofNat n =>
    obtain ⟨c, rest, digits, digit⟩ := toDigits_head n
    have whole := leadingDigits_toDigits n
    rw [digits] at whole
    rw [decimal, digits, atoi_digit digit, whole]
    rfl
  | negSucc n =>
    have space : isSpace '-' = false := by decide
    simp only [atoi, decimal, List.dropWhile_cons, space, Bool.false_eq_true, if_false, signedDigits]
    rw [leadingDigits_toDigits]
    omega

theorem head_decimal_ne_zero {n : Nat} (positive : 0 < n) : (decimal n).head? ≠ some '0' := by
  change (Nat.toDigits 10 n).head? ≠ some '0'
  induction n using Nat.strongRecOn with
  | ind n ih =>
    by_cases single : n < 10
    · rw [Nat.toDigits_of_lt_base single]
      interval_cases n <;> decide
    · rw [Nat.toDigits_of_base_le (by decide) (by omega), List.head?_append_of_ne_nil _ Nat.toDigits_ne_nil]
      exact ih (n / 10) (by omega) (by omega)

theorem decimal_injective : Function.Injective decimal := by
  intro first second same
  rw [← atoi_decimal first, same, atoi_decimal]

end CcspCommon.Shared
