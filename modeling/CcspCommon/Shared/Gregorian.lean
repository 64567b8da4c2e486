import Mathlib

set_option autoImplicit false

namespace CcspCommon.Shared

section Parts

def partOf : List Nat → Nat → Nat × Nat
  | [], place => (0, place)
  | size :: sizes, place =>
    if place < size then (0, place)
    else ((partOf sizes (place - size)).1 + 1, (partOf sizes (place - size)).2)

theorem partOf_spec {sizes : List Nat} {place : Nat} (within : place < sizes.sum) :
    (partOf sizes place).1 < sizes.length ∧ (partOf sizes place).2 < sizes.getD (partOf sizes place).1 0 ∧
      (sizes.take (partOf sizes place).1).sum + (partOf sizes place).2 = place := by
  induction sizes generalizing place with
  | nil => exact absurd within (Nat.not_lt_zero place)
  | cons size sizes ih =>
    rw [partOf]
    split
    next inside => exact ⟨Nat.succ_pos _, inside, Nat.zero_add place⟩
    next behind =>
      rw [List.sum_cons] at within
      have left : place - size < sizes.sum := by omega
      obtain ⟨some, part, whole⟩ := ih left
      refine ⟨Nat.succ_lt_succ some, part, ?_⟩
      rw [List.take_succ_cons, List.sum_cons]
      omega

end Parts

section Years

def isLeapYear (year : Int) : Bool := year % 4 = 0 && (year % 100 ≠ 0 || year % 400 = 0)

def daysInYear (year : Int) : Nat := if isLeapYear year then 366 else 365

def monthLengths (leap : Bool) : List Nat := [31, if leap then 29 else 28, 31, 30, 31, 30, 31, 31, 30, 31, 30, 31]

theorem monthLengths_sum (year : Int) : (monthLengths (isLeapYear year)).sum = daysInYear year := by
  rw [daysInYear]
  cases isLeapYear year <;> rfl

def daysToYear (year : Int) : Int :=
  365 * (year - 1970) + ((year - 1) / 4 - (year - 1) / 100 + (year - 1) / 400 - 477)

theorem daysToYear_succ (year : Int) : daysToYear (year + 1) = daysToYear year + daysInYear year := by
  rw [daysToYear, daysToYear, daysInYear]
  split
  next leap =>
    simp only [isLeapYear, Bool.and_eq_true, Bool.or_eq_true, decide_eq_true_eq] at leap
    omega
  next leap =>
    simp only [isLeapYear, Bool.and_eq_true, Bool.or_eq_true, decide_eq_true_eq] at leap
    omega

theorem daysToYear_cycle (year cycle : Int) : daysToYear (year + 400 * cycle) = daysToYear year + 146097 * cycle := by
  rw [daysToYear, daysToYear]
  omega

theorem daysInYear_cycle (year cycle : Int) : daysInYear (year + 400 * cycle) = daysInYear year := by
  have next := daysToYear_succ (year + 400 * cycle)
  have same := daysToYear_succ year
  have shifted : year + 400 * cycle + 1 = year + 1 + 400 * cycle := by omega
  rw [shifted, daysToYear_cycle, daysToYear_cycle] at next
  omega

end Years

section Days

def yearLengths : List Nat := (List.range 400).map fun years : Nat => daysInYear (1970 + years)

theorem yearLengths_take {years : Nat} (few : years ≤ 400) :
    ((yearLengths.take years).sum : Int) = daysToYear (1970 + years) := by
  rw [yearLengths, ← List.map_take, List.take_range, Nat.min_eq_left few]
  clear few
  induction years with
  | zero => rfl
  | succ years ih =>
    have next := daysToYear_succ (1970 + years)
    rw [List.range_succ, List.map_append, List.sum_append, List.map_singleton, List.sum_singleton, Int.natCast_add, ih,
      ← next, Int.natCast_succ, Int.add_assoc]

theorem yearLengths_sum : yearLengths.sum = 146097 := by
  have whole := yearLengths_take (Nat.le_refl 400)
  have size : yearLengths.length = 400 := by rw [yearLengths, List.length_map, List.length_range]
  rw [List.take_of_length_le (Nat.le_of_eq size)] at whole
  have last : daysToYear (1970 + (400 : Nat)) = 146097 := by decide
  omega

variable (days : Int)

def yearOf : Int := 1970 + (partOf yearLengths (days % 146097).toNat).1 + 400 * (days / 146097)

def dayOfYear : Nat := (partOf yearLengths (days % 146097).toNat).2

theorem yearOf_spec : dayOfYear days < daysInYear (yearOf days) ∧ daysToYear (yearOf days) + dayOfYear days = days := by
  have within : (days % 146097).toNat < yearLengths.sum := by
    rw [yearLengths_sum]
    omega
  obtain ⟨some, part, whole⟩ := partOf_spec within
  have few : (partOf yearLengths (days % 146097).toNat).1 < 400 := by
    rw [yearLengths, List.length_map, List.length_range] at some
    exact some
  have before := yearLengths_take (Nat.le_of_lt few)
  rw [yearOf, dayOfYear, daysInYear_cycle, daysToYear_cycle, ← before]
  constructor
  next =>
    have length : yearLengths.getD (partOf yearLengths (days % 146097).toNat).1 0 =
        daysInYear (1970 + (partOf yearLengths (days % 146097).toNat).1) := by
      rw [List.getD_eq_getElem?_getD, List.getElem?_eq_getElem some, Option.getD_some]
      exact (List.getElem_map _).trans (by rw [List.getElem_range])
    exact Nat.lt_of_lt_of_eq part length
  next => omega

structure Date where
  year : Int
  month : Nat
  day : Nat
  inYear : month < 12
  inMonth : day < (monthLengths (isLeapYear year)).getD month 0

def Date.dayNumber (date : Date) : Int :=
  daysToYear date.year + ((monthLengths (isLeapYear date.year)).take date.month).sum + date.day

def monthAndDay : Nat × Nat := partOf (monthLengths (isLeapYear (yearOf days))) (dayOfYear days)

theorem monthAndDay_spec : (monthAndDay days).1 < 12 ∧
    (monthAndDay days).2 < (monthLengths (isLeapYear (yearOf days))).getD (monthAndDay days).1 0 ∧
      ((monthLengths (isLeapYear (yearOf days))).take (monthAndDay days).1).sum + (monthAndDay days).2 =
        dayOfYear days := by
  refine partOf_spec ?_
  rw [monthLengths_sum]
  exact (yearOf_spec days).1

def dateOf : Date where
  year := yearOf days
  month := (monthAndDay days).1
  day := (monthAndDay days).2
  inYear := (monthAndDay_spec days).1
  inMonth := (monthAndDay_spec days).2.1

theorem dayNumber_dateOf : (dateOf days).dayNumber = days := by
  have year := (yearOf_spec days).2
  have month := (monthAndDay_spec days).2.2
  rw [Date.dayNumber, dateOf]
  dsimp only
  omega

end Days

end CcspCommon.Shared
