import CcspCommon.AnscPlatform.AnscString
import CcspCommon.Shared.Gregorian

set_option autoImplicit false

namespace CcspCommon.AnscPlatform

open CcspCommon.Shared

section Library

structure Tm where
  tmSec : Int
  tmMin : Int
  tmHour : Int
  tmMday : Int
  tmMon : Int
  tmYear : Int
  tmWday : Int
  tmYday : Int
  tmIsdst : Int
  deriving DecidableEq, Repr

def brokenDownTime (time : Int) : Tm where
  tmSec := time % 60
  tmMin := time / 60 % 60
  tmHour := time / 3600 % 24
  tmMday := (dateOf (time / 86400)).day + 1
  tmMon := (dateOf (time / 86400)).month
  tmYear := (dateOf (time / 86400)).year - 1900
  tmWday := (time / 86400 + 4) % 7
  tmYday := dayOfYear (time / 86400)
  tmIsdst := 0

-- `gmtime` fails when the year does not fit an `int`.
def gmtime (time : Int) : Option Tm :=
  if -2 ^ 31 ≤ (brokenDownTime time).tmYear ∧ (brokenDownTime time).tmYear < 2 ^ 31 then some (brokenDownTime time)
  else none

end Library

section Model

structure UniversalTime where
  bDayLightSaving : Bool
  year : Nat
  month : Nat
  dayOfMonth : Nat
  dayOfWeek : Nat
  hour : Nat
  minute : Nat
  second : Nat
  milliSecond : Nat
  deriving DecidableEq, Repr

def daysOfYearInMonth (leap : Bool) : List Nat :=
  if leap then [0, 31, 60, 91, 121, 152, 182, 213, 244, 274, 305, 335, 366]
  else [0, 31, 59, 90, 120, 151, 181, 212, 243, 273, 304, 334, 365]

def timeIfLeapyear (year : Nat) : Bool := year % 4 = 0 && (year % 100 ≠ 0 || year % 400 = 0)

def ushortOfInt (value : Int) : Nat := (value % 2 ^ 16).toNat

variable (machine : Machine)

-- `AnscCalendarToSecondFromEpoch`. There is no answer for a month that is not in the table.
def calendarToSecondFromEpoch (pCalendar : UniversalTime) : Option Nat :=
  let ulLastYear := ulongOfInt machine (pCalendar.year - 1970)
  let ulRealLastYear := ulongOfInt machine (pCalendar.year - 1)
  let ulLeapsToDate := ulongOfInt machine
    ((ulRealLastYear / 4 - ulRealLastYear / 100 + ulRealLastYear / 400 : Int) - (1970 / 4 - 1970 / 100 + 1970 / 400))
  if pCalendar.month = 0 then none
  else
    (daysOfYearInMonth (timeIfLeapyear pCalendar.year))[pCalendar.month - 1]?.map fun daysOfYear =>
      let ulYDay := ulongOfInt machine (daysOfYear + pCalendar.dayOfMonth - 1)
      let ulNewTime := ulongOfInt machine (ulLastYear * 365 + ulLeapsToDate + ulYDay)
      let ulNewTime := ulongOfInt machine (ulNewTime * 24 + pCalendar.hour)
      let ulNewTime := ulongOfInt machine (ulNewTime * 60 + pCalendar.minute)
      ulongOfInt machine (ulNewTime * 60 + pCalendar.second)

-- The `time_t` in the place of a `ULONG`, which may have a sign.
def timeOfUlong (timeIsSigned : Bool) (ulSeconds : Nat) : Int :=
  if timeIsSigned && 2 ^ (machine.ulongSize.bits - 1) ≤ ulSeconds then ulSeconds - 2 ^ machine.ulongSize.bits
  else ulSeconds

def calendarOfTm (gmTime : Tm) : UniversalTime where
  bDayLightSaving := gmTime.tmIsdst ≠ 0
  year := ushortOfInt (gmTime.tmYear + 1900)
  month := ushortOfInt (gmTime.tmMon + 1)
  dayOfMonth := ushortOfInt gmTime.tmMday
  dayOfWeek := ushortOfInt gmTime.tmWday
  hour := ushortOfInt gmTime.tmHour
  minute := ushortOfInt gmTime.tmMin
  second := ushortOfInt gmTime.tmSec
  milliSecond := 0

def secondToCalendar (timeIsSigned : Bool) (ulSeconds : Nat) (pCalendar : UniversalTime) : UniversalTime :=
  match gmtime (timeOfUlong machine timeIsSigned ulSeconds) with
  | some gmTime => calendarOfTm gmTime
  | none => pCalendar

end Model

section Seconds

variable (machine : Machine)

theorem ulongOfInt_modEq (value : Int) :
    (ulongOfInt machine value : Int) ≡ value [ZMOD 2 ^ machine.ulongSize.bits] := by
  have positive : (0 : Int) < 2 ^ machine.ulongSize.bits := by positivity
  rw [ulongOfInt, Int.toNat_of_nonneg (Int.emod_nonneg _ (Int.ne_of_gt positive))]
  exact Int.mod_modEq _ _

theorem ulongOfInt_congr {first second : Int} (same : first ≡ second [ZMOD 2 ^ machine.ulongSize.bits]) :
    ulongOfInt machine first = ulongOfInt machine second := by
  rw [ulongOfInt, ulongOfInt, same.eq]

theorem ulongOfInt_place {digits value : Int} (same : digits ≡ value [ZMOD 2 ^ machine.ulongSize.bits])
    (base digit : Int) :
    (ulongOfInt machine (digits * base + digit) : Int) ≡ value * base + digit [ZMOD 2 ^ machine.ulongSize.bits] :=
  (ulongOfInt_modEq machine _).trans ((same.mul_right base).add_right digit)

structure ShowsDate (pCalendar : UniversalTime) (date : Date) : Prop where
  year : (pCalendar.year : Int) = date.year
  month : pCalendar.month = date.month + 1
  dayOfMonth : pCalendar.dayOfMonth = date.day + 1

theorem timeIfLeapyear_eq (year : Nat) : timeIfLeapyear year = isLeapYear year := by
  rw [timeIfLeapyear, isLeapYear, Bool.eq_iff_iff]
  simp only [Bool.and_eq_true, Bool.or_eq_true, decide_eq_true_eq]
  omega

theorem daysOfYearInMonth_eq (leap : Bool) {month : Nat} (inYear : month < 12) :
    (daysOfYearInMonth leap)[month]? = some ((monthLengths leap).take month).sum := by
  have every : ∀ leap, ∀ month < 12, (daysOfYearInMonth leap)[month]? = some ((monthLengths leap).take month).sum := by
    decide
  exact every leap month inYear

theorem calendarToSecondFromEpoch_date {pCalendar : UniversalTime} {date : Date} (shows : ShowsDate pCalendar date)
    (first : 0 < date.year) (last : date.year < 65536) :
    calendarToSecondFromEpoch machine pCalendar = some (ulongOfInt machine
      (((date.dayNumber * 24 + pCalendar.hour) * 60 + pCalendar.minute) * 60 + pCalendar.second)) := by
  have large : (2 : Int) ^ 32 ≤ 2 ^ machine.ulongSize.bits :=
    pow_le_pow_right₀ (by decide) machine.ulongSize.bits_ge
  have realLastYear : (ulongOfInt machine (pCalendar.year - 1) : Int) = date.year - 1 := by
    have year := shows.year
    rw [ulongOfInt, Int.emod_eq_of_lt (by omega) (by omega)]
    omega
  have month : (daysOfYearInMonth (timeIfLeapyear pCalendar.year))[pCalendar.month - 1]? =
      some ((monthLengths (isLeapYear date.year)).take date.month).sum := by
    rw [shows.month, Nat.add_sub_cancel, daysOfYearInMonth_eq _ date.inYear, timeIfLeapyear_eq, shows.year]
  have some : pCalendar.month ≠ 0 := by
    rw [shows.month]
    exact Nat.succ_ne_zero _
  rw [calendarToSecondFromEpoch]
  simp only [if_neg some, month, realLastYear, shows.dayOfMonth]
  refine congrArg _ (ulongOfInt_congr machine ?_)
  have lastYear := (ulongOfInt_modEq machine (pCalendar.year - 1970)).mul_right 365
  have leapsToDate := ulongOfInt_modEq machine
    ((date.year - 1) / 4 - (date.year - 1) / 100 + (date.year - 1) / 400 - (1970 / 4 - 1970 / 100 + 1970 / 400))
  have yDay := ulongOfInt_modEq machine
    (((monthLengths (isLeapYear date.year)).take date.month).sum + (date.day + 1 : Nat) - 1)
  have total : (pCalendar.year - 1970) * 365 + ((date.year - 1) / 4 - (date.year - 1) / 100 +
      (date.year - 1) / 400 - (1970 / 4 - 1970 / 100 + 1970 / 400)) +
        (((monthLengths (isLeapYear date.year)).take date.month).sum + (date.day + 1 : Nat) - 1) = date.dayNumber := by
    rw [Date.dayNumber, daysToYear, shows.year]
    omega
  have days := (lastYear.add leapsToDate).add yDay
  rw [total] at days
  have hours := ulongOfInt_place machine ((ulongOfInt_modEq machine _).trans days) 24 pCalendar.hour
  have minutes := ulongOfInt_place machine hours 60 pCalendar.minute
  exact (minutes.mul_right 60).add_right _

theorem ushortOfInt_eq {value : Int} (nonnegative : 0 ≤ value) (small : value < 2 ^ 16) :
    (ushortOfInt value : Int) = value := by
  rw [ushortOfInt, Int.emod_eq_of_lt nonnegative small, Int.toNat_of_nonneg nonnegative]

theorem year_bounds (days : Int) (first : -24856 ≤ days) (last : days < 49711) :
    1900 < (dateOf days).year ∧ (dateOf days).year < 2107 := by
  obtain ⟨inside, whole⟩ := yearOf_spec days
  have length : daysInYear (yearOf days) ≤ 366 := by
    rw [daysInYear]
    split <;> decide
  rw [daysToYear] at whole
  rw [dateOf]
  dsimp only
  omega

theorem day_lt (date : Date) : date.day < 31 := by
  have every : ∀ leap, ∀ month < 12, (monthLengths leap).getD month 0 ≤ 31 := by decide
  exact Nat.lt_of_lt_of_le date.inMonth (every _ _ date.inYear)

theorem calendarOfTm_shows {time : Int} (first : -2 ^ 31 ≤ time) (last : time < 2 ^ 32) :
    ShowsDate (calendarOfTm (brokenDownTime time)) (dateOf (time / 86400)) := by
  have year := year_bounds (time / 86400) (by omega) (by omega)
  have day := day_lt (dateOf (time / 86400))
  have month := (dateOf (time / 86400)).inYear
  refine ⟨?_, ?_, ?_⟩ <;> rw [calendarOfTm, brokenDownTime] <;> dsimp only
  next =>
    rw [ushortOfInt_eq (by omega) (by omega)]
    omega
  next =>
    rw [← Int.natCast_inj, ushortOfInt_eq (by omega) (by omega)]
    rfl
  next =>
    rw [← Int.natCast_inj, ushortOfInt_eq (by omega) (by omega)]
    rfl

theorem calendarOfTm_time (time : Int) :
    let calendar := calendarOfTm (brokenDownTime time)
    ((time / 86400 * 24 + calendar.hour) * 60 + calendar.minute) * 60 + calendar.second = time := by
  rw [calendarOfTm, brokenDownTime]
  dsimp only
  rw [ushortOfInt_eq (by omega) (by omega), ushortOfInt_eq (by omega) (by omega), ushortOfInt_eq (by omega) (by omega)]
  omega

theorem timeOfUlong_spec (timeIsSigned : Bool) {ulSeconds : Nat} (range : ulSeconds < 2 ^ 32) :
    -2 ^ 31 ≤ timeOfUlong machine timeIsSigned ulSeconds ∧ timeOfUlong machine timeIsSigned ulSeconds < 2 ^ 32 ∧
      timeOfUlong machine timeIsSigned ulSeconds ≡ ulSeconds [ZMOD 2 ^ machine.ulongSize.bits] := by
  rw [timeOfUlong]
  split
  next negative =>
    rw [Bool.and_eq_true, decide_eq_true_eq] at negative
    have wraps : (ulSeconds : Int) - 2 ^ machine.ulongSize.bits ≡ ulSeconds [ZMOD 2 ^ machine.ulongSize.bits] :=
      Int.sub_emod_right _ _
    cases size : machine.ulongSize with
    | four =>
      rw [size] at negative wraps
      rw [UlongSize.bits] at negative wraps ⊢
      exact ⟨by omega, by omega, wraps⟩
    | eight =>
      rw [size, UlongSize.bits] at negative
      omega
  next => exact ⟨by omega, by omega, Int.ModEq.refl _⟩

theorem gmtime_eq {time : Int} (first : -2 ^ 31 ≤ time) (last : time < 2 ^ 32) :
    gmtime time = some (brokenDownTime time) := by
  have year := year_bounds (time / 86400) (by omega) (by omega)
  refine if_pos ?_
  rw [brokenDownTime]
  dsimp only
  omega

theorem calendar_round_trip (timeIsSigned : Bool) (ulSeconds : Nat) (range : ulSeconds < 2 ^ 32)
    (pCalendar : UniversalTime) :
    calendarToSecondFromEpoch machine (secondToCalendar machine timeIsSigned ulSeconds pCalendar) =
      some ulSeconds := by
  obtain ⟨first, last, same⟩ := timeOfUlong_spec machine timeIsSigned range
  have year := year_bounds (timeOfUlong machine timeIsSigned ulSeconds / 86400) (by omega) (by omega)
  have small : (ulSeconds : Int) < 2 ^ machine.ulongSize.bits := by
    have large : (2 : Int) ^ 32 ≤ 2 ^ machine.ulongSize.bits :=
      pow_le_pow_right₀ (by decide) machine.ulongSize.bits_ge
    omega
  rw [secondToCalendar, gmtime_eq first last,
    calendarToSecondFromEpoch_date machine (calendarOfTm_shows first last) (by omega) (by omega), dayNumber_dateOf,
    calendarOfTm_time, ulongOfInt_congr machine same, ulongOfInt, Int.emod_eq_of_lt (Int.natCast_nonneg _) small,
    Int.toNat_natCast]

theorem calendar_round_trip_last : calendarToSecondFromEpoch ⟨.four, false, true⟩
    (secondToCalendar ⟨.four, false, true⟩ false 4294967295 ⟨false, 0, 0, 0, 0, 0, 0, 0, 0⟩) = some 4294967295 :=
  calendar_round_trip _ false 4294967295 (by decide) _

end Seconds

end CcspCommon.AnscPlatform
