namespace VoyageLog

namespace Calendar

def isLeap (year : Int) : Bool := year % 4 = 0 && (year % 100 ≠ 0 || year % 400 = 0)

def monthLengths (leap : Bool) : List Nat :=
  [31, if leap then 29 else 28, 31, 30, 31, 30, 31, 31, 30, 31, 30, 31]

-- Zero for a month that does not exist.
def monthLength (leap : Bool) (month : Nat) : Nat :=
  match month with
  | 0 => 0
  | index + 1 => (monthLengths leap).getD index 0

def leastYear : Int := -262143

def greatestYear : Int := 262142

def IsDate (year : Int) (month day : Nat) : Prop :=
  leastYear ≤ year ∧ year ≤ greatestYear ∧ 1 ≤ day ∧ day ≤ monthLength (isLeap year) month

instance (year : Int) (month day : Nat) : Decidable (IsDate year month day) :=
  inferInstanceAs (Decidable (_ ∧ _))

-- Leap days are those of the whole years gone by.
def daysBeforeYear (year : Int) : Int :=
  let past := year - 1
  365 * past + past / 4 - past / 100 + past / 400

def daysBeforeMonth (leap : Bool) (month : Nat) : Nat :=
  ((monthLengths leap).take (month - 1)).foldl (· + ·) 0

-- The year that a day falls into: the mean length of a year leads to it or to the year before.
def yearOf (dayNumber : Int) : Int :=
  let guess := dayNumber * 400 / 146097 + 1
  if dayNumber < daysBeforeYear guess then guess - 1
  else if dayNumber < daysBeforeYear (guess + 1) then guess
  else guess + 1

-- The month and the day of the month, counted from the lengths of the months that are left.
def monthDay (month : Nat) : List Nat → Nat → Nat × Nat
  | [], dayOfYear => (month, dayOfYear + 1)
  | length :: lengths, dayOfYear =>
    if dayOfYear < length then (month, dayOfYear + 1)
    else monthDay (month + 1) lengths (dayOfYear - length)

end Calendar

open Calendar

structure Date where
  year : Int
  month : Nat
  day : Nat
  valid : IsDate year month day
deriving DecidableEq

namespace Date

def ofParts? (year : Int) (month day : Nat) : Option Date :=
  if h : IsDate year month day then some ⟨year, month, day, h⟩ else none

-- The first day of year 1 has number 0.
def dayNumber (date : Date) : Int :=
  daysBeforeYear date.year + daysBeforeMonth (isLeap date.year) date.month + (date.day - 1 : Nat)

end Date

-- 1 January of the least year and 31 December of the greatest one.
def Calendar.firstDay : Int := -95746130

def Calendar.lastDay : Int := 95745398

namespace Calendar

theorem daysBeforeYear_le {earlier later : Int} (h : earlier ≤ later) :
    daysBeforeYear earlier ≤ daysBeforeYear later := by
  simp only [daysBeforeYear]
  omega

theorem daysBeforeYear_succ (year : Int) :
    daysBeforeYear (year + 1) = daysBeforeYear year + if isLeap year then 366 else 365 := by
  simp only [daysBeforeYear, isLeap, Bool.and_eq_true, Bool.or_eq_true, decide_eq_true_eq]
  split <;> omega

theorem month_of_day {leap : Bool} {month day : Nat} (hday : 1 ≤ day)
    (hlength : day ≤ monthLength leap month) : 1 ≤ month ∧ month ≤ 12 := by
  match month with
  | 0 =>
    simp only [monthLength] at hlength
    omega
  | index + 1 =>
    refine ⟨by omega, ?_⟩
    simp only [monthLength, monthLengths] at hlength
    by_cases h : index < 12
    · omega
    · rw [List.getD_eq_getElem?_getD, List.getElem?_eq_none (by simp; omega)] at hlength
      simp only [Option.getD_none] at hlength
      omega

-- A day of a month is a day of its year.
theorem dayOfYear_lt {leap : Bool} {month day : Nat} (hday : 1 ≤ day)
    (hlength : day ≤ monthLength leap month) :
    daysBeforeMonth leap month + (day - 1) < if leap then 366 else 365 := by
  have hmonth := (month_of_day hday hlength).2
  have hcases : month = 0 ∨ month = 1 ∨ month = 2 ∨ month = 3 ∨ month = 4 ∨ month = 5 ∨ month = 6 ∨
      month = 7 ∨ month = 8 ∨ month = 9 ∨ month = 10 ∨ month = 11 ∨ month = 12 := by omega
  rcases hcases with h | h | h | h | h | h | h | h | h | h | h | h | h <;> subst h <;> cases leap <;>
    simp [monthLength, monthLengths, daysBeforeMonth] at hlength ⊢ <;> omega

end Calendar

theorem Date.dayNumber_mem (date : Date) :
    firstDay ≤ date.dayNumber ∧ date.dayNumber ≤ lastDay := by
  obtain ⟨hleast, hgreatest, hday, hlength⟩ := date.valid
  have hfirst := daysBeforeYear_le hleast
  have hlast := daysBeforeYear_le (show date.year + 1 ≤ greatestYear + 1 by omega)
  have hnext := daysBeforeYear_succ date.year
  have hin := dayOfYear_lt hday hlength
  have hf : daysBeforeYear leastYear = firstDay := by decide
  have hl : daysBeforeYear (greatestYear + 1) = lastDay + 1 := by decide
  simp only [dayNumber]
  cases hleap : isLeap date.year <;>
    simp only [hleap, Bool.false_eq_true, if_true, if_false] at hin hnext <;> omega

-- Year, month and day of a numbered day.
def Calendar.civil (dayNumber : Int) : Int × Nat × Nat :=
  let year := yearOf dayNumber
  (year, monthDay 1 (monthLengths (isLeap year)) (dayNumber - daysBeforeYear year).toNat)

end VoyageLog
