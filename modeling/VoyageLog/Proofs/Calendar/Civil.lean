import Mathlib.Algebra.GroupWithZero.Nat
import VoyageLog.Proofs.Calendar.Date

namespace VoyageLog

namespace Calendar

-- Four hundred years have 146097 days, and no year is more than a day and three quarters off its mean place.
theorem daysBeforeYear_bounds (year : Int) :
    146097 * (year - 1) - 699 ≤ 400 * daysBeforeYear year ∧
      400 * daysBeforeYear year ≤ 146097 * (year - 1) + 396 := by
  simp only [daysBeforeYear]
  omega

theorem yearOf_spec (dayNumber : Int) :
    daysBeforeYear (yearOf dayNumber) ≤ dayNumber ∧ dayNumber < daysBeforeYear (yearOf dayNumber + 1) := by
  have hthis := daysBeforeYear_bounds (dayNumber * 400 / 146097 + 1)
  have hnext := daysBeforeYear_bounds (dayNumber * 400 / 146097 + 1 + 1)
  have hafter := daysBeforeYear_bounds (dayNumber * 400 / 146097 + 1 + 1 + 1)
  simp only [yearOf]
  split
  · omega
  · split <;> omega

-- The days of the months before one in a list.
theorem monthDay_spec {lengths : List Nat} {dayOfYear : Nat} (month : Nat) (h : dayOfYear < lengths.sum) :
    ∃ passed, (monthDay month lengths dayOfYear).1 = month + passed ∧
      1 ≤ (monthDay month lengths dayOfYear).2 ∧
      (monthDay month lengths dayOfYear).2 ≤ lengths.getD passed 0 ∧
      (lengths.take passed).sum + ((monthDay month lengths dayOfYear).2 - 1) = dayOfYear := by
  induction lengths generalizing month dayOfYear with
  | nil => simp at h
  | cons length rest ih =>
    simp only [monthDay]
    split
    · exact ⟨0, by simp; omega⟩
    · rw [List.sum_cons] at h
      obtain ⟨passed, hmonth, hfirst, hlast, hdays⟩ := ih (month + 1) (show dayOfYear - length < rest.sum by omega)
      refine ⟨passed + 1, by omega, hfirst, by simpa using hlast, ?_⟩
      rw [List.take_succ_cons, List.sum_cons]
      omega

theorem sum_monthLengths (leap : Bool) : (monthLengths leap).sum = if leap then 366 else 365 := by
  cases leap <;> rfl

theorem year_of_day {dayNumber year : Int} (hfirst : firstDay ≤ dayNumber) (hlast : dayNumber ≤ lastDay)
    (hfrom : daysBeforeYear year ≤ dayNumber) (hto : dayNumber < daysBeforeYear (year + 1)) :
    leastYear ≤ year ∧ year ≤ greatestYear := by
  have hleast : daysBeforeYear leastYear = firstDay := by decide
  have hgreatest : daysBeforeYear (greatestYear + 1) = lastDay + 1 := by decide
  constructor
  · apply Int.not_lt.mp
    intro hbefore
    have hle := daysBeforeYear_le (show year + 1 ≤ leastYear by omega)
    omega
  · apply Int.not_lt.mp
    intro hafter
    have hle := daysBeforeYear_le (show greatestYear + 1 ≤ year by omega)
    omega

-- Every numbered day is the day of a date, and it is found from its number.
theorem civil_date {dayNumber : Int} (hfirst : firstDay ≤ dayNumber) (hlast : dayNumber ≤ lastDay) :
    ∃ date : Date, date.dayNumber = dayNumber ∧ civil dayNumber = (date.year, date.month, date.day) := by
  obtain ⟨hfrom, hto⟩ := yearOf_spec dayNumber
  obtain ⟨hleast, hgreatest⟩ := year_of_day hfirst hlast hfrom hto
  have hsucc := daysBeforeYear_succ (yearOf dayNumber)
  have hin : (dayNumber - daysBeforeYear (yearOf dayNumber)).toNat <
      (monthLengths (isLeap (yearOf dayNumber))).sum := by
    rw [sum_monthLengths]
    cases hleap : isLeap (yearOf dayNumber) <;>
      simp only [hleap, Bool.false_eq_true, if_true, if_false] at hsucc ⊢ <;> omega
  obtain ⟨passed, hmonth, hday, hlength, hdays⟩ := monthDay_spec 1 hin
  have hindex : (civil dayNumber).2.1 = passed + 1 := hmonth.trans (Nat.add_comm 1 passed)
  have hvalid : IsDate (yearOf dayNumber) (civil dayNumber).2.1 (civil dayNumber).2.2 := by
    refine ⟨hleast, hgreatest, hday, ?_⟩
    rw [hindex]
    exact hlength
  refine ⟨⟨_, _, _, hvalid⟩, ?_, rfl⟩
  have hbefore : daysBeforeMonth (isLeap (yearOf dayNumber)) (civil dayNumber).2.1 =
      ((monthLengths (isLeap (yearOf dayNumber))).take passed).sum := by
    rw [hindex, daysBeforeMonth, Nat.add_sub_cancel, List.sum_eq_foldl]
  have hall : daysBeforeMonth (isLeap (yearOf dayNumber)) (civil dayNumber).2.1 + ((civil dayNumber).2.2 - 1) =
      (dayNumber - daysBeforeYear (yearOf dayNumber)).toNat := by
    rw [hbefore]
    exact hdays
  simp only [Date.dayNumber]
  omega

end Calendar

end VoyageLog
