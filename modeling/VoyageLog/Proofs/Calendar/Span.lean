import VoyageLog.Calendar.Instant

namespace VoyageLog.Instant

open Calendar

-- Nanoseconds since day zero began, each day taken for 86400 seconds.
def position (instant : Instant) : Int :=
  (instant.day * 86400 + instant.second) * 1000000000 + instant.nano

def dayLength : Int := 86400000000000

def endOfCalendar : Int := (lastDay + 1) * dayLength

theorem leapCount_bounds (left right : Instant) : -1 ≤ left.leapCount right ∧ left.leapCount right ≤ 1 := by
  unfold leapCount
  split
  · omega
  · split <;> omega

theorem since_eq (left right : Instant) :
    left.since right = left.position - right.position + left.leapCount right * 1000000000 := by
  unfold since position
  omega

theorem since_near (left right : Instant) :
    left.position - right.position - 1000000000 ≤ left.since right ∧
      left.since right ≤ left.position - right.position + 1000000000 := by
  have hleap := leapCount_bounds left right
  rw [since_eq]
  omega

-- A leap second may run into the next day.
theorem position_bounds (instant : Instant) :
    instant.day * dayLength ≤ instant.position ∧
      instant.position < (instant.day + 1) * dayLength + 1000000000 := by
  have hrange := instant.in_range
  unfold position dayLength
  omega

theorem since_bounds (left right : Instant) :
    -20000000000000000000000 ≤ left.since right ∧ left.since right ≤ 20000000000000000000000 := by
  have hnear := since_near left right
  have hleft := position_bounds left
  have hright := position_bounds right
  have hrangeLeft := left.in_range
  have hrangeRight := right.in_range
  unfold dayLength at hleft hright
  unfold firstDay lastDay at hrangeLeft hrangeRight
  omega

-- An instant can be before an earlier one by less than a second, if that one is a leap second.
theorem since_of_le {left right : Instant} (h : right ≤ left) (hneg : left.since right < 0) :
    -1000000000 < left.since right ∧ 1000000000 ≤ right.nano := by
  have hrange := left.in_range
  have hrangeRight := right.in_range
  have hle : ¬(left.day < right.day ∨ left.day = right.day ∧
      (left.second < right.second ∨ left.second = right.second ∧ left.nano < right.nano)) := h
  unfold since leapCount isLeapSecond at *
  split at hneg <;> rename_i hafter
  · simp only [Bool.and_eq_true, decide_eq_true_eq] at hafter
    simp only [Bool.and_eq_true, decide_eq_true_eq, if_pos hafter]
    omega
  · split at hneg <;> rename_i hbefore <;> simp only [Bool.and_eq_true, decide_eq_true_eq] at hafter hbefore
    · simp only [Bool.and_eq_true, decide_eq_true_eq, if_neg hafter, if_pos hbefore]
      omega
    · simp only [Bool.and_eq_true, decide_eq_true_eq, if_neg hafter, if_neg hbefore]
      omega

theorem advance?_eq_none {day second nano : Int} (h : advance? day second nano = none) :
    (day * 86400 + second) * 1000000000 + nano < firstDay * dayLength ∨
      endOfCalendar ≤ (day * 86400 + second) * 1000000000 + nano := by
  unfold advance? ofParts? at h
  dsimp only at h
  split at h
  · cases h
  · rename_i hout
    unfold endOfCalendar dayLength
    omega

-- A move leaves the calendar at the end that it goes towards.
theorem add?_eq_none {instant : Instant} {nanoseconds : Int} (h : instant.add? nanoseconds = none) :
    nanoseconds < 0 ∧ instant.position + nanoseconds < firstDay * dayLength ∨
      0 < nanoseconds ∧ endOfCalendar ≤ instant.position + nanoseconds := by
  have hrange := instant.in_range
  unfold add? isLeapSecond at h
  dsimp only at h
  split at h
  · rename_i hleap
    have hnano : 1000000000 ≤ instant.nano := by simpa using hleap
    split at h
    · have hnone := advance?_eq_none h
      unfold position endOfCalendar dayLength at *
      omega
    · split at h
      · have hnone := advance?_eq_none h
        unfold position endOfCalendar dayLength at *
        omega
      · unfold ofParts? at h
        split at h
        · cases h
        · omega
  · rename_i hleap
    have hnano : instant.nano < 1000000000 := by simpa using hleap
    have hnone := advance?_eq_none h
    unfold position endOfCalendar dayLength at *
    omega

end VoyageLog.Instant
