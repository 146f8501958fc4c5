import VoyageLog.Calendar.Instant

namespace VoyageLog

namespace Calendar

-- A month ends where or before a later one begins.
theorem daysBeforeMonth_add_le (leap : Bool) {earlier later : Nat} (hfirst : 1 ≤ earlier)
    (hlast : later ≤ 12) (hlt : earlier < later) :
    daysBeforeMonth leap earlier + monthLength leap earlier ≤ daysBeforeMonth leap later := by
  have hall : ∀ leap : Bool, ∀ earlier < 13, ∀ later < 13, 1 ≤ earlier → earlier < later →
      daysBeforeMonth leap earlier + monthLength leap earlier ≤ daysBeforeMonth leap later := by
    decide
  exact hall leap earlier (by omega) later (by omega) hfirst hlt

theorem year_eq_of_days {first second : Int} {into past : Nat}
    (hinto : into < if isLeap first then 366 else 365) (hpast : past < if isLeap second then 366 else 365)
    (h : daysBeforeYear first + into = daysBeforeYear second + past) : first = second := by
  have hfirst := daysBeforeYear_succ first
  have hsecond := daysBeforeYear_succ second
  have hbefore : ¬first < second := by
    intro hlt
    have hle := daysBeforeYear_le (show first + 1 ≤ second by omega)
    split at hinto <;> rename_i hleap <;> simp only [hleap, if_true] at hfirst <;> omega
  have hafter : ¬second < first := by
    intro hlt
    have hle := daysBeforeYear_le (show second + 1 ≤ first by omega)
    split at hpast <;> rename_i hleap <;> simp only [hleap, if_true] at hsecond <;> omega
  omega

end Calendar

open Calendar

theorem Date.dayNumber_injective {first second : Date} (h : first.dayNumber = second.dayNumber) :
    first = second := by
  obtain ⟨year, month, day, _, _, hday, hlength⟩ := first
  obtain ⟨otherYear, otherMonth, otherDay, _, _, hotherDay, hotherLength⟩ := second
  simp only [dayNumber] at h
  obtain rfl : year = otherYear := by
    apply year_eq_of_days (dayOfYear_lt hday hlength) (dayOfYear_lt hotherDay hotherLength)
    omega
  obtain ⟨hleast, hgreatest⟩ := month_of_day hday hlength
  obtain ⟨hotherLeast, hotherGreatest⟩ := month_of_day hotherDay hotherLength
  obtain rfl : month = otherMonth := by
    rcases Nat.lt_trichotomy month otherMonth with hlt | heq | hlt
    · have hends := daysBeforeMonth_add_le (isLeap year) hleast hotherGreatest hlt
      omega
    · exact heq
    · have hends := daysBeforeMonth_add_le (isLeap year) hotherLeast hgreatest hlt
      omega
  obtain rfl : day = otherDay := by omega
  rfl

namespace Instant

theorem onDate_injective {first second : Date} {time : TimeOfDay}
    (h : onDate first time = onDate second time) : first = second :=
  Date.dayNumber_injective (congrArg Instant.day h)

theorem le_iff {left right : Instant} : left ≤ right ↔
    left.day < right.day ∨ left.day = right.day ∧
      (left.second < right.second ∨ left.second = right.second ∧ left.nano ≤ right.nano) := by
  change ¬(right.day < left.day ∨ right.day = left.day ∧
    (right.second < left.second ∨ right.second = left.second ∧ right.nano < left.nano)) ↔ _
  omega

theorem le_refl (instant : Instant) : instant ≤ instant := by
  rw [le_iff]
  omega

theorem le_trans {first second third : Instant} (hfirst : first ≤ second) (hsecond : second ≤ third) :
    first ≤ third := by
  rw [le_iff] at *
  omega

end Instant

end VoyageLog
