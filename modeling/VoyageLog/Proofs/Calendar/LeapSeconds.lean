import VoyageLog.Proofs.Calendar.Moves

namespace VoyageLog.Instant

def seconds (instant : Instant) : Int := instant.day * 86400 + instant.second

-- The part of a second, whether that is a leap second or not.
def fraction (instant : Instant) : Nat := instant.nano % 1000000000

theorem fraction_lt (instant : Instant) : instant.fraction < 1000000000 := Nat.mod_lt _ (by decide)

-- The leap seconds that a distance counts: the one that it leads to, if that has no earlier time of day, and the one
-- that it starts from, if it leads to a later time of day.
def leapSecondsFrom (origin instant : Instant) : Int :=
  (if origin.second ≤ instant.second ∧ instant.isLeapSecond then 1 else 0) +
    (if origin.second < instant.second ∧ origin.isLeapSecond then 1 else 0)

theorem leapSecondsFrom_bounds (origin instant : Instant) :
    0 ≤ origin.leapSecondsFrom instant ∧ origin.leapSecondsFrom instant ≤ 2 := by
  unfold leapSecondsFrom
  split <;> split <;> omega

theorem leapSecondsFrom_self (instant : Instant) :
    instant.leapSecondsFrom instant = if instant.isLeapSecond then 1 else 0 := by
  simp [leapSecondsFrom]

-- A nanosecond is counted with its fraction, and by a second more in a leap second.
theorem nano_eq (instant : Instant) :
    (instant.nano : Int) = instant.fraction + (if instant.isLeapSecond then 1000000000 else 0) := by
  have hrange := instant.in_range
  unfold fraction isLeapSecond
  by_cases hleap : 1000000000 ≤ instant.nano
  · simp only [hleap, decide_true, if_true]
    omega
  · simp only [hleap, decide_false, Bool.false_eq_true, if_false]
    omega

theorem since_eq_seconds (instant origin : Instant) :
    instant.since origin =
      (instant.seconds + origin.leapSecondsFrom instant - (origin.seconds + origin.leapSecondsFrom origin)) *
        1000000000 + (instant.fraction - origin.fraction) := by
  rw [since, nano_eq instant, nano_eq origin]
  unfold leapCount leapSecondsFrom seconds
  rcases Nat.lt_trichotomy origin.second instant.second with hbefore | hsame | hafter
  · have hle : origin.second ≤ instant.second := Nat.le_of_lt hbefore
    have hnot : ¬instant.second < origin.second := by omega
    cases instant.isLeapSecond <;> cases origin.isLeapSecond <;> simp [hbefore, hle, hnot] <;> omega
  · cases instant.isLeapSecond <;> cases origin.isLeapSecond <;> simp [hsame] <;> omega
  · have hnot : ¬origin.second ≤ instant.second := by omega
    have hlt : ¬origin.second < instant.second := by omega
    cases instant.isLeapSecond <;> cases origin.isLeapSecond <;> simp [hafter, hnot, hlt] <;> omega

-- From the origin the later instant is nearer than the earlier one.
def Overtakes (origin earlier later : Instant) : Prop :=
  let passed := later.seconds - earlier.seconds
  let lost := origin.leapSecondsFrom earlier - origin.leapSecondsFrom later
  passed < lost ∨ passed = lost ∧ later.fraction < earlier.fraction

theorem since_lt_since_iff (origin earlier later : Instant) :
    later.since origin < earlier.since origin ↔ Overtakes origin earlier later := by
  have hfraction := earlier.fraction_lt
  have hfractionLater := later.fraction_lt
  rw [since_eq_seconds, since_eq_seconds]
  unfold Overtakes
  dsimp only
  omega

section Later

variable {origin earlier later : Instant}

theorem seconds_of_le (h : earlier ≤ later) :
    earlier.seconds < later.seconds ∨
      earlier.day = later.day ∧ earlier.second = later.second ∧ earlier.nano ≤ later.nano := by
  have hrange := earlier.in_range
  rw [le_iff] at h
  unfold seconds
  omega

-- Within a second no leap second is lost.
theorem leapSecondsFrom_of_same (origin : Instant) (hsecond : earlier.second = later.second)
    (hnano : earlier.nano ≤ later.nano) :
    origin.leapSecondsFrom earlier ≤ origin.leapSecondsFrom later := by
  have hleap : earlier.isLeapSecond → later.isLeapSecond := by
    simp only [isLeapSecond, decide_eq_true_eq]
    omega
  unfold leapSecondsFrom
  rw [hsecond]
  by_cases hcounted : origin.second ≤ later.second ∧ earlier.isLeapSecond
  · have hlater : origin.second ≤ later.second ∧ later.isLeapSecond := ⟨hcounted.1, hleap hcounted.2⟩
    apply Int.le_of_eq
    rw [if_pos hcounted, if_pos hlater]
  · rw [if_neg hcounted]
    split <;> omega

-- The distances differ by less than two seconds then.
theorem since_lt_of_le (h : earlier ≤ later) : earlier.since origin < later.since origin + 2000000000 := by
  have hfraction := earlier.fraction_lt
  have hbounds := leapSecondsFrom_bounds origin earlier
  have hboundsLater := leapSecondsFrom_bounds origin later
  rw [since_eq_seconds, since_eq_seconds]
  rcases seconds_of_le h with hafter | ⟨hday, hsecond, hnano⟩
  · omega
  · have hkept := leapSecondsFrom_of_same origin hsecond hnano
    have hsame : earlier.seconds = later.seconds := by rw [seconds, seconds, hday, hsecond]
    omega

-- Without a leap second no order is changed.
theorem not_overtakes_of_ordinary (horigin : ¬origin.isLeapSecond) (hearlier : ¬earlier.isLeapSecond)
    (hlater : ¬later.isLeapSecond) (h : earlier ≤ later) : ¬Overtakes origin earlier later := by
  rw [← since_lt_since_iff, since_of_ordinary hearlier horigin, since_of_ordinary hlater horigin]
  have hle := (le_iff_position hearlier hlater).mp h
  omega

end Later

-- A leap second that ends a day, and an instant of the second after it of which less is over.
structure FallsBehind (origin instant : Instant) : Prop where
  leap : origin.isLeapSecond
  evening : origin.second = 86399
  midnight : instant.day = origin.day + 1 ∧ instant.second = 0
  fraction : instant.fraction < origin.fraction

-- Within a second a distance is what it seems.
theorem since_of_same {origin instant : Instant} (hday : instant.day = origin.day)
    (hsecond : instant.second = origin.second) : instant.since origin = instant.nano - origin.nano := by
  simp [since, leapCount, hday, hsecond]

-- Only such an instant is nearer than the origin itself.
theorem overtakes_origin_iff {origin instant : Instant} (h : origin ≤ instant) :
    Overtakes origin origin instant ↔ FallsBehind origin instant := by
  have hrange := origin.in_range
  have hrangeInstant := instant.in_range
  constructor
  · intro hovertakes
    rcases seconds_of_le h with hafter | ⟨hday, hsecond, hnano⟩
    · have hbounds := leapSecondsFrom_bounds origin instant
      unfold Overtakes at hovertakes
      dsimp only at hovertakes
      rw [leapSecondsFrom_self] at hovertakes
      by_cases hleap : origin.isLeapSecond
      · rw [if_pos hleap] at hovertakes
        -- The leap second is lost, so that the instant has no later time of day.
        have hpassed : instant.seconds = origin.seconds + 1 := by omega
        have hlost : origin.leapSecondsFrom instant = 0 := by omega
        have hearlier : ¬origin.second < instant.second := by
          intro hlater
          have hboth : origin.second < instant.second ∧ origin.isLeapSecond := ⟨hlater, hleap⟩
          rw [leapSecondsFrom, if_pos hboth] at hlost
          split at hlost <;> omega
        unfold seconds at hpassed
        exact ⟨hleap, by omega, by omega, by omega⟩
      · rw [if_neg hleap] at hovertakes
        omega
    · rw [← since_lt_since_iff, since_of_same rfl rfl, since_of_same hday.symm hsecond.symm] at hovertakes
      omega
  · rintro ⟨hleap, hevening, ⟨hnext, hmidnight⟩, hfraction⟩
    have hlost : origin.leapSecondsFrom instant = 0 := by
      simp [leapSecondsFrom, hevening, hmidnight]
    refine .inr ⟨?_, hfraction⟩
    rw [leapSecondsFrom_self, if_pos hleap, hlost]
    unfold seconds
    omega

theorem since_nonneg_iff {origin instant : Instant} (h : origin ≤ instant) :
    0 ≤ instant.since origin ↔ ¬FallsBehind origin instant := by
  have hself : origin.since origin = 0 := by rw [since_of_same rfl rfl, Int.sub_self]
  rw [← overtakes_origin_iff h, ← since_lt_since_iff, hself, Int.not_lt]

end VoyageLog.Instant
