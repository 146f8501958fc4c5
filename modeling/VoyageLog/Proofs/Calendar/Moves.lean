import VoyageLog.Proofs.Calendar.Date
import VoyageLog.Proofs.Calendar.Span

namespace VoyageLog.Instant

open Calendar

-- Ordinary instants are in the order of their positions.
theorem le_iff_position {left right : Instant} (hleft : ¬left.isLeapSecond) (hright : ¬right.isLeapSecond) :
    left ≤ right ↔ left.position ≤ right.position := by
  have hrange := left.in_range
  have hrangeRight := right.in_range
  simp only [isLeapSecond, decide_eq_true_eq] at hleft hright
  rw [le_iff]
  unfold position
  omega

theorem since_of_ordinary {left right : Instant} (hleft : ¬left.isLeapSecond) (hright : ¬right.isLeapSecond) :
    left.since right = left.position - right.position := by
  rw [since_eq, leapCount]
  simp [hleft, hright]

-- An ordinary instant that is not before a leap second is not before its end either.
theorem position_of_leap_le {left right : Instant} (hleft : left.isLeapSecond) (hright : ¬right.isLeapSecond)
    (h : left ≤ right) :
    (left.day * 86400 + left.second + 1) * 1000000000 ≤ right.position := by
  have hrange := left.in_range
  simp only [isLeapSecond, decide_eq_true_eq] at hleft hright
  rw [le_iff] at h
  unfold position
  omega

theorem ofParts?_eq_some {day : Int} {second nano : Nat} {target : Instant}
    (h : ofParts? day second nano = some target) :
    target.day = day ∧ target.second = second ∧ target.nano = nano := by
  unfold ofParts? at h
  split at h
  · obtain rfl := Option.some.inj h
    exact ⟨rfl, rfl, rfl⟩
  · cases h

theorem advance?_eq_some {day second nano : Int} {target : Instant} (h : advance? day second nano = some target) :
    target.position = (day * 86400 + second) * 1000000000 + nano ∧ ¬target.isLeapSecond := by
  obtain ⟨hday, hsecond, hnano⟩ := ofParts?_eq_some h
  simp only [isLeapSecond, decide_eq_true_eq]
  unfold position
  omega

-- A position in the calendar is reached.
theorem exists_advance? {day second nano : Int}
    (hlow : firstDay * dayLength ≤ (day * 86400 + second) * 1000000000 + nano)
    (hhigh : (day * 86400 + second) * 1000000000 + nano < endOfCalendar) :
    ∃ target, advance? day second nano = some target := by
  apply Option.ne_none_iff_exists'.mp
  intro hnone
  have hout := advance?_eq_none hnone
  omega

theorem add?_zero (instant : Instant) : instant.add? 0 = some instant := by
  obtain ⟨day, second, nano, hrange⟩ := instant
  unfold add? isLeapSecond
  dsimp only
  split
  · rename_i hleap
    have hnano : 1000000000 ≤ nano := by simpa using hleap
    rw [if_neg (by omega), if_neg (by omega)]
    exact dif_pos hrange
  · rename_i hleap
    have hnano : nano < 1000000000 := by simpa using hleap
    have hday : day + ((second : Int) + ((nano : Int) + 0) / 1000000000) / 86400 = day := by omega
    have hsecond : (((second : Int) + ((nano : Int) + 0) / 1000000000) % 86400).toNat = second := by omega
    have hrest : (((nano : Int) + 0) % 1000000000).toNat = nano := by omega
    simp only [advance?, hday, hsecond, hrest]
    exact dif_pos hrange

-- A move that is no longer than the distance to a later instant, or one back within a leap second.
structure FallsShort (instant later : Instant) (nanoseconds : Int) : Prop where
  ordered : instant ≤ later
  ordinary : ¬later.isLeapSecond
  low : 0 ≤ nanoseconds ∨ -1000000000 < nanoseconds ∧ instant.isLeapSecond
  high : nanoseconds ≤ 0 ∨ nanoseconds ≤ later.since instant

theorem position_lt_end {instant : Instant} (h : ¬instant.isLeapSecond) : instant.position < endOfCalendar := by
  have hrange := instant.in_range
  simp only [isLeapSecond, decide_eq_true_eq] at h
  unfold position endOfCalendar dayLength
  omega

theorem FallsShort.of_ordinary {instant later : Instant} {nanoseconds : Int}
    (h : FallsShort instant later nanoseconds) (hinstant : ¬instant.isLeapSecond) :
    ∃ target, instant.add? nanoseconds = some target ∧ target ≤ later := by
  have hend := position_lt_end h.ordinary
  have hle := (le_iff_position hinstant h.ordinary).mp h.ordered
  have hhigh := h.high
  rw [since_of_ordinary h.ordinary hinstant] at hhigh
  have hlow : 0 ≤ nanoseconds := h.low.resolve_right fun hback => hinstant hback.2
  have hposition : (instant.day * 86400 + instant.second) * 1000000000 + (instant.nano + nanoseconds) =
      instant.position + nanoseconds := by
    unfold position
    omega
  have hstart := (position_bounds instant).1
  have hrange := instant.in_range
  obtain ⟨target, htarget⟩ :
      ∃ target, advance? instant.day instant.second (instant.nano + nanoseconds) = some target := by
    apply exists_advance?
    · unfold dayLength at *
      omega
    · omega
  obtain ⟨hreached, hordinary⟩ := advance?_eq_some htarget
  refine ⟨target, by simpa [add?, hinstant] using htarget, ?_⟩
  rw [le_iff_position hordinary h.ordinary]
  omega

theorem FallsShort.of_leap {instant later : Instant} {nanoseconds : Int}
    (h : FallsShort instant later nanoseconds) (hinstant : instant.isLeapSecond) :
    ∃ target, instant.add? nanoseconds = some target ∧ target ≤ later := by
  have hend := position_lt_end h.ordinary
  have hover := position_of_leap_le hinstant h.ordinary h.ordered
  have hlow : -1000000000 < nanoseconds := by
    have := h.low
    omega
  have hnear := (since_near later instant).2
  have hrange := instant.in_range
  have hnano : 1000000000 ≤ instant.nano := by simpa [isLeapSecond] using hinstant
  have hposition : instant.position = (instant.day * 86400 + instant.second) * 1000000000 + instant.nano := rfl
  by_cases hout : 2000000000 ≤ (instant.nano : Int) + nanoseconds
  · -- The move leaves the leap second behind.
    have hhigh : nanoseconds ≤ later.since instant := h.high.resolve_left (by omega)
    obtain ⟨target, htarget⟩ : ∃ target,
        advance? instant.day instant.second (instant.nano - 1000000000 + nanoseconds) = some target := by
      apply exists_advance?
      · unfold dayLength
        omega
      · omega
    obtain ⟨hreached, hordinary⟩ := advance?_eq_some htarget
    refine ⟨target, by simpa [add?, hinstant, hout] using htarget, ?_⟩
    rw [le_iff_position hordinary h.ordinary]
    omega
  · -- It stays in the second that the leap second carries on.
    have hstays : ¬nanoseconds ≤ -1000000000 := by omega
    have hparts : firstDay ≤ instant.day ∧ instant.day ≤ lastDay ∧ instant.second < 86400 ∧
        (instant.nano + nanoseconds).toNat < 2000000000 := by omega
    refine ⟨⟨instant.day, instant.second, (instant.nano + nanoseconds).toNat, hparts⟩, ?_, ?_⟩
    · simp [add?, hinstant, hout, hstays, ofParts?, hparts]
    · have hordinary : ¬later.isLeapSecond := h.ordinary
      have hordered := h.ordered
      simp only [isLeapSecond, decide_eq_true_eq] at hordinary
      rw [le_iff] at hordered ⊢
      dsimp only
      omega

theorem FallsShort.exists_target {instant later : Instant} {nanoseconds : Int}
    (h : FallsShort instant later nanoseconds) :
    ∃ target, instant.add? nanoseconds = some target ∧ target ≤ later := by
  by_cases hinstant : instant.isLeapSecond
  · exact h.of_leap hinstant
  · exact h.of_ordinary hinstant

-- From an ordinary instant a move leads to another one, as far away as the move is long.
theorem position_of_add? {instant target : Instant} {nanoseconds : Int} (hinstant : ¬instant.isLeapSecond)
    (h : instant.add? nanoseconds = some target) :
    target.position = instant.position + nanoseconds ∧ ¬target.isLeapSecond := by
  have hadvance : advance? instant.day instant.second (instant.nano + nanoseconds) = some target := by
    simpa [add?, hinstant] using h
  obtain ⟨hreached, hordinary⟩ := advance?_eq_some hadvance
  refine ⟨?_, hordinary⟩
  rw [hreached]
  unfold position
  omega

end VoyageLog.Instant
