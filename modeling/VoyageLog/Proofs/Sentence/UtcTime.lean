import VoyageLog.Proofs.Sentence.Pairs
import VoyageLog.Proofs.Text.Lines
import VoyageLog.Sentence.UtcTime

namespace VoyageLog

theorem TimeOfDay.ofParts?_eq_some_iff {hour minute second nano : Nat} {time : TimeOfDay} :
    TimeOfDay.ofParts? hour minute second nano = some time ↔
      (hour < 24 ∧ minute < 60 ∧ second < 60) ∧
        time.hour = hour ∧ time.minute = minute ∧ time.secondOfMinute = second ∧ time.nano = nano := by
  simp only [TimeOfDay.hour, TimeOfDay.minute, TimeOfDay.secondOfMinute]
  constructor
  · intro h
    simp only [TimeOfDay.ofParts?] at h
    split at h
    · obtain rfl := Option.some.inj h
      refine ⟨by omega, ?_, ?_, ?_, rfl⟩ <;> dsimp only <;> omega
    · cases h
  · rintro ⟨hbounds, rfl, rfl, rfl, rfl⟩
    obtain ⟨hsecond, hnano⟩ := time.in_range
    have hwhole : time.second / 3600 * 3600 + time.second / 60 % 60 * 60 + time.second % 60 = time.second := by omega
    rw [TimeOfDay.ofParts?, dif_pos ⟨hbounds.1, hbounds.2.1, hbounds.2.2, hnano⟩]
    simp only [hwhole]

namespace Sentence

open Text

section Time

variable {hour minute second fraction tail text field : Text} {utc : UtcTime}

-- What may follow the six digits of a time, with the digits of the fraction: nothing, or a point and digits.
inductive IsFraction : Text → Text → Prop
  | absent : IsFraction [] []
  | present {fraction : Text} (hdigits : allDigits fraction = true) : IsFraction fraction ('.' :: fraction)

-- A time of day as a field spells it, within the bounds of a day.
structure SpellsTime (hour minute second fraction text : Text) : Prop where
  form : ∃ tail, Pairs hour minute second tail text ∧ IsFraction fraction tail
  in_range : number hour ≤ 23 ∧ number minute ≤ 59 ∧ number second ≤ 59

-- What a time of day says: three places of the fraction count, zeros where there are none, and the number of its
-- digits up to 255.
structure UtcTime.Says (utc : UtcTime) (hour minute second : Nat) (fraction : Text) : Prop where
  clock : utc.time.hour = hour ∧ utc.time.minute = minute ∧ utc.time.secondOfMinute = second
  nano : utc.time.nano = number ((fraction.take 3).rightpad 3 '0') * 1000000
  precision : utc.precision = min fraction.length 255

theorem IsFraction.digits (h : IsFraction fraction tail) : allDigits fraction = true := by
  cases h with
  | absent => rfl
  | present hdigits => exact hdigits

theorem IsFraction.isAscii (h : IsFraction fraction tail) : IsAscii tail := by
  cases h with
  | absent => exact isAscii_nil
  | present hdigits =>
    intro c hc
    rcases List.mem_cons.mp hc with rfl | hc
    · decide
    · exact isAscii_of_allDigits hdigits c hc

theorem fractionOf?_eq_some_iff : fractionOf? tail = some fraction ↔ IsFraction fraction tail := by
  constructor
  · intro h
    unfold fractionOf? at h
    split at h
    · obtain rfl := Option.some.inj h
      exact .absent
    · split at h
      · rename_i hdigits
        obtain rfl := Option.some.inj h
        exact .present hdigits
      · cases h
    · cases h
  · intro h
    cases h with
    | absent => rfl
    | present hdigits => exact if_pos hdigits

theorem milliseconds_eq (fraction : Text) : milliseconds fraction = number ((fraction.take 3).rightpad 3 '0') := by
  rw [milliseconds, List.take_append, List.rightpad, List.length_take]
  have hzeros : ['0', '0', '0'].take (3 - fraction.length) = List.replicate (3 - min 3 fraction.length) '0' := by
    rw [show ['0', '0', '0'] = List.replicate 3 '0' from rfl, List.take_replicate]
    congr 1
    omega
  rw [hzeros]

-- What the numbers of three pairs make, with what follows them.
def UtcTime.ofPairs? (hour minute second : Nat) (tail : Text) : Option UtcTime := do
  let fraction ← fractionOf? tail
  let time ← TimeOfDay.ofParts? hour minute second (milliseconds fraction * 1000000)
  some ⟨time, min fraction.length 255⟩

theorem UtcTime.ofPairs?_eq_some_iff {hour minute second : Nat} (hfraction : IsFraction fraction tail) :
    UtcTime.ofPairs? hour minute second tail = some utc ↔
      (hour ≤ 23 ∧ minute ≤ 59 ∧ second ≤ 59) ∧ utc.Says hour minute second fraction := by
  simp only [UtcTime.ofPairs?, fractionOf?_eq_some_iff.mpr hfraction, Option.bind_eq_bind, Option.bind_some]
  constructor
  · intro h
    obtain ⟨time, htime, h⟩ := Option.bind_eq_some_iff.mp h
    obtain rfl := Option.some.inj h
    obtain ⟨hbounds, hhour, hminute, hsecond, hnano⟩ := TimeOfDay.ofParts?_eq_some_iff.mp htime
    rw [milliseconds_eq] at hnano
    exact ⟨by omega, ⟨hhour, hminute, hsecond⟩, hnano, rfl⟩
  · rintro ⟨hrange, ⟨hhour, hminute, hsecond⟩, hnano, hprecision⟩
    rw [← milliseconds_eq] at hnano
    have htime : TimeOfDay.ofParts? hour minute second (milliseconds fraction * 1000000) = some utc.time :=
      TimeOfDay.ofParts?_eq_some_iff.mpr ⟨by omega, hhour, hminute, hsecond, hnano⟩
    simp only [htime, ← hprecision, Option.bind_some]

theorem UtcTime.isFraction_of_ofPairs? {hour minute second : Nat}
    (h : UtcTime.ofPairs? hour minute second tail = some utc) : ∃ fraction, IsFraction fraction tail := by
  obtain ⟨fraction, hfraction, -⟩ := Option.bind_eq_some_iff.mp h
  exact ⟨fraction, fractionOf?_eq_some_iff.mp hfraction⟩

theorem UtcTime.read?_eq_some_iff : UtcTime.read? field = some utc ↔
    ∃ hour minute second fraction, SpellsTime hour minute second fraction (trim field) ∧
      utc.Says (number hour) (number minute) (number second) fraction := by
  refine (bind_pairs_eq_some_iff UtcTime.ofPairs?).trans ?_
  constructor
  · rintro ⟨hour, minute, second, tail, hpairs, hmade⟩
    obtain ⟨fraction, hfraction⟩ := UtcTime.isFraction_of_ofPairs? hmade
    obtain ⟨hrange, hsays⟩ := (UtcTime.ofPairs?_eq_some_iff hfraction).mp hmade
    exact ⟨hour, minute, second, fraction, ⟨⟨tail, hpairs, hfraction⟩, hrange⟩, hsays⟩
  · rintro ⟨hour, minute, second, fraction, ⟨⟨tail, hpairs, hfraction⟩, hrange⟩, hsays⟩
    exact ⟨hour, minute, second, tail, hpairs, (UtcTime.ofPairs?_eq_some_iff hfraction).mpr ⟨hrange, hsays⟩⟩

theorem allDigits_places (h : allDigits fraction = true) :
    allDigits ((fraction.take 3).rightpad 3 '0') = true := by
  have htake : allDigits (fraction.take 3) = true :=
    List.all_eq_true.mpr fun c hc => List.all_eq_true.mp h c (List.mem_of_mem_take hc)
  rw [List.rightpad, allDigits_append, htake, allDigits_replicate rfl]
  rfl

theorem length_places (fraction : Text) : ((fraction.take 3).rightpad 3 '0').length = 3 := by
  simp [List.rightpad]

-- There is a time of day for all numbers within the bounds.
theorem UtcTime.exists_says {hour minute second : Nat} (hrange : hour ≤ 23 ∧ minute ≤ 59 ∧ second ≤ 59)
    (hdigits : allDigits fraction = true) : ∃ utc : UtcTime, utc.Says hour minute second fraction := by
  have hplaces := number_lt (allDigits_places hdigits)
  rw [length_places] at hplaces
  obtain ⟨time, htime⟩ : ∃ time, TimeOfDay.ofParts? hour minute second
      (number ((fraction.take 3).rightpad 3 '0') * 1000000) = some time :=
    ⟨_, dif_pos ⟨by omega, by omega, by omega, by omega⟩⟩
  obtain ⟨-, hhour, hminute, hsecond, hnano⟩ := TimeOfDay.ofParts?_eq_some_iff.mp htime
  exact ⟨⟨time, min fraction.length 255⟩, ⟨hhour, hminute, hsecond⟩, hnano, rfl⟩

-- The digits come back as far as they count.
theorem UtcTime.Says.places_eq {hour minute second : Nat} (h : utc.Says hour minute second fraction)
    (hdigits : allDigits fraction = true) :
    (padded 3 (utc.time.nano / 1000000)).take utc.precision = fraction.take 3 := by
  have hlength := length_places fraction
  have hback : padded 3 (number ((fraction.take 3).rightpad 3 '0')) = (fraction.take 3).rightpad 3 '0' := by
    have hne : (fraction.take 3).rightpad 3 '0' ≠ [] := List.ne_nil_of_length_eq_add_one hlength
    have hpadded := padded_number (allDigits_places hdigits) hne
    rwa [hlength] at hpadded
  rw [h.nano, Nat.mul_div_cancel _ (by decide), hback, h.precision, List.rightpad]
  by_cases hshort : fraction.length ≤ 3
  · rw [List.take_of_length_le hshort, Nat.min_eq_left (by omega), List.take_left]
  · have hthree : (fraction.take 3).length = 3 := by
      rw [List.length_take]
      omega
    rw [hthree, Nat.sub_self, List.replicate_zero, List.append_nil, List.take_of_length_le (by omega)]

end Time

section Places

-- The reading that goes by places in bytes: six bytes must be there, and digits, and are cut at the second and the
-- fourth; the digits of the fraction are counted by their bytes.
def UtcTime.readByPlaces (field : Text) : Except MisplacedCut (Option UtcTime) :=
  let bare := trim field
  if 6 ≤ byteLength bare ∧ IsAscii bare then do
    let (digits, tail) ← cut 6 bare
    if allDigits digits then do
      let hour ← slice 0 2 digits
      let minute ← slice 2 4 digits
      let second ← slice 4 6 digits
      pure do
        let fraction ← fractionOf? tail
        let time ← TimeOfDay.ofParts? (number hour) (number minute) (number second) (milliseconds fraction * 1000000)
        some ⟨time, min (byteLength fraction) 255⟩
    else pure none
  else pure none

theorem ofPairs?_by_bytes {hour minute second : Nat} {tail : Text} :
    (do
      let fraction ← fractionOf? tail
      let time ← TimeOfDay.ofParts? hour minute second (milliseconds fraction * 1000000)
      some ⟨time, min (byteLength fraction) 255⟩) = UtcTime.ofPairs? hour minute second tail := by
  unfold UtcTime.ofPairs?
  cases hfraction : fractionOf? tail with
  | none => rfl
  | some fraction =>
    have hdigits := (fractionOf?_eq_some_iff.mp hfraction).digits
    simp only [Option.bind_eq_bind, Option.bind_some, byteLength_of_ascii (isAscii_of_allDigits hdigits)]

theorem UtcTime.readByPlaces_eq (field : Text) : UtcTime.readByPlaces field = .ok (UtcTime.read? field) := by
  have hnone (h : ¬((6 ≤ byteLength (trim field) ∧ IsAscii (trim field)) ∧ allDigits ((trim field).take 6) = true)) :
      UtcTime.read? field = none := by
    refine Option.eq_none_iff_forall_ne_some.mpr fun utc hread => h ?_
    obtain ⟨hour, minute, second, fraction, hspells, -⟩ := UtcTime.read?_eq_some_iff.mp hread
    obtain ⟨tail, hpairs, hfraction⟩ := hspells.form
    exact hpairs.guards hfraction.isAscii
  unfold UtcTime.readByPlaces
  by_cases hguard : 6 ≤ byteLength (trim field) ∧ IsAscii (trim field)
  · have hlength := hguard.1
    rw [byteLength_of_ascii hguard.2] at hlength
    simp only [if_pos hguard, cut_of_ascii hguard.2 hlength, bind, Except.bind]
    by_cases hdigits : allDigits ((trim field).take 6) = true
    · obtain ⟨hour, minute, second, hpairs⟩ := exists_pairs hlength hdigits
      have hread : UtcTime.read? field =
          UtcTime.ofPairs? (number hour) (number minute) (number second) ((trim field).drop 6) :=
        hpairs.bind_eq UtcTime.ofPairs?
      have hslices := hpairs.alone.slices (isAscii_of_allDigits hdigits)
      simp only [if_pos hdigits, hslices, hread, ← ofPairs?_by_bytes]
      rfl
    · rw [if_neg hdigits, hnone fun h => hdigits h.2]
      rfl
  · rw [if_neg hguard, hnone fun h => hguard h.1]
    rfl

end Places

section Printing

variable {fraction tail text front back : Text}

theorem isBlank_of_spelled {hour minute second : Text} (h : SpellsTime hour minute second fraction text) :
    ∀ c ∈ text, isBlank c = false := by
  obtain ⟨tail, ⟨rfl, -, hhour, hminute, hsecond⟩, hfraction⟩ := h.form
  have hdigit : ∀ {digits : Text}, allDigits digits = true → ∀ c ∈ digits, isBlank c = false :=
    fun hdigits c hc => isBlank_of_isDigit (List.all_eq_true.mp hdigits c hc)
  intro c hc
  simp only [List.mem_append] at hc
  rcases hc with hc | hc | hc | hc
  · exact hdigit hhour c hc
  · exact hdigit hminute c hc
  · exact hdigit hsecond c hc
  · cases hfraction with
    | absent => cases hc
    | present hdigits =>
      rcases List.mem_cons.mp hc with rfl | hc
      · rfl
      · exact hdigit hdigits c hc

theorem trim_of_spelled {hour minute second : Text} (h : SpellsTime hour minute second fraction text)
    (hfront : ∀ c ∈ front, isBlank c = true) (hback : ∀ c ∈ back, isBlank c = true) :
    trim (front ++ (text ++ back)) = text :=
  (dropBothWhile_surrounded hfront hback).trans (dropBothWhile_of_forall (isBlank_of_spelled h))

-- Numbers are printed with two digits each.
theorem spells_printed {hour minute second : Nat} (hrange : hour ≤ 23 ∧ minute ≤ 59 ∧ second ≤ 59)
    (hfraction : IsFraction fraction tail) :
    SpellsTime (padded 2 hour) (padded 2 minute) (padded 2 second) fraction
      (padded 2 hour ++ (padded 2 minute ++ (padded 2 second ++ tail))) := by
  have hlength : ∀ {value}, value ≤ 99 → (padded 2 value).length = 2 :=
    fun hvalue => length_padded (by decide) (Nat.lt_succ_of_le hvalue)
  refine ⟨⟨tail, ⟨rfl, ⟨hlength ?_, hlength ?_, hlength ?_⟩, ?_⟩, hfraction⟩, ?_⟩
  · omega
  · omega
  · omega
  · exact ⟨allDigits_padded 2 hour, allDigits_padded 2 minute, allDigits_padded 2 second⟩
  · simpa only [number_padded] using hrange

end Printing

theorem UtcTime.says_of_spelled {hour minute second fraction field : Text}
    (h : SpellsTime hour minute second fraction (trim field)) :
    ∃ utc, UtcTime.read? field = some utc ∧
      utc.Says (number hour) (number minute) (number second) fraction := by
  obtain ⟨tail, -, hfraction⟩ := h.form
  obtain ⟨utc, hsays⟩ := UtcTime.exists_says h.in_range hfraction.digits
  exact ⟨utc, UtcTime.read?_eq_some_iff.mpr ⟨hour, minute, second, fraction, h, hsays⟩, hsays⟩

-- A field is read exactly if what the blanks around it leave spells a time, and then it says that time. No cut is ever
-- misplaced, whatever the field. Any numbers and any digits that are printed come back, the digits as far as they
-- count.
theorem UtcTime.reads_exactly_spelled :
    (∀ field,
      ((UtcTime.read? field).isSome = true ↔
        ∃ hour minute second fraction, SpellsTime hour minute second fraction (trim field)) ∧
      (∀ hour minute second fraction, SpellsTime hour minute second fraction (trim field) →
        ∃ utc, UtcTime.read? field = some utc ∧
          utc.Says (number hour) (number minute) (number second) fraction) ∧
      UtcTime.readByPlaces field = .ok (UtcTime.read? field)) ∧
    ∀ hour minute second fraction tail front back,
      (hour ≤ 23 ∧ minute ≤ 59 ∧ second ≤ 59) → IsFraction fraction tail →
      (∀ c ∈ front, isBlank c = true) → (∀ c ∈ back, isBlank c = true) →
      ∃ utc, UtcTime.read? (front ++ ((padded 2 hour ++ (padded 2 minute ++ (padded 2 second ++ tail))) ++ back)) =
          some utc ∧ utc.Says hour minute second fraction ∧
        (padded 3 (utc.time.nano / 1000000)).take utc.precision = fraction.take 3 := by
  refine ⟨fun field => ⟨?_, fun _ _ _ _ => UtcTime.says_of_spelled, UtcTime.readByPlaces_eq field⟩, ?_⟩
  · rw [Option.isSome_iff_exists]
    constructor
    · rintro ⟨utc, hread⟩
      obtain ⟨hour, minute, second, fraction, hspells, -⟩ := UtcTime.read?_eq_some_iff.mp hread
      exact ⟨hour, minute, second, fraction, hspells⟩
    · rintro ⟨hour, minute, second, fraction, hspells⟩
      obtain ⟨utc, hread, -⟩ := UtcTime.says_of_spelled hspells
      exact ⟨utc, hread⟩
  · intro hour minute second fraction tail front back hrange hfraction hfront hback
    have hspells := spells_printed hrange hfraction
    rw [← trim_of_spelled hspells hfront hback] at hspells
    obtain ⟨utc, hread, hsays⟩ := UtcTime.says_of_spelled hspells
    simp only [number_padded] at hsays
    exact ⟨utc, hread, hsays, hsays.places_eq hfraction.digits⟩

-- A time between blanks of several kinds, one beyond the end of the day, and one of three hundred places.
theorem UtcTime.reads_spelled_at_last_second :
    (∃ utc, UtcTime.read? "\u2003092211.29\t".toList = some utc ∧ utc.Says 9 22 11 ['2', '9']) ∧
      (¬∃ hour minute second fraction, SpellsTime hour minute second fraction (trim "240000".toList)) ∧
      ∃ utc, UtcTime.read? ([' '] ++ ((padded 2 23 ++ (padded 2 59 ++ (padded 2 59 ++
          '.' :: List.replicate 300 '9'))) ++ [])) = some utc ∧
        utc.Says 23 59 59 (List.replicate 300 '9') := by
  obtain ⟨hreads, hprints⟩ := UtcTime.reads_exactly_spelled
  refine ⟨?_, ?_, ?_⟩
  · have hspells : SpellsTime ['0', '9'] ['2', '2'] ['1', '1'] ['2', '9'] (trim "\u2003092211.29\t".toList) :=
      ⟨⟨['.', '2', '9'], ⟨by decide +kernel, by decide, by decide⟩, .present rfl⟩, by decide⟩
    exact (hreads _).2.1 _ _ _ _ hspells
  · have hnone : UtcTime.read? "240000".toList = none := by decide +kernel
    rw [← (hreads _).1, hnone]
    decide
  · obtain ⟨utc, hread, hsays, -⟩ := hprints 23 59 59 (List.replicate 300 '9') ('.' :: List.replicate 300 '9') [' '] []
      (by decide) (.present (allDigits_replicate rfl 300)) (by simp [isBlank, blankRanges]) (by simp)
    exact ⟨utc, hread, hsays⟩

end Sentence

end VoyageLog
