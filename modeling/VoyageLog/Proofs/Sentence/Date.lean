import VoyageLog.Proofs.Sentence.Pairs
import VoyageLog.TimeSource.Listener

namespace VoyageLog

theorem Date.ofParts?_eq_some_iff {year : Int} {month day : Nat} {date : Date} :
    Date.ofParts? year month day = some date ↔ date.year = year ∧ date.month = month ∧ date.day = day := by
  constructor
  · intro h
    simp only [Date.ofParts?] at h
    split at h
    · obtain rfl := Option.some.inj h
      exact ⟨rfl, rfl, rfl⟩
    · cases h
  · rintro ⟨rfl, rfl, rfl⟩
    exact dif_pos date.valid

namespace Sentence

open Text

-- The years that two digits stand for begin in 1970.
def windowedYear (year : Text) : Nat := if number year < 70 then 2000 + number year else 1900 + number year

-- A date as six digits in front spell it, and what follows them.
def SpellsDate (date : Date) (rest text : Text) : Prop :=
  ∃ day month year, Pairs day month year rest text ∧
    date.year = windowedYear year ∧ date.month = number month ∧ date.day = number day

section Reading

variable {field rest text : Text} {date : Date}

theorem recentDate?_fullYear (day month : Nat) (year : Text) :
    recentDate? (fullYear (number year)) month day = Date.ofParts? (windowedYear year) month day := by
  have hyear : fullYear (number year) = windowedYear year := by
    unfold fullYear windowedYear
    split <;> split <;> omega
  have hrecent : 1900 ≤ windowedYear year := by
    unfold windowedYear
    split <;> omega
  rw [hyear, recentDate?, if_pos hrecent]

-- What the numbers of three pairs make, whatever follows them.
def dateOfPairs? (day month year : Nat) (_ : Text) : Option Date := recentDate? (fullYear year) month day

theorem dayMonthYear?_eq : dayMonthYear? field =
    if (trim field).all (·.toNat < 128) then
      (do
        let (day, rest) ← readExactly 2 (trim field)
        let (month, rest) ← readExactly 2 rest
        let (year, rest) ← readExactly 2 rest
        dateOfPairs? day month year rest)
    else none := rfl

theorem dayMonthYear?_eq_some_iff : dayMonthYear? field = some date ↔
    ∃ rest, IsAscii rest ∧ SpellsDate date rest (trim field) := by
  rw [dayMonthYear?_eq]
  by_cases hascii : (trim field).all (·.toNat < 128) = true
  · rw [if_pos hascii, bind_pairs_eq_some_iff dateOfPairs?]
    rw [all_ascii_iff] at hascii
    simp only [dateOfPairs?, recentDate?_fullYear, Date.ofParts?_eq_some_iff]
    constructor
    · rintro ⟨day, month, year, rest, hpairs, hdate⟩
      exact ⟨rest, hpairs.isAscii_rest hascii, day, month, year, hpairs, hdate⟩
    · rintro ⟨rest, -, day, month, year, hpairs, hdate⟩
      exact ⟨day, month, year, rest, hpairs, hdate⟩
  · rw [if_neg hascii]
    simp only [reduceCtorEq, false_iff]
    rintro ⟨rest, hrest, day, month, year, hpairs, -⟩
    exact hascii (all_ascii_iff.mpr (hpairs.isAscii hrest))

theorem isSome_dayMonthYear? : (dayMonthYear? field).isSome = true ↔
    ∃ day month year rest, Pairs day month year rest (trim field) ∧ IsAscii rest ∧
      Calendar.IsDate (windowedYear year) (number month) (number day) := by
  rw [Option.isSome_iff_exists]
  simp only [dayMonthYear?_eq_some_iff]
  constructor
  · rintro ⟨date, rest, hrest, day, month, year, hpairs, hyear, hmonth, hday⟩
    have hvalid := date.valid
    rw [hyear, hmonth, hday] at hvalid
    exact ⟨day, month, year, rest, hpairs, hrest, hvalid⟩
  · rintro ⟨day, month, year, rest, hpairs, hrest, hvalid⟩
    exact ⟨⟨_, _, _, hvalid⟩, rest, hrest, day, month, year, hpairs, rfl, rfl, rfl⟩

theorem SpellsDate.length_eq (h : SpellsDate date rest text) : text.length = rest.length + 6 := by
  obtain ⟨day, month, year, hpairs, -⟩ := h
  exact hpairs.length_eq

-- Six characters leave room for nothing else.
theorem dayMonthYear?_of_six (hlength : (trim field).length = 6) :
    dayMonthYear? field = some date ↔ SpellsDate date [] (trim field) := by
  rw [dayMonthYear?_eq_some_iff]
  constructor
  · rintro ⟨rest, hrest, hspells⟩
    have hsame := hspells.length_eq
    obtain rfl : rest = [] := List.eq_nil_of_length_eq_zero (by omega)
    exact hspells
  · exact fun hspells => ⟨[], isAscii_nil, hspells⟩

end Reading

-- The reading that goes by places in bytes: six bytes must be there, and digits, and are cut at the second and the
-- fourth.
def dayMonthYearByPlaces (field : Text) : Except MisplacedCut (Option Date) :=
  let bare := trim field
  if 6 ≤ byteLength bare ∧ IsAscii bare then do
    let digits ← slice 0 6 bare
    if allDigits digits then do
      let day ← slice 0 2 bare
      let month ← slice 2 4 bare
      let year ← slice 4 6 bare
      pure (recentDate? (fullYear (number year)) (number month) (number day))
    else pure none
  else pure none

theorem dayMonthYearByPlaces_eq (field : Text) : dayMonthYearByPlaces field = .ok (dayMonthYear? field) := by
  have hnone (h : ¬((6 ≤ byteLength (trim field) ∧ IsAscii (trim field)) ∧ allDigits ((trim field).take 6) = true)) :
      dayMonthYear? field = none := by
    refine Option.eq_none_iff_forall_ne_some.mpr fun date hread => h ?_
    obtain ⟨rest, hrest, day, month, year, hpairs, -⟩ := dayMonthYear?_eq_some_iff.mp hread
    exact hpairs.guards hrest
  unfold dayMonthYearByPlaces
  by_cases hguard : 6 ≤ byteLength (trim field) ∧ IsAscii (trim field)
  · have hlength := hguard.1
    rw [byteLength_of_ascii hguard.2] at hlength
    simp only [if_pos hguard, slice_of_ascii hguard.2 (Nat.zero_le 6) hlength, List.drop_zero, bind, Except.bind]
    by_cases hdigits : allDigits ((trim field).take 6) = true
    · obtain ⟨day, month, year, hpairs⟩ := exists_pairs hlength hdigits
      have hread : dayMonthYear? field = recentDate? (fullYear (number year)) (number month) (number day) := by
        rw [dayMonthYear?_eq, if_pos (all_ascii_iff.mpr hguard.2)]
        exact hpairs.bind_eq dateOfPairs?
      simp only [if_pos hdigits, hpairs.slices hguard.2, hread]
      rfl
    · rw [if_neg hdigits, hnone fun h => hdigits h.2]
      rfl
  · rw [if_neg hguard, hnone fun h => hguard h.1]
    rfl

-- A field is read as the date that its first six digits spell, if there is such a date, whatever ASCII follows them. A
-- whole field spells the date it is read as exactly if that leaves nothing over. No cut is ever misplaced.
theorem reads_first_six_digits (field : Text) :
    (∀ date, dayMonthYear? field = some date ↔ ∃ rest, IsAscii rest ∧ SpellsDate date rest (trim field)) ∧
      ((dayMonthYear? field).isSome = true ↔ ∃ day month year rest, Pairs day month year rest (trim field) ∧
        IsAscii rest ∧ Calendar.IsDate (windowedYear year) (number month) (number day)) ∧
      ((∀ date, dayMonthYear? field = some date ↔ SpellsDate date [] (trim field)) ↔
        ((dayMonthYear? field).isSome = true → (trim field).length = 6)) ∧
      dayMonthYearByPlaces field = .ok (dayMonthYear? field) := by
  refine ⟨fun date => dayMonthYear?_eq_some_iff, isSome_dayMonthYear?, ⟨?_, ?_⟩, dayMonthYearByPlaces_eq field⟩
  · intro hwhole hread
    obtain ⟨date, hdate⟩ := Option.isSome_iff_exists.mp hread
    exact ((hwhole date).mp hdate).length_eq
  · intro hsix date
    constructor
    · intro hdate
      exact (dayMonthYear?_of_six (hsix (Option.isSome_of_eq_some hdate))).mp hdate
    · exact fun hspells => dayMonthYear?_eq_some_iff.mpr ⟨[], isAscii_nil, hspells⟩

-- The last day of the window between blanks, and a year of four digits.
theorem reads_first_six_digits_of_two_fields :
    (∀ date, dayMonthYear? " 311269 ".toList = some date ↔ SpellsDate date [] (trim " 311269 ".toList)) ∧
      ¬∀ date, dayMonthYear? "01012024".toList = some date ↔ SpellsDate date [] (trim "01012024".toList) := by
  have hlast := (reads_first_six_digits " 311269 ".toList).2.2.1
  have hlong := (reads_first_six_digits "01012024".toList).2.2.1
  refine ⟨hlast.mpr fun _ => by decide +kernel, ?_⟩
  rw [hlong]
  decide +kernel

-- The first of January 2024 with its whole year is taken for the year 2020, and the listener remembers that.
theorem year_of_four_digits_cut_short :
    ∃ date, dayMonthYear? "01012024".toList = some date ∧ (date.year, date.month, date.day) = (2020, 1, 1) ∧
      ¬SpellsDate date [] (trim "01012024".toList) ∧
      (TimeSource.Listener.fresh.hear "$GPRMC,120000,A,,,,,,,01012024*".toList).2.date = some date := by
  refine ⟨⟨2020, 1, 1, by decide⟩, by decide +kernel, rfl, fun hspells => ?_, by decide +kernel⟩
  exact absurd hspells.length_eq (by decide +kernel)

end Sentence

end VoyageLog
