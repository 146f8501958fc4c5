import VoyageLog.Calendar.Iso8601
import VoyageLog.Calendar.Rfc3339
import VoyageLog.Proofs.Calendar.Civil
import VoyageLog.Proofs.Text.Digits
import VoyageLog.Proofs.Text.Lines

namespace VoyageLog

open Calendar Text

-- The instants with a written form that is read: the year has four digits, and a leap second ends its minute.
structure Instant.Writable (instant : Instant) : Prop where
  year : 0 ≤ yearOf instant.day ∧ yearOf instant.day ≤ 9999
  leap : instant.isLeapSecond = true → instant.second % 60 = 59

theorem Instant.writable_iff (instant : Instant) : instant.Writable ↔
    (0 ≤ yearOf instant.day ∧ yearOf instant.day ≤ 9999) ∧
      (instant.isLeapSecond = true → instant.second % 60 = 59) :=
  ⟨fun h => ⟨h.year, h.leap⟩, fun h => ⟨h.1, h.2⟩⟩

instance (instant : Instant) : Decidable instant.Writable := decidable_of_iff' _ instant.writable_iff

namespace Calendar

theorem monthLength_le {leap : Bool} {month day : Nat} (hday : 1 ≤ day) (hlength : day ≤ monthLength leap month) :
    day ≤ 31 := by
  have hall : ∀ leap : Bool, ∀ month < 13, monthLength leap month ≤ 31 := by decide
  have hmonth := (month_of_day hday hlength).2
  exact Nat.le_trans hlength (hall leap month (by omega))

-- Neither a digit nor a point, so that no number and no fraction goes on with it.
def EndsNumber (rest : Text) : Prop := ∀ c, rest.head? = some c → c.isDigit = false ∧ c ≠ '.'

section Fraction

variable {rest : Text}

-- As many zeros as are missing to nine places.
theorem fraction_of_places {places value : Nat} (hplaces : 0 < places) (hnine : places ≤ 9)
    (hvalue : value < 10 ^ places) (hrest : EndsNumber rest) :
    Iso8601.fraction ('.' :: padded places value ++ rest) = some (value * 10 ^ (9 - places), rest) := by
  have hlength := length_padded hplaces hvalue
  have hrun := digitRun_append (allDigits_padded places value) fun c hc => (hrest c hc).1
  have hne : (padded places value).isEmpty = false := by
    rw [List.isEmpty_eq_false_iff, ← List.length_pos_iff, hlength]
    exact hplaces
  have hfilled : (padded places value ++ List.replicate 9 '0').take 9 =
      padded places value ++ List.replicate (9 - places) '0' := by
    rw [List.take_append, hlength, List.take_of_length_le (by omega), List.take_replicate]
    congr 2
    omega
  rw [List.cons_append, Iso8601.fraction, hrun]
  simp only [hne, Bool.false_eq_true, if_false, hfilled]
  rw [number_append, number_zeros, number_padded, List.length_replicate, Nat.add_zero]

-- So many places, and no point without any.
def fractionOf (places nano : Nat) : Text :=
  if places = 0 then [] else '.' :: padded places (nano / 10 ^ (9 - places))

-- A fraction is read whole if it has places enough.
theorem fraction_fractionOf {places nano : Nat} (hplaces : places ≤ 9) (hnano : nano < 1000000000)
    (hexact : 10 ^ (9 - places) ∣ nano) (hrest : EndsNumber rest) :
    Iso8601.fraction (fractionOf places nano ++ rest) = some (nano, rest) := by
  unfold fractionOf
  split
  · rename_i hnone
    rw [hnone] at hexact
    obtain rfl : nano = 0 := Nat.eq_zero_of_dvd_of_lt hexact hnano
    rw [List.nil_append]
    unfold Iso8601.fraction
    split
    · exact absurd rfl (hrest '.' rfl).2
    · rfl
  · have hpower : 10 ^ places * 10 ^ (9 - places) = 1000000000 := by
      rw [← Nat.pow_add, Nat.add_sub_cancel' hplaces]
    have hvalue : nano / 10 ^ (9 - places) < 10 ^ places := by
      rwa [Nat.div_lt_iff_lt_mul (Nat.pow_pos (by decide)), hpower]
    rw [fraction_of_places (by omega) hplaces hvalue hrest, Nat.div_mul_cancel hexact]

-- What is written has places enough, the least of none, three, six and nine.
theorem exists_places (nano : Nat) :
    ∃ places ≤ 9, 10 ^ (9 - places) ∣ nano ∧ Rfc3339.fraction nano = fractionOf places nano := by
  unfold Rfc3339.fraction
  split
  · rename_i hzero
    subst hzero
    exact ⟨0, by decide, Nat.dvd_zero _, rfl⟩
  · split
    · rename_i hthree
      exact ⟨3, by decide, Nat.dvd_of_mod_eq_zero hthree, rfl⟩
    · split
      · rename_i hsix
        exact ⟨6, by decide, Nat.dvd_of_mod_eq_zero hsix, rfl⟩
      · exact ⟨9, by decide, Nat.one_dvd _, by simp [fractionOf]⟩

end Fraction

theorem hour_lt (time : TimeOfDay) : time.hour < 24 := by
  have hsecond := time.in_range.1
  simp only [TimeOfDay.hour]
  omega

-- The last second of a minute is carried on as a sixtieth one.
theorem timeOfDay_of_written (time : TimeOfDay) (hleap : 1000000000 ≤ time.nano → time.second % 60 = 59) :
    Iso8601.timeOfDay? time.hour time.minute
      (time.secondOfMinute + if 1000000000 ≤ time.nano then 1 else 0)
      (if 1000000000 ≤ time.nano then time.nano - 1000000000 else time.nano) = some time := by
  obtain ⟨hsecond, hnano⟩ := time.in_range
  have hparts : time.hour * 3600 + time.minute * 60 + time.secondOfMinute = time.second := by
    simp only [TimeOfDay.hour, TimeOfDay.minute, TimeOfDay.secondOfMinute]
    omega
  have hhour := hour_lt time
  have hminute : time.minute < 60 := Nat.mod_lt _ (by decide)
  have hlast : time.secondOfMinute < 60 := Nat.mod_lt _ (by decide)
  have hback : TimeOfDay.ofParts? time.hour time.minute time.secondOfMinute time.nano = some time := by
    rw [TimeOfDay.ofParts?, dif_pos ⟨hhour, hminute, hlast, hnano⟩]
    simp only [hparts]
  by_cases hlong : 1000000000 ≤ time.nano
  · have hsixty : time.secondOfMinute = 59 := hleap hlong
    rw [hsixty] at hback
    rw [if_pos hlong, if_pos hlong, hsixty, Iso8601.timeOfDay?, if_pos rfl, Nat.sub_add_cancel hlong, hback]
  · rw [if_neg hlong, if_neg hlong, Nat.add_zero, Iso8601.timeOfDay?, if_neg (by omega), hback]

-- At no offset from UTC the date and time are those of the instant.
theorem shifted_of_utc (date : Date) (time : TimeOfDay) :
    Iso8601.shifted? date time 0 = some (Instant.onDate date time) := by
  obtain ⟨hsecond, hnano⟩ := time.in_range
  obtain ⟨hfirst, hlast⟩ := date.dayNumber_mem
  have hday : date.dayNumber + ((time.second : Int) - 0) / 86400 = date.dayNumber := by omega
  have hback : ((((time.second : Int) - 0) % 86400).toNat) = time.second := by omega
  simp only [Iso8601.shifted?, hday, hback]
  rw [Instant.ofParts?, dif_pos ⟨hfirst, hlast, hsecond, hnano⟩]
  rfl

theorem onDate_time {instant : Instant} {date : Date} (h : date.dayNumber = instant.day) :
    Instant.onDate date instant.time = instant := by
  cases instant
  subst h
  rfl

-- A part that is read makes way for the next one.
theorem bind_of_read {α β : Type} {part : Option α} {found : α} {next : α → Option β} (h : part = some found) :
    (part >>= next) = next found := by
  rw [h]
  rfl

-- Numbers and marks in their places, and what comes after them.
def spelled (year month day hour minute second : Nat) (rest : Text) : Text :=
  padded 4 year ++ '-' :: (padded 2 month ++ '-' :: (padded 2 day ++ 'T' ::
    (padded 2 hour ++ ':' :: (padded 2 minute ++ ':' :: (padded 2 second ++ rest)))))

-- What the reader makes of them leaves the zone to be read.
theorem zoned_spelled {year month day hour minute second nano : Nat} {rest zone : Text}
    (hyear : year < 10000) (hmonth : month < 100) (hday : day < 100) (hhour : hour < 100)
    (hminute : minute < 100) (hsecond : second < 100) (hfraction : Iso8601.fraction rest = some (nano, zone)) :
    Iso8601.zoned? (spelled year month day hour minute second rest) =
      (do
        let (east, after) ← Iso8601.offset zone
        if after.isEmpty then
          let date ← Date.ofParts? year month day
          let time ← Iso8601.timeOfDay? hour minute second nano
          Iso8601.shifted? date time east
        else none) := by
  have hfour : ∀ rest, readExactly 4 (padded 4 year ++ rest) = some (year, rest) :=
    fun rest => readExactly_padded rest (by decide) hyear
  have htwo : ∀ {value} rest, value < 100 → readExactly 2 (padded 2 value ++ rest) = some (value, rest) :=
    fun rest hvalue => readExactly_padded rest (by decide) hvalue
  have hmark : ∀ mark rest, Iso8601.literal mark (mark :: rest) = some rest := fun mark rest => if_pos rfl
  have hseparator : ∀ rest, Iso8601.separator ('T' :: rest) = some rest := fun rest => rfl
  unfold Iso8601.zoned? spelled
  refine (bind_of_read (hfour _)).trans ?_
  refine (bind_of_read (hmark _ _)).trans ?_
  refine (bind_of_read (htwo _ hmonth)).trans ?_
  refine (bind_of_read (hmark _ _)).trans ?_
  refine (bind_of_read (htwo _ hday)).trans ?_
  refine (bind_of_read (hseparator _)).trans ?_
  refine (bind_of_read (htwo _ hhour)).trans ?_
  refine (bind_of_read (hmark _ _)).trans ?_
  refine (bind_of_read (htwo _ hminute)).trans ?_
  refine (bind_of_read (hmark _ _)).trans ?_
  refine (bind_of_read (htwo _ hsecond)).trans ?_
  exact bind_of_read hfraction

-- Date and time to the second, which is the sixtieth in a leap second, and what comes after it.
def upToSecond (instant : Instant) (rest : Text) : Text :=
  Rfc3339.date instant.day ++ 'T' :: (padded 2 instant.time.hour ++ ':' :: (padded 2 instant.time.minute ++ ':' ::
    (padded 2 (instant.time.secondOfMinute + if 1000000000 ≤ instant.nano then 1 else 0) ++ rest)))

theorem fraction_eq_mod (instant : Instant) :
    (if 1000000000 ≤ instant.nano then instant.nano - 1000000000 else instant.nano) = instant.nano % 1000000000 := by
  have hnano := instant.in_range.2.2.2
  split <;> omega

theorem unzoned_append (instant : Instant) (zone : Text) : Rfc3339.unzoned instant ++ zone =
    upToSecond instant (Rfc3339.fraction (instant.nano % 1000000000) ++ zone) := by
  rw [← fraction_eq_mod]
  simp [Rfc3339.unzoned, Rfc3339.time, upToSecond, Instant.time]
  rfl

-- What is written of an instant are numbers from which the reader gets its date and its time.
structure SpelledBy (instant : Instant) (date : Date) (second : Nat) : Prop where
  ofDate : Date.ofParts? (date.year.toNat : Nat) date.month date.day = some date
  ofTime : Iso8601.timeOfDay? instant.time.hour instant.time.minute second (instant.nano % 1000000000) =
    some instant.time
  together : Instant.onDate date instant.time = instant
  fits : date.year.toNat < 10000 ∧ date.month < 100 ∧ date.day < 100 ∧ instant.time.hour < 100 ∧
    instant.time.minute < 100 ∧ second < 100
  text : ∀ rest, upToSecond instant rest =
    spelled date.year.toNat date.month date.day instant.time.hour instant.time.minute second rest

theorem exists_spelledBy {instant : Instant} (h : instant.Writable) :
    ∃ date second, SpelledBy instant date second := by
  obtain ⟨date, hdate, hcivil⟩ := civil_date instant.in_range.1 instant.in_range.2.1
  obtain ⟨-, -, hday, hlength⟩ := date.valid
  have hmonth := (month_of_day hday hlength).2
  have hdays := monthLength_le hday hlength
  have hyear : 0 ≤ date.year ∧ date.year ≤ 9999 := by
    have hsame : yearOf instant.day = date.year := congrArg (·.1) hcivil
    rw [← hsame]
    exact h.year
  have htime := timeOfDay_of_written instant.time fun hlong => h.leap (decide_eq_true hlong)
  have hhour := hour_lt instant.time
  have hminute : instant.time.minute < 60 := Nat.mod_lt _ (by decide)
  have hsecond : instant.time.secondOfMinute < 60 := Nat.mod_lt _ (by decide)
  refine ⟨date, instant.time.secondOfMinute + if 1000000000 ≤ instant.nano then 1 else 0, ?_, ?_, onDate_time hdate,
    ?_, fun rest => ?_⟩
  · rw [Date.ofParts?, Int.toNat_of_nonneg hyear.1, dif_pos date.valid]
  · rw [← fraction_eq_mod]
    exact htime
  · refine ⟨by omega, by omega, by omega, by omega, by omega, ?_⟩
    split <;> omega
  · simp [upToSecond, spelled, Rfc3339.date, Rfc3339.year, hcivil, hyear]

section Zoned

variable {instant : Instant} {fraction zone : Text}

-- An instant written with any zone that is no offset is read as itself.
theorem zoned_upToSecond (h : instant.Writable)
    (hfraction : Iso8601.fraction (fraction ++ zone) = some (instant.nano % 1000000000, zone))
    (hzone : Iso8601.offset zone = some (0, [])) :
    Iso8601.zoned? (upToSecond instant (fraction ++ zone)) = some instant := by
  obtain ⟨date, second, hspelled⟩ := exists_spelledBy h
  obtain ⟨hyear, hmonth, hday, hhour, hminute, hsecond⟩ := hspelled.fits
  rw [hspelled.text, zoned_spelled hyear hmonth hday hhour hminute hsecond hfraction, hzone]
  simp only [Option.bind_eq_bind, Option.bind_some, List.isEmpty_nil, if_true, hspelled.ofDate, hspelled.ofTime,
    shifted_of_utc, hspelled.together]

theorem zoned_unzoned (zone : Text) (h : instant.Writable)
    (hzone : Iso8601.offset zone = some (0, [])) (hends : EndsNumber zone) :
    Iso8601.zoned? (Rfc3339.unzoned instant ++ zone) = some instant := by
  obtain ⟨places, hplaces, hexact, hfraction⟩ := exists_places (instant.nano % 1000000000)
  rw [unzoned_append, hfraction]
  exact zoned_upToSecond h (fraction_fractionOf hplaces (Nat.mod_lt _ (by decide)) hexact hends) hzone

end Zoned

-- Besides digits only marks are written.
theorem mem_padded {width value : Nat} {c : Char} (h : c ∈ padded width value) : c.isDigit = true := by
  have hall := allDigits_padded width value
  rw [allDigits, List.all_eq_true] at hall
  exact hall c h

theorem mem_fractionOf {places nano : Nat} {c : Char} (h : c ∈ fractionOf places nano) :
    c.isDigit = true ∨ c = '.' := by
  unfold fractionOf at h
  split at h
  · cases h
  · exact (List.mem_cons.mp h).symm.imp_left mem_padded

theorem mem_year {value : Int} {c : Char} (h : c ∈ Rfc3339.year value) :
    c.isDigit = true ∨ c = '-' ∨ c = '+' := by
  unfold Rfc3339.year at h
  split at h
  · exact .inl (mem_padded h)
  · rcases List.mem_cons.mp h with rfl | h
    · split <;> simp
    · exact .inl (mem_padded h)

-- The characters that an instant is written with.
def IsWritten (c : Char) : Prop := c.isDigit = true ∨ c ∈ ['-', '+', ':', '.', 'T']

theorem mem_upToSecond {instant : Instant} {rest : Text} {c : Char} (h : c ∈ upToSecond instant rest) :
    IsWritten c ∨ c ∈ rest := by
  simp only [upToSecond, Rfc3339.date, List.mem_append, List.mem_cons] at h
  have hpadded : ∀ {width value}, c ∈ padded width value → c.isDigit = true := mem_padded
  have hyear : ∀ {value}, c ∈ Rfc3339.year value → c.isDigit = true ∨ c = '-' ∨ c = '+' := mem_year
  simp only [IsWritten]
  grind

theorem mem_unzoned {instant : Instant} {c : Char} (h : c ∈ Rfc3339.unzoned instant) :
    c.isDigit = true ∨ c ∈ ['-', '+', ':', '.', 'T'] := by
  obtain ⟨places, -, -, hfraction⟩ := exists_places (instant.nano % 1000000000)
  rw [← List.append_nil (Rfc3339.unzoned instant), unzoned_append, hfraction, List.append_nil] at h
  rcases mem_upToSecond h with h | h
  · exact h
  · exact (mem_fractionOf h).imp_right fun hpoint => by simp [hpoint]

-- Text that has neither blanks nor quotes to be taken off.
def Unwrapped (text : Text) : Prop := ∀ c ∈ text, isBlank c = false ∧ c ≠ '"'

instance (text : Text) : Decidable (Unwrapped text) := List.decidableBAll (fun c => isBlank c = false ∧ c ≠ '"') text

theorem IsWritten.unwrapped {c : Char} (h : IsWritten c) : isBlank c = false ∧ c ≠ '"' := by
  rcases h with h | h
  · refine ⟨isBlank_of_isDigit h, ?_⟩
    rintro rfl
    cases h
  · have hall : Unwrapped ['-', '+', ':', '.', 'T'] := by decide
    exact hall c h

-- Quotes around text and blanks around these do not matter.
theorem read_wrapped {text front back : Text} (before after : Nat) (h : Unwrapped text)
    (hfront : ∀ c ∈ front, isBlank c = true) (hback : ∀ c ∈ back, isBlank c = true) :
    Iso8601.read? (front ++ ((List.replicate before '"' ++ (text ++ List.replicate after '"')) ++ back)) =
      (Iso8601.zoned? text <|> Iso8601.local? text) := by
  have hquotes : ∀ count, ∀ c ∈ List.replicate count '"', (c == '"') = true := by simp +contextual
  have htrim : trim (front ++ ((List.replicate before '"' ++ (text ++ List.replicate after '"')) ++ back)) =
      List.replicate before '"' ++ (text ++ List.replicate after '"') := by
    rw [trim, dropBothWhile_surrounded hfront hback]
    apply dropBothWhile_of_forall
    intro c hc
    have hquote : isBlank '"' = false := by decide
    rcases List.mem_append.mp hc with hc | hc
    · rw [List.eq_of_mem_replicate hc, hquote]
    · rcases List.mem_append.mp hc with hc | hc
      · exact (h c hc).1
      · rw [List.eq_of_mem_replicate hc, hquote]
  have hbare : dropBothWhile (· == '"') (List.replicate before '"' ++ (text ++ List.replicate after '"')) = text := by
    rw [dropBothWhile_surrounded (hquotes before) (hquotes after)]
    exact dropBothWhile_of_forall fun c hc => beq_eq_false_iff_ne.mpr (h c hc).2
  simp only [Iso8601.read?, htrim, hbare]

theorem unwrapped_unzoned (instant : Instant) {zone : Text} (h : Unwrapped zone) :
    Unwrapped (Rfc3339.unzoned instant ++ zone) := by
  intro c hc
  rcases List.mem_append.mp hc with hc | hc
  · exact IsWritten.unwrapped (mem_unzoned hc)
  · exact h c hc

theorem read_unzoned {instant : Instant} {zone : Text} (h : instant.Writable)
    (hzone : Iso8601.offset zone = some (0, [])) (hends : EndsNumber zone) (hmarks : Unwrapped zone) :
    Iso8601.read? (Rfc3339.unzoned instant ++ zone) = some instant := by
  have hnone : ∀ c ∈ ([] : Text), isBlank c = true := by simp
  have hread := read_wrapped 0 0 (unwrapped_unzoned instant hmarks) hnone hnone
  rw [zoned_unzoned zone h hzone hends] at hread
  simpa using hread

theorem read_withOffset {instant : Instant} (h : instant.Writable) :
    Iso8601.read? (Rfc3339.withOffset instant) = some instant :=
  read_unzoned h rfl (by simp [EndsNumber]) (by decide)

theorem read_withZulu {instant : Instant} (h : instant.Writable) :
    Iso8601.read? (Rfc3339.withZulu instant) = some instant :=
  read_unzoned h rfl (by simp [EndsNumber]) (by decide)

end Calendar

end VoyageLog
