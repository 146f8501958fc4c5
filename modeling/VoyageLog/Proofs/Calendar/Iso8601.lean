import VoyageLog.Proofs.Calendar.Rfc3339

namespace VoyageLog.Calendar

open Text

section Numbers

variable {width value : Nat} {rest : Text}

theorem padded_eq_cons (width value : Nat) :
    ∃ first others, padded width value = first :: others ∧ first.isDigit = true := by
  have hne : padded width value ≠ [] := by
    rw [padded, List.leftpad]
    exact List.append_ne_nil_of_right_ne_nil _ (decimal_ne_nil value)
  obtain ⟨first, others, hcons⟩ := List.exists_cons_of_ne_nil hne
  have hfirst : first ∈ padded width value := by
    rw [hcons]
    exact List.mem_cons_self
  exact ⟨first, others, hcons, mem_padded hfirst⟩

-- There are no blanks before a number.
theorem dropWhile_padded (width value : Nat) (rest : Text) :
    (padded width value ++ rest).dropWhile isBlank = padded width value ++ rest := by
  obtain ⟨first, others, hcons, hdigit⟩ := padded_eq_cons width value
  rw [hcons, List.cons_append, List.dropWhile_cons_of_neg (by simp [isBlank_of_isDigit hdigit])]

theorem shortNumber_padded (h : value < 100) (hrest : ∀ c, rest.head? = some c → c.isDigit = false) :
    Iso8601.shortNumber (padded 2 value ++ rest) = some (value, rest) := by
  rw [Iso8601.shortNumber, dropWhile_padded]
  exact readUpTo_padded (by decide) h hrest

theorem signedYear_padded (h : value < 10000) (hrest : ∀ c, rest.head? = some c → c.isDigit = false) :
    Iso8601.signedYear (padded 4 value ++ rest) = some ((value : Int), rest) := by
  have hread : readUpTo 4 (padded 4 value ++ rest) = some (value, rest) := readUpTo_padded (by decide) h hrest
  obtain ⟨first, others, hcons, hdigit⟩ := padded_eq_cons 4 value
  rw [hcons, List.cons_append] at hread
  rw [Iso8601.signedYear, dropWhile_padded, hcons, List.cons_append]
  split
  · rename_i hminus
    obtain ⟨rfl, -⟩ := List.cons.inj hminus
    cases hdigit
  · rename_i hplus
    obtain ⟨rfl, -⟩ := List.cons.inj hplus
    cases hdigit
  · rw [hread]
    rfl

end Numbers

theorem local_spelled {year month day hour minute second nano : Nat} {rest zone : Text}
    (hyear : year < 10000) (hmonth : month < 100) (hday : day < 100) (hhour : hour < 100)
    (hminute : minute < 100) (hsecond : second < 100) (hrest : ∀ c, rest.head? = some c → c.isDigit = false)
    (hfraction : Iso8601.fraction rest = some (nano, zone)) :
    Iso8601.local? (spelled year month day hour minute second rest) =
      (if zone.isEmpty then do
        let date ← Date.ofParts? year month day
        let time ← Iso8601.timeOfDay? hour minute second nano
        some (Instant.onDate date time)
      else none) := by
  have hends : ∀ {mark : Char} (rest : Text), mark.isDigit = false →
      ∀ c, (mark :: rest).head? = some c → c.isDigit = false := by
    rintro mark rest hmark c hc
    obtain rfl := Option.some.inj hc
    exact hmark
  have hmark : ∀ mark rest, Iso8601.literal mark (mark :: rest) = some rest := fun mark rest => if_pos rfl
  unfold Iso8601.local? spelled
  refine (bind_of_read (signedYear_padded hyear (hends _ rfl))).trans ?_
  refine (bind_of_read (hmark _ _)).trans ?_
  refine (bind_of_read (shortNumber_padded hmonth (hends _ rfl))).trans ?_
  refine (bind_of_read (hmark _ _)).trans ?_
  refine (bind_of_read (shortNumber_padded hday (hends _ rfl))).trans ?_
  refine (bind_of_read (hmark _ _)).trans ?_
  refine (bind_of_read (shortNumber_padded hhour (hends _ rfl))).trans ?_
  refine (bind_of_read (hmark _ _)).trans ?_
  refine (bind_of_read (shortNumber_padded hminute (hends _ rfl))).trans ?_
  refine (bind_of_read (hmark _ _)).trans ?_
  refine (bind_of_read (shortNumber_padded hsecond hrest)).trans ?_
  exact bind_of_read hfraction

-- Date and time with a fraction of so many places, and a zone.
def placed (places : Nat) (instant : Instant) (zone : Text) : Text :=
  upToSecond instant (fractionOf places (instant.nano % 1000000000) ++ zone)

theorem exists_placed (instant : Instant) : ∃ places ≤ 9, 10 ^ (9 - places) ∣ instant.nano % 1000000000 ∧
    ∀ zone, Rfc3339.unzoned instant ++ zone = placed places instant zone := by
  obtain ⟨places, hplaces, hexact, hfraction⟩ := exists_places (instant.nano % 1000000000)
  refine ⟨places, hplaces, hexact, fun zone => ?_⟩
  rw [unzoned_append, hfraction, placed]

theorem unwrapped_placed (places : Nat) (instant : Instant) {zone : Text} (h : Unwrapped zone) :
    Unwrapped (placed places instant zone) := by
  intro c hc
  rcases mem_upToSecond hc with hc | hc
  · exact hc.unwrapped
  · rcases List.mem_append.mp hc with hc | hc
    · have hwritten : IsWritten c := (mem_fractionOf hc).imp_right fun hpoint => by simp [hpoint]
      exact hwritten.unwrapped
    · exact h c hc

section Reading

variable {instant : Instant} {places : Nat}

theorem zoned_placed {zone : Text} (h : instant.Writable) (hplaces : places ≤ 9)
    (hexact : 10 ^ (9 - places) ∣ instant.nano % 1000000000) (hzone : Iso8601.offset zone = some (0, []))
    (hends : EndsNumber zone) : Iso8601.zoned? (placed places instant zone) = some instant :=
  zoned_upToSecond h (fraction_fractionOf hplaces (Nat.mod_lt _ (by decide)) hexact hends) hzone

-- Without a zone the stricter reader gives up, and the looser one does not look for it.
theorem read_placed_unzoned (h : instant.Writable) (hplaces : places ≤ 9)
    (hexact : 10 ^ (9 - places) ∣ instant.nano % 1000000000) :
    Iso8601.zoned? (placed places instant []) = none ∧ Iso8601.local? (placed places instant []) = some instant := by
  have hends : EndsNumber [] := fun c hc => nomatch hc
  have hfraction := fraction_fractionOf hplaces (Nat.mod_lt instant.nano (by decide)) hexact hends
  have hpoint : ∀ c, (fractionOf places (instant.nano % 1000000000) ++ []).head? = some c → c.isDigit = false := by
    intro c hc
    unfold fractionOf at hc
    split at hc
    · cases hc
    · obtain rfl := Option.some.inj hc
      rfl
  obtain ⟨date, second, hspelled⟩ := exists_spelledBy h
  obtain ⟨hyear, hmonth, hday, hhour, hminute, hsecond⟩ := hspelled.fits
  rw [placed, hspelled.text]
  constructor
  · rw [zoned_spelled hyear hmonth hday hhour hminute hsecond hfraction]
    rfl
  · rw [local_spelled hyear hmonth hday hhour hminute hsecond hpoint hfraction]
    simp only [List.isEmpty_nil, if_true, hspelled.ofDate, hspelled.ofTime, Option.bind_eq_bind, Option.bind_some,
      hspelled.together]

end Reading

def zones : List Text := ["+00:00".toList, ['Z'], []]

theorem read_placed {instant : Instant} {places : Nat} {front back zone : Text} (before after : Nat)
    (h : instant.Writable) (hfront : ∀ c ∈ front, isBlank c = true) (hback : ∀ c ∈ back, isBlank c = true)
    (hplaces : places ≤ 9) (hexact : 10 ^ (9 - places) ∣ instant.nano % 1000000000) (hzone : zone ∈ zones) :
    Iso8601.read? (front ++ ((List.replicate before '"' ++ (placed places instant zone ++
      List.replicate after '"')) ++ back)) = some instant := by
  have hall : ∀ zone ∈ zones, Unwrapped zone := by decide
  rw [read_wrapped before after (unwrapped_placed places instant (hall zone hzone)) hfront hback]
  simp only [zones, List.mem_cons, List.not_mem_nil, or_false] at hzone
  rcases hzone with rfl | rfl | rfl
  · rw [zoned_placed h hplaces hexact rfl (by simp [EndsNumber])]
    rfl
  · rw [zoned_placed h hplaces hexact rfl (by simp [EndsNumber])]
    rfl
  · obtain ⟨hnone, hread⟩ := read_placed_unzoned h hplaces hexact
    rw [hnone, hread]
    rfl

-- An instant comes back from what is written of it, with or without a zone and with as many places as it takes or more,
-- whatever quotes stand around that and whatever blanks around these.
theorem read_undoes_writing {instant : Instant} {front back : Text} (before after : Nat) (h : instant.Writable)
    (hfront : ∀ c ∈ front, isBlank c = true) (hback : ∀ c ∈ back, isBlank c = true) :
    let wrapped : Text → Text := fun text =>
      front ++ ((List.replicate before '"' ++ (text ++ List.replicate after '"')) ++ back)
    (∀ text ∈ [Rfc3339.withOffset instant, Rfc3339.withZulu instant, Rfc3339.unzoned instant],
      Iso8601.read? (wrapped text) = some instant) ∧
    ∀ places ≤ 9, 10 ^ (9 - places) ∣ instant.nano % 1000000000 → ∀ zone ∈ zones,
      Iso8601.read? (wrapped (placed places instant zone)) = some instant := by
  intro wrapped
  have hplaced : ∀ places ≤ 9, 10 ^ (9 - places) ∣ instant.nano % 1000000000 → ∀ zone ∈ zones,
      Iso8601.read? (wrapped (placed places instant zone)) = some instant :=
    fun places hplaces hexact zone hzone => read_placed before after h hfront hback hplaces hexact hzone
  refine ⟨fun text htext => ?_, hplaced⟩
  obtain ⟨places, hplaces, hexact, hwritten⟩ := exists_placed instant
  obtain ⟨zone, hzone, rfl⟩ : ∃ zone ∈ zones, text = Rfc3339.unzoned instant ++ zone := by
    simpa [zones, Rfc3339.withOffset, Rfc3339.withZulu] using htext
  rw [hwritten]
  exact hplaced places hplaces hexact zone hzone

-- Half way through the leap second at the end of 2016.
def lateIn2016 : Instant := ⟨736328, 86399, 1500000000, by decide⟩

theorem read_undoes_writing_in_leap_second :
    lateIn2016.Writable ∧
      Iso8601.read? (['\u3000'] ++ ((['"', '"'] ++ ("2016-12-31T23:59:60.500+00:00".toList ++ ['"'])) ++ ['\t'])) =
        some lateIn2016 ∧
      Iso8601.read? (['\u3000'] ++ ((['"', '"'] ++ ("2016-12-31T23:59:60.5".toList ++ ['"'])) ++ ['\t'])) =
        some lateIn2016 := by
  have hwritable : lateIn2016.Writable := by decide +kernel
  have hfront : ∀ c ∈ ['\u3000'], isBlank c = true := List.forall_mem_singleton.mpr rfl
  have hback : ∀ c ∈ ['\t'], isBlank c = true := List.forall_mem_singleton.mpr rfl
  obtain ⟨hwritten, hplaced⟩ := read_undoes_writing 2 1 hwritable hfront hback
  have hlong := hwritten _ (List.mem_cons_self ..)
  have hshort := hplaced 1 (by decide) (by decide) [] (by decide)
  have hthree : Rfc3339.withOffset lateIn2016 = "2016-12-31T23:59:60.500+00:00".toList := by decide +kernel
  have hone : placed 1 lateIn2016 [] = "2016-12-31T23:59:60.5".toList := by decide +kernel
  rw [hthree] at hlong
  rw [hone] at hshort
  exact ⟨hwritable, hlong, hshort⟩

end VoyageLog.Calendar
