import VoyageLog.Proofs.Decimal.Notation
import VoyageLog.Proofs.Decimal.Shortest
import VoyageLog.Proofs.Json.Number

namespace VoyageLog.Json.Number

open Text Decimal

-- Digits that fit a word are all taken.
theorem gather_of_fits {significand : Nat} {digits : Text}
    (h : Nat.ofDigitChars 10 digits significand ≤ greatestWord) :
    gather significand digits = (Nat.ofDigitChars 10 digits significand, []) := by
  induction digits generalizing significand with
  | nil => rfl
  | cons digit rest ih =>
    rw [Nat.ofDigitChars_cons] at h ⊢
    have hgrown : 10 * significand + (digit.toNat - '0'.toNat) ≤
        Nat.ofDigitChars 10 rest (10 * significand + (digit.toNat - '0'.toNat)) := by
      rw [Nat.ofDigitChars_eq_ofDigitChars_zero]
      have hpower : 0 < 10 ^ rest.length := by positivity
      exact (Nat.le_mul_of_pos_left _ hpower).trans (Nat.le_add_right _ _)
    rw [gather, if_neg (by omega)]
    exact ih h

-- All digits of a number that fits a word, and how many of them stand after the point.
structure Spells (number : Number) (digits : Nat) (places : Nat) : Prop where
  fits : digits ≤ greatestWord
  digits_eq : Text.number (number.whole ++ number.places.getD []) = digits
  places_eq : (number.places.getD []).length = places

theorem Spells.gather_eq {number : Number} {digits places : Nat} (h : Spells number digits places) :
    gather 0 number.whole = (Text.number number.whole, []) ∧
      gather (Text.number number.whole) (number.places.getD []) = (digits, []) := by
  obtain ⟨hfits, hdigits, -⟩ := h
  have hall : Nat.ofDigitChars 10 (number.places.getD []) (Text.number number.whole) = digits := by
    rw [← hdigits, Text.number, Text.number, Nat.ofDigitChars_append]
  have hwhole : Text.number number.whole ≤ greatestWord := by
    rw [← hdigits, Text.number_append] at hfits
    have hpower : 0 < 10 ^ (number.places.getD []).length := by positivity
    exact (Nat.le_mul_of_pos_right _ hpower).trans ((Nat.le_add_right _ _).trans hfits)
  refine ⟨gather_of_fits hwhole, ?_⟩
  rw [gather_of_fits (by rw [hall]; exact hfits), hall]

-- Such a number is scaled by its last place, and by the written exponent on top of it.
theorem Spells.magnitude? {number : Number} {digits places : Nat} (h : Spells number digits places)
    (hmark : number.places.isSome ∨ number.exponent.isSome) :
    number.magnitude? =
      match number.exponent with
      | none => scale? digits (-(places : Int))
      | some (negative, written) => withExponent? digits (-(places : Int)) negative written := by
  obtain ⟨hwhole, hplaces⟩ := h.gather_eq
  have hcount := h.places_eq
  obtain ⟨negative, whole, text, exponent⟩ := number
  dsimp only at hwhole hplaces hcount hmark ⊢
  have hpower : ((([] : Text).length : Nat) : Int) - (((text.getD []).length : Int) - ([] : Text).length) =
      -(places : Int) := by
    rw [hcount]
    simp
  cases exponent with
  | none =>
    obtain ⟨after, rfl⟩ : ∃ after, text = some after := by simpa [Option.isSome_iff_exists] using hmark
    simp only [Number.magnitude?, hwhole, hplaces, hpower]
  | some written =>
    cases text <;> simp only [Number.magnitude?, hwhole, hplaces, hpower]

-- The number that a finite one is written as, for whatever decimal stands for it.
def ofScaled (negative : Bool) (scaled : Scaled) : Number :=
  let placed := scaled.placed
  if -5 < placed.before ∧ placed.before ≤ 16 then
    let (whole, places) := placed.written
    ⟨negative, whole, some (if places.isEmpty then ['0'] else places), none⟩
  else
    let power := placed.before - 1
    ⟨negative, placed.digits.take 1, if placed.digits.length = 1 then none else some (placed.digits.drop 1),
      some (power < 0, decimal power.natAbs)⟩

theorem ofFinite_eq (number : Binary64.Finite) :
    ofFinite number = ofScaled number.negative (shortest .even number) := rfl

-- What the reader takes: a whole number that is written in full has a zero after its point.
def taken (scaled : Scaled) : Scaled :=
  if 0 ≤ scaled.exponent ∧ scaled.placed.before ≤ 16 then
    ⟨scaled.digits * 10 ^ (scaled.exponent.toNat + 1), -1⟩
  else scaled

theorem taken_of_whole {scaled : Scaled} (hexponent : 0 ≤ scaled.exponent) (hbefore : scaled.placed.before ≤ 16) :
    taken scaled = ⟨scaled.digits * 10 ^ (scaled.exponent.toNat + 1), -1⟩ := if_pos ⟨hexponent, hbefore⟩

theorem taken_of_fraction {scaled : Scaled} (hexponent : scaled.exponent < 0) : taken scaled = scaled :=
  if_neg (by omega)

theorem taken_of_great {scaled : Scaled} (hbefore : 16 < scaled.placed.before) : taken scaled = scaled :=
  if_neg (by omega)

theorem taken_digits_le {scaled : Scaled} (h : Moderate scaled) : (taken scaled).digits ≤ greatestWord := by
  have hdigits := h.digits_lt
  unfold taken
  split
  · rename_i hwhole
    have hbefore : ((decimal scaled.digits).length : Int) + scaled.exponent ≤ 16 := hwhole.2
    have hpower : (decimal scaled.digits).length + (scaled.exponent.toNat + 1) ≤ 17 := by omega
    calc scaled.digits * 10 ^ (scaled.exponent.toNat + 1)
        ≤ 10 ^ (decimal scaled.digits).length * 10 ^ (scaled.exponent.toNat + 1) :=
          Nat.mul_le_mul_right _ (lt_pow_length_decimal scaled.digits).le
      _ = 10 ^ ((decimal scaled.digits).length + (scaled.exponent.toNat + 1)) := (pow_add _ _ _).symm
      _ ≤ 10 ^ 17 := Nat.pow_le_pow_right (by decide) hpower
      _ ≤ greatestWord := by decide
  · unfold greatestWord
    omega

theorem isWhole_of_head {whole : Text} (h : whole.length = 1 ∨ whole ≠ [] ∧ whole.head? ≠ some '0') :
    isWhole whole = true := by
  rcases h with hone | ⟨hne, hhead⟩
  · have hne : whole ≠ [] := by
      rintro rfl
      cases hone
    simp [isWhole, hne, hone]
  · simp [isWhole, hne, hhead]

-- In full, with a zero after the point if nothing else stands there.
theorem spells_written (negative : Bool) {scaled : Scaled} {parts : Text × Text} (h : Written scaled parts)
    (hbefore : scaled.placed.before ≤ 16) (hfits : (taken scaled).digits ≤ greatestWord) :
    Sound ⟨negative, parts.1, some (if parts.2.isEmpty then ['0'] else parts.2), none⟩ ∧
      ∃ places : Nat, (taken scaled).exponent = -(places : Int) ∧
        Spells ⟨negative, parts.1, some (if parts.2.isEmpty then ['0'] else parts.2), none⟩
          (taken scaled).digits places := by
  obtain ⟨whole, places⟩ := parts
  obtain ⟨hdigits, hnumber, hlength, hhead⟩ := h
  dsimp only at hdigits hnumber hlength hhead ⊢
  rw [allDigits_append, Bool.and_eq_true] at hdigits
  rcases le_or_gt 0 scaled.exponent with hexponent | hexponent
  · obtain rfl : places = [] := List.eq_nil_of_length_eq_zero (by omega)
    rw [List.append_nil] at hnumber
    rw [taken_of_whole hexponent hbefore] at hfits ⊢
    simp only [List.isEmpty_nil, if_true]
    refine ⟨⟨isWhole_of_head hhead, hdigits.1, ?_, by simp⟩, 1, rfl, ⟨hfits, ?_, rfl⟩⟩
    · rintro digits ⟨⟩
      exact ⟨by simp, by decide⟩
    · have hzero : Text.number ['0'] = 0 := by decide
      simp only [Option.getD_some, number_append, hnumber, hzero, List.length_singleton]
      ring
  · have hne : places ≠ [] := List.ne_nil_of_length_pos (by omega)
    rw [taken_of_fraction hexponent] at hfits ⊢
    rw [Int.toNat_of_nonpos hexponent.le, pow_zero, mul_one] at hnumber
    simp only [List.isEmpty_iff, if_neg hne]
    refine ⟨⟨isWhole_of_head hhead, hdigits.1, ?_, by simp⟩, places.length, by omega, ⟨hfits, hnumber, rfl⟩⟩
    rintro digits ⟨⟩
    exact ⟨hne, hdigits.2⟩

-- With one digit before the point and its power of ten.
theorem spells_first (negative : Bool) (value : Nat) (power : Int) (hfits : value ≤ greatestWord) :
    Sound ⟨negative, (decimal value).take 1,
        if (decimal value).length = 1 then none else some ((decimal value).drop 1),
        some (power < 0, decimal power.natAbs)⟩ ∧
      Spells ⟨negative, (decimal value).take 1,
        if (decimal value).length = 1 then none else some ((decimal value).drop 1),
        some (power < 0, decimal power.natAbs)⟩ value ((decimal value).length - 1) := by
  have hpos := length_decimal_pos value
  have hplaces : (if (decimal value).length = 1 then none else some ((decimal value).drop 1)).getD [] =
      (decimal value).drop 1 := by
    split
    · rename_i hone
      exact (List.drop_eq_nil_of_le hone.le).symm
    · rfl
  have hall := allDigits_decimal value
  rw [← List.take_append_drop 1 (decimal value), allDigits_append, Bool.and_eq_true] at hall
  refine ⟨⟨isWhole_of_head (.inl (by rw [List.length_take]; omega)), hall.1, ?_, ?_⟩, ⟨hfits, ?_, ?_⟩⟩
  · intro digits hsome
    dsimp only at hsome
    split at hsome
    · cases hsome
    · obtain rfl : _ = digits := Option.some.inj hsome
      exact ⟨List.ne_nil_of_length_pos (by rw [List.length_drop]; omega), hall.2⟩
  · rintro sign digits ⟨⟩
    exact ⟨decimal_ne_nil _, allDigits_decimal _⟩
  · rw [hplaces, List.take_append_drop, number_decimal]
  · rw [hplaces, List.length_drop]

theorem withExponent?_eq {digits power : Nat} {exponent : Int} {negative : Bool} {written : Text}
    (hwritten : Text.number written = power) (hpower : power ≤ 1000) (hleast : -1000 ≤ exponent)
    (hgreatest : exponent ≤ 1000) :
    withExponent? digits exponent negative written =
      scale? digits (if negative then exponent - (power : Int) else exponent + (power : Int)) := by
  have hclamp : ∀ exponent : Int, -2000 ≤ exponent → exponent ≤ 2000 → clampExponent exponent = exponent := by
    intro exponent hlow hhigh
    rw [clampExponent, if_neg (by omega), if_neg (by omega)]
  rw [withExponent?, hwritten, greatestExponent]
  simp only [if_neg (show ¬2147483647 < power by omega)]
  rw [hclamp _ (by split <;> omega) (by split <;> omega)]

-- What is written for a decimal is well formed, and the reader takes the same decimal from it.
theorem ofScaled_spec (negative : Bool) {scaled : Scaled} (h : Moderate scaled) :
    Sound (ofScaled negative scaled) ∧
      (ofScaled negative scaled).magnitude? = scale? (taken scaled).digits (taken scaled).exponent := by
  have hfits := taken_digits_le h
  obtain ⟨hdigits, hleast, hgreatest, hzero⟩ := h
  have hbefore : scaled.placed.before = (decimal scaled.digits).length + scaled.exponent := rfl
  have hlength : (decimal scaled.digits).length ≤ 18 :=
    length_decimal_le (by decide) (lt_trans hdigits (by norm_num))
  have hpos := length_decimal_pos scaled.digits
  simp only [ofScaled]
  by_cases hfull : -5 < scaled.placed.before ∧ scaled.placed.before ≤ 16
  · obtain ⟨hsound, places, hplaces, hspells⟩ := spells_written negative (written_placed hzero) hfull.2 hfits
    rw [if_pos hfull]
    refine ⟨hsound, ?_⟩
    rw [hspells.magnitude? (.inl rfl), hplaces]
  · have htaken : taken scaled = scaled := by
      rcases le_or_gt 0 scaled.exponent with hexponent | hexponent
      · exact taken_of_great (by omega)
      · exact taken_of_fraction hexponent
    rw [htaken] at hfits ⊢
    obtain ⟨hsound, hspells⟩ := spells_first negative scaled.digits (scaled.placed.before - 1) hfits
    rw [if_neg hfull]
    refine ⟨hsound, (hspells.magnitude? (.inr rfl)).trans ?_⟩
    dsimp only
    rw [withExponent?_eq (number_decimal _) (by omega) (by omega) (by omega)]
    congr 1
    by_cases hnegative : scaled.placed.before - 1 < 0
    · rw [if_pos (by simpa using hnegative)]
      omega
    · rw [if_neg (by simpa using hnegative)]
      omega

end VoyageLog.Json.Number
