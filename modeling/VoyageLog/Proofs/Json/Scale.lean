import VoyageLog.Proofs.Binary64.Exact
import VoyageLog.Proofs.Json.Finite

namespace VoyageLog.Json.Number

open Binary64 Decimal

-- The decimals whose whole number and power of ten are held exactly.
structure Exact (scaled : Scaled) : Prop where
  digits : scaled.digits ≤ 9007199254740992
  least : -22 ≤ scaled.exponent
  greatest : scaled.exponent ≤ 22

instance (scaled : Scaled) : Decidable (Exact scaled) :=
  decidable_of_iff (scaled.digits ≤ 9007199254740992 ∧ -22 ≤ scaled.exponent ∧ scaled.exponent ≤ 22)
    ⟨fun ⟨hdigits, hleast, hgreatest⟩ => ⟨hdigits, hleast, hgreatest⟩,
      fun h => ⟨h.digits, h.least, h.greatest⟩⟩

theorem ofNat_exact {whole : Nat} (hwhole : whole ≤ 9007199254740992) :
    ∃ number : Finite, Binary64.ofNat whole = .finite number ∧ number.negative = false ∧
      number.magnitude = whole := by
  obtain ⟨number, hsign, hmagnitude⟩ := exists_magnitude 0 hwhole (by decide)
  rw [pow_zero, mul_one] at hmagnitude
  refine ⟨number, ?_, hsign, hmagnitude⟩
  rw [Binary64.ofNat, nearest_eq (Nat.cast_nonneg _), ← hmagnitude, nearestSigned_magnitude, ← hsign]

-- A power of ten is one of five with a power of two behind it.
theorem powerOfTen_exact {exponent : Nat} (h : exponent ≤ 22) :
    ∃ number : Finite, powerOfTen exponent = .finite number ∧ number.negative = false ∧
      number.magnitude = 10 ^ exponent := by
  have hfive : 5 ^ exponent ≤ 9007199254740992 :=
    (Nat.pow_le_pow_right (by decide) h).trans (by decide)
  obtain ⟨number, hsign, hmagnitude⟩ := exists_magnitude exponent hfive (by omega)
  rw [← mul_pow, show 5 * 2 = 10 by rfl] at hmagnitude
  push_cast at hmagnitude
  refine ⟨number, ?_, hsign, hmagnitude⟩
  rw [powerOfTen, tenTo_eq, zpow_natCast, nearest_eq (by positivity), ← hmagnitude, nearestSigned_magnitude,
    ← hsign]

theorem scaled_value (scaled : Scaled) : scaled.value = scaled.digits * (10 : Rat) ^ scaled.exponent := by
  rw [Scaled.value, tenTo_eq]

-- Such a decimal is rounded once, so that it gives the number for which it stands.
theorem scale?_exact {scaled : Scaled} {number : Finite} (h : Exact scaled)
    (hreads : readsBack number scaled.value = true) :
    scale? scaled.digits scaled.exponent = some (.finite { number with negative := false }) := by
  obtain ⟨hdigits, hleast, hgreatest⟩ := h
  obtain ⟨whole, hwhole, hsign, hmagnitude⟩ := ofNat_exact hdigits
  obtain ⟨power, hpower, hpositive, htens⟩ := powerOfTen_exact (show scaled.exponent.natAbs ≤ 22 by omega)
  have hround : ∀ exact : Rat, exact = scaled.value →
      nearestSigned false exact = .finite { number with negative := false } := by
    rintro exact rfl
    refine nearestSigned_of_readsBack false ?_ hreads
    rw [scaled_value]
    positivity
  unfold scale?
  rw [hwhole]
  rcases lt_or_ge scaled.exponent 0 with hnegative | hnonneg
  · have hquotient : whole.magnitude / power.magnitude = scaled.value := by
      rw [scaled_value, hmagnitude, htens, div_eq_mul_inv, ← zpow_natCast, ← zpow_neg,
        Int.ofNat_natAbs_of_nonpos hnegative.le, neg_neg]
    have hpos : 0 < power.magnitude := by
      rw [htens]
      positivity
    simp only [if_pos hnegative]
    rw [divideDown, if_pos (by omega), hpower, div_unsigned hsign hpositive hpos, hround _ hquotient]
  · have hproduct : whole.magnitude * power.magnitude = scaled.value := by
      rw [scaled_value, hmagnitude, htens, ← zpow_natCast, Int.natAbs_of_nonneg hnonneg]
    have hcount : scaled.exponent.toNat = scaled.exponent.natAbs := by omega
    simp only [if_neg hnonneg.not_gt, if_pos (show scaled.exponent ≤ 308 by omega)]
    rw [hcount, hpower, mul_unsigned hsign hpositive, hround _ hproduct]
    rfl

-- No power of ten from here on is within the range.
theorem tens_beyond_range : 2 ^ 1024 ≤ 10 ^ 309 := by decide +kernel

theorem exponent_le_of_range {exponent : Nat}
    (hrange : (10 : Rat) ^ exponent ≤ (9007199254740992 - 9 / 2) * 2 ^ (971 : Int)) : exponent ≤ 308 := by
  by_contra hgreat
  have hbeyond : (2 : Rat) ^ 1024 ≤ 10 ^ 309 := by exact_mod_cast tens_beyond_range
  have hmore : (10 : Rat) ^ 309 ≤ 10 ^ exponent := pow_le_pow_right₀ (by norm_num) (by omega)
  have hend : (9007199254740992 - 9 / 2) * (2 : Rat) ^ (971 : Int) < 2 ^ 1024 := by
    rw [← zpow_natCast (2 : Rat) 1024, show ((1024 : Nat) : Int) = 53 + 971 by rfl, zpow_add₀ (by norm_num) 53 971]
    gcongr
    norm_num
  exact absurd (hbeyond.trans (hmore.trans hrange)) hend.not_ge

-- Two roundings make a product greater by less than three places, so that it is finite if that much is left.
theorem scale?_isSome {digits exponent : Nat} (hpos : 0 < digits)
    (hrange : (digits : Rat) * 10 ^ exponent ≤ (9007199254740992 - 9 / 2) * 2 ^ (971 : Int)) :
    (scale? digits exponent).isSome = true := by
  have hone : (1 : Rat) ≤ digits := by exact_mod_cast hpos
  have htens : (1 : Rat) ≤ 10 ^ exponent := one_le_pow₀ (by norm_num)
  have hlimit : (9007199254740992 - 9 / 2) * (2 : Rat) ^ (971 : Int) <
      (9007199254740991 + 1 / 2) * 2 ^ (971 : Int) := by
    gcongr
    norm_num
  have hwhole : (digits : Rat) ≤ digits * 10 ^ exponent := le_mul_of_one_le_right (by linarith only [hone]) htens
  have hpower : (10 : Rat) ^ exponent ≤ digits * 10 ^ exponent :=
    le_mul_of_one_le_left (by linarith only [htens]) hone
  obtain ⟨first, hfirst, hfirstsign, hfirstle⟩ := nearest_le hone ((hwhole.trans hrange).trans_lt hlimit)
  obtain ⟨second, hsecond, hsecondsign, hsecondle⟩ := nearest_le htens ((hpower.trans hrange).trans_lt hlimit)
  have hexponent := exponent_le_of_range (hpower.trans hrange)
  have hproduct : first.magnitude * second.magnitude < (9007199254740991 + 1 / 2) * 2 ^ (971 : Int) := by
    calc first.magnitude * second.magnitude
        ≤ digits * (1 + 1 / 9007199254740992) * (10 ^ exponent * (1 + 1 / 9007199254740992)) :=
          mul_le_mul hfirstle hsecondle (magnitude_nonneg second) (by positivity)
      _ = digits * 10 ^ exponent * (1 + 1 / 9007199254740992) ^ 2 := by ring
      _ ≤ (9007199254740992 - 9 / 2) * 2 ^ (971 : Int) * (1 + 1 / 9007199254740992) ^ 2 := by gcongr
      _ = (9007199254740992 - 9 / 2) * (1 + 1 / 9007199254740992) ^ 2 * 2 ^ (971 : Int) := by ring
      _ < (9007199254740991 + 1 / 2) * 2 ^ (971 : Int) := by
          gcongr
          norm_num
  obtain ⟨product, hfinite, -, -⟩ := nearestSigned_finite false
    (mul_nonneg (magnitude_nonneg first) (magnitude_nonneg second)) hproduct
  have htenTo : powerOfTen exponent = .finite second := by
    rw [powerOfTen, tenTo_eq, zpow_natCast, hsecond]
  unfold scale?
  simp only [if_neg (show ¬(exponent : Int) < 0 by omega), if_pos (show (exponent : Int) ≤ 308 by omega),
    Int.toNat_natCast]
  rw [htenTo, Binary64.ofNat, hfirst, mul_unsigned hfirstsign hsecondsign, hfinite]
  rfl

theorem taken_value (scaled : Scaled) : (taken scaled).value = scaled.value := by
  unfold taken
  split
  · rename_i hwhole
    rw [scaled_value, scaled_value]
    obtain ⟨count, hcount⟩ := Int.eq_ofNat_of_zero_le hwhole.1
    rw [hcount]
    dsimp only
    rw [Int.toNat_natCast, zpow_natCast, pow_succ]
    push_cast
    rw [zpow_neg_one]
    field_simp
  · rfl

theorem ofFinite_sound (number : Finite) : Sound (ofFinite number) :=
  (ofScaled_spec number.negative (moderate_shortest .even number)).1

theorem toBinary64?_ofFinite (number : Finite) :
    (ofFinite number).toBinary64? =
      (scale? (taken (shortest .even number)).digits (taken (shortest .even number)).exponent).map
        fun magnitude => if number.negative then -magnitude else magnitude := by
  have hsign : (ofFinite number).negative = number.negative := by
    rw [ofFinite_eq, ofScaled]
    dsimp only
    split <;> rfl
  rw [toBinary64?, hsign, ofFinite_eq, (ofScaled_spec number.negative (moderate_shortest .even number)).2]

-- A number whose shortest decimal is taken exactly is read as it was.
theorem toBinary64?_exact {number : Finite} (h : Exact (taken (shortest .even number))) :
    (ofFinite number).toBinary64? = some (.finite number) := by
  have hreads : readsBack number (taken (shortest .even number)).value = true := by
    rw [taken_value]
    exact readsBack_shortest .even number
  rw [toBinary64?_ofFinite, scale?_exact h hreads, Option.map_some]
  obtain ⟨negative, significand, exponent, hcanonical⟩ := number
  cases negative <;> rfl

-- The four greatest numbers leave less than three places, but their own decimals do not need them.
theorem greatest_isSome : ∀ negative : Bool, ∀ more : Fin 4,
    (ofFinite ⟨negative, 9007199254740988 + more.val, 971, by unfold Canonical; omega⟩).toBinary64?.isSome := by
  decide +kernel

-- All others leave as much.
theorem le_of_readsBack {number : Finite} {magnitude : Rat} (hreads : readsBack number magnitude = true)
    (hroom : ¬(number.exponent = 971 ∧ 9007199254740988 ≤ number.significand)) :
    magnitude ≤ (9007199254740992 - 9 / 2) * 2 ^ (971 : Int) := by
  obtain ⟨hbound, -, hexponent, -⟩ := number.canonical
  have hpos := zpow_two_pos number.exponent
  have hbelow := (div_le_iff₀ hpos).mp (readsBack_iff.mp hreads).below
  refine hbelow.trans ?_
  rcases hexponent.eq_or_lt with hlast | hlower
  · have hsignificand : (number.significand : Rat) ≤ 9007199254740987 := by
      have : number.significand ≤ 9007199254740987 := by omega
      exact_mod_cast this
    rw [hlast]
    gcongr
    linarith only [hsignificand]
  · have hsignificand : (number.significand : Rat) ≤ 9007199254740991 := by
      exact_mod_cast Nat.le_of_lt_succ hbound
    calc ((number.significand : Rat) + 1 / 2) * 2 ^ number.exponent
        ≤ (9007199254740991 + 1 / 2) * 2 ^ (970 : Int) := by
          gcongr
          · norm_num
          · omega
      _ ≤ (9007199254740992 - 9 / 2) * 2 * 2 ^ (970 : Int) := by
          gcongr
          norm_num
      _ = (9007199254740992 - 9 / 2) * 2 ^ (971 : Int) := by
          rw [mul_assoc, ← zpow_one_add₀ (by norm_num)]
          rfl

theorem taken_of_nonneg {scaled : Scaled} (hzero : scaled.digits = 0 → scaled.exponent = 0)
    (hnonneg : 0 ≤ (taken scaled).exponent) : taken scaled = scaled ∧ 0 < scaled.digits := by
  by_cases hwhole : 0 ≤ scaled.exponent ∧ scaled.placed.before ≤ 16
  · rw [taken_of_whole hwhole.1 hwhole.2] at hnonneg
    cases hnonneg
  · have htaken : taken scaled = scaled := if_neg hwhole
    refine ⟨htaken, Nat.pos_of_ne_zero fun hnone => hwhole ?_⟩
    have hbefore : scaled.placed.before = 1 := by
      simp [Scaled.placed, hnone, hzero hnone, Text.decimal]
    rw [hbefore, hzero hnone]
    decide

-- Every finite number is read again, if not always as it was.
theorem toBinary64?_isSome (number : Finite) : (ofFinite number).toBinary64?.isSome = true := by
  by_cases hgreatest : number.exponent = 971 ∧ 9007199254740988 ≤ number.significand
  · obtain ⟨negative, significand, exponent, hcanonical⟩ := number
    obtain ⟨rfl, hlarge⟩ := hgreatest
    obtain ⟨more, rfl⟩ := Nat.exists_eq_add_of_le hlarge
    have hbound := hcanonical.1
    exact greatest_isSome negative ⟨more, by omega⟩
  rw [toBinary64?_ofFinite, Option.isSome_map]
  have hzero := (moderate_shortest .even number).zero
  have hle := le_of_readsBack (readsBack_shortest .even number) hgreatest
  generalize shortest .even number = scaled at hzero hle
  rcases lt_or_ge (taken scaled).exponent 0 with hnegative | hnonneg
  · rw [scale?, if_pos hnegative]
    rfl
  · obtain ⟨htaken, hpos⟩ := taken_of_nonneg hzero hnonneg
    rw [htaken] at hnonneg ⊢
    obtain ⟨count, hcount⟩ := Int.eq_ofNat_of_zero_le hnonneg
    rw [scaled_value, hcount, zpow_natCast] at hle
    rw [hcount]
    exact scale?_isSome hpos hle

end VoyageLog.Json.Number
