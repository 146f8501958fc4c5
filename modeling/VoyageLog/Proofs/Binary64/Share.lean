import VoyageLog.Binary64.Whole
import VoyageLog.Proofs.Binary64.Exact

namespace VoyageLog.Binary64

-- A number below a power of two is rounded by half the last place that it can have.
theorem nearestSigned_near (negative : Bool) (place : Int) {exact : Rat} (hzero : 0 ≤ exact)
    (hrange : exact < 2 ^ (place + 53)) (hleast : -1074 ≤ place) (hgreatest : place ≤ 900) :
    ∃ number : Finite, nearestSigned negative exact = .finite number ∧ number.negative = negative ∧
      |number.magnitude - exact| ≤ 2 ^ place / 2 := by
  have hfinite : exact < (9007199254740991 + 1 / 2) * 2 ^ (971 : Int) := by
    have hgreat : (2 : Rat) ^ (place + 53) ≤ 2 ^ (971 : Int) := zpow_le_zpow_right₀ (by norm_num) (by omega)
    have hpower := zpow_two_pos 971
    have hbelow := lt_of_lt_of_le hrange hgreat
    generalize (2 : Rat) ^ (971 : Int) = power at hpower hbelow ⊢
    linarith
  obtain ⟨number, hnearest, hsign, hmagnitude⟩ := nearestSigned_rounded negative hzero hfinite
  refine ⟨number, hnearest, hsign, ?_⟩
  obtain ⟨-, -, hplace⟩ := lastPlace_spec hzero
  have hlast : lastPlace exact ≤ place := by
    rcases hplace with hsmall | hreach
    · omega
    · have hexponent := (zpow_lt_zpow_iff_right₀ (by norm_num)).mp (lt_of_le_of_lt hreach hrange)
      omega
  have hpower : (2 : Rat) ^ lastPlace exact ≤ 2 ^ place := zpow_le_zpow_right₀ (by norm_num) hlast
  have hpos := zpow_two_pos (lastPlace exact)
  obtain ⟨hlow, hhigh⟩ := roundHalfEven_near (exact / 2 ^ lastPlace exact)
  have hplaces : exact = exact / 2 ^ lastPlace exact * 2 ^ lastPlace exact := (div_mul_cancel₀ exact hpos.ne').symm
  rw [hmagnitude, abs_le]
  generalize (roundHalfEven (exact / 2 ^ lastPlace exact) : Rat) = rounded at hlow hhigh ⊢
  generalize (2 : Rat) ^ lastPlace exact = unit at *
  constructor
  · have hbelow := mul_le_mul_of_nonneg_right hlow hpos.le
    linarith only [hbelow, hplaces, hpower]
  · have habove := mul_le_mul_of_nonneg_right hhigh hpos.le
    linarith only [habove, hplaces, hpower]

theorem nearestSigned_below (negative : Bool) (place : Int) {exact : Rat} (hzero : 0 ≤ exact)
    (hrange : exact < 2 ^ (place + 53)) (hleast : -1074 ≤ place) (hgreatest : place ≤ 900) :
    ∃ number : Finite, nearestSigned negative exact = .finite number ∧ number.negative = negative ∧
      number.magnitude ≤ exact + 2 ^ place / 2 := by
  obtain ⟨number, hnearest, hsign, hnear⟩ := nearestSigned_near negative place hzero hrange hleast hgreatest
  refine ⟨number, hnearest, hsign, ?_⟩
  linarith only [(abs_le.mp hnear).2]

theorem roundHalfAway_between {exact : Rat} {low high : Int} (hlow : (low : Rat) - 1 / 2 < exact)
    (hhigh : exact < high + 1 / 2) : low ≤ roundHalfAway exact ∧ roundHalfAway exact ≤ high := by
  unfold roundHalfAway
  split
  · have habove : (1 / 2 - exact).floor ≤ -low := by
      apply Int.lt_add_one_iff.mp
      apply Rat.floor_lt_iff.mpr
      push_cast
      linarith
    have hbelow : -high ≤ (1 / 2 - exact).floor := by
      apply Rat.le_floor_iff.mpr
      push_cast
      linarith
    omega
  · have habove : (exact + 1 / 2).floor ≤ high := by
      apply Int.lt_add_one_iff.mp
      apply Rat.floor_lt_iff.mpr
      push_cast
      linarith
    have hbelow : low ≤ (exact + 1 / 2).floor := by
      apply Rat.le_floor_iff.mpr
      linarith
    omega

theorem saturate_of_moderate {whole : Int} (hlow : -30000000000000000 ≤ whole)
    (hhigh : whole ≤ 30000000000000000) : saturate whole = whole := by
  unfold saturate leastWord greatestWord
  split
  · omega
  · split <;> omega

theorem zero_value : (Finite.zero false).value = 0 := by decide +kernel

theorem one_value : Finite.one.value = 1 := by decide +kernel

-- Only the negative zero is a fraction and has a sign.
theorem fraction_of_within {fraction : Binary64} (h : fraction.within (Finite.zero false) Finite.one) :
    ∃ number : Finite, fraction = .finite number ∧ number.magnitude ≤ 1 ∧
      (number.negative → number.magnitude = 0) := by
  cases fraction with
  | nan | infinite => cases h
  | finite number =>
    have hnonneg := Decimal.magnitude_nonneg number
    obtain ⟨hlow, hhigh⟩ : (Finite.zero false).value ≤ number.value ∧ number.value ≤ Finite.one.value := by
      simpa [within] using h
    rw [zero_value] at hlow
    rw [one_value] at hhigh
    refine ⟨number, rfl, ?_, ?_⟩
    · cases hsign : number.negative with
      | false => simpa [Finite.value, hsign] using hhigh
      | true =>
        simp only [Finite.value, hsign, if_true] at hlow
        linarith
    · intro hsign
      simp only [Finite.value, hsign, if_true] at hlow
      linarith

theorem zero_magnitude : (Finite.zero false).magnitude = 0 := by decide +kernel

theorem product_of_fraction {whole fraction : Finite} (place : Int) (hwhole : whole.magnitude < 2 ^ (place + 53))
    (hleast : -1074 ≤ place) (hgreatest : place ≤ 900) (hfraction : fraction.magnitude ≤ 1)
    (hsign : fraction.negative → fraction.magnitude = 0) :
    ∃ product : Finite, finite whole * finite fraction = .finite product ∧
      (whole.negative = false → 0 ≤ product.value ∧ product.value ≤ whole.magnitude + 2 ^ place / 2) ∧
      (whole.negative = true → -(whole.magnitude + 2 ^ place / 2) ≤ product.value ∧ product.value ≤ 0) := by
  have hproduct : finite whole * finite fraction =
      nearestSigned (whole.negative != fraction.negative) (whole.magnitude * fraction.magnitude) := rfl
  have hnonneg := Decimal.magnitude_nonneg whole
  have hpower := zpow_two_pos place
  cases hnegative : fraction.negative with
  | true =>
    have hzero : whole.magnitude * fraction.magnitude = (Finite.zero false).magnitude := by
      rw [hsign hnegative, mul_zero, zero_magnitude]
    rw [hzero, nearestSigned_magnitude] at hproduct
    refine ⟨_, hproduct, ?_⟩
    have hvalue : ({ Finite.zero false with negative := whole.negative != fraction.negative } : Finite).value = 0 := by
      cases (whole.negative != fraction.negative) <;> decide +kernel
    rw [hvalue]
    exact ⟨fun _ => ⟨le_rfl, by linarith⟩, fun _ => ⟨by linarith, le_rfl⟩⟩
  | false =>
    have hle : whole.magnitude * fraction.magnitude ≤ whole.magnitude := mul_le_of_le_one_right hnonneg hfraction
    have hpart : 0 ≤ whole.magnitude * fraction.magnitude :=
      mul_nonneg hnonneg (Decimal.magnitude_nonneg fraction)
    obtain ⟨product, hnearest, hsame, hbound⟩ := nearestSigned_below (whole.negative != fraction.negative) place
      hpart (lt_of_le_of_lt hle hwhole) hleast hgreatest
    rw [hnegative, Bool.bne_false] at hsame
    have hmagnitude := Decimal.magnitude_nonneg product
    refine ⟨product, hproduct.trans hnearest, fun hpositive => ?_, fun hwholeNegative => ?_⟩
    · have hvalue : product.value = product.magnitude := by simp [Finite.value, hsame, hpositive]
      rw [hvalue]
      exact ⟨hmagnitude, by linarith⟩
    · have hvalue : product.value = -product.magnitude := by simp [Finite.value, hsame, hwholeNegative]
      rw [hvalue]
      exact ⟨by linarith, by linarith⟩

-- The share of a whole number before it is made whole again.
theorem share_near {whole : Int} {fraction : Binary64} (place : Int) (hleast : -1074 ≤ place) (hgreatest : place ≤ 900)
    (hrange : |(whole : Rat)| + 2 ^ place < 2 ^ (place + 53))
    (hfraction : fraction.within (Finite.zero false) Finite.one) :
    ∃ product : Finite, ofInt whole * fraction = .finite product ∧
      (0 ≤ whole → 0 ≤ product.value ∧ product.value ≤ whole + 2 ^ place) ∧
      (whole < 0 → whole - 2 ^ place ≤ product.value ∧ product.value ≤ 0) := by
  obtain ⟨part, rfl, hpart, hsign⟩ := fraction_of_within hfraction
  have hpower := zpow_two_pos place
  by_cases hneg : (whole : Rat) < 0
  · have hwhole : whole < 0 := by exact_mod_cast hneg
    rw [abs_of_neg hneg] at hrange
    obtain ⟨number, hnumber, hnegative, hmagnitude⟩ := nearestSigned_below true place
      (by linarith : (0 : Rat) ≤ -whole) (by linarith) hleast hgreatest
    obtain ⟨product, hproduct, -, hbounds⟩ :=
      product_of_fraction place (by linarith) hleast hgreatest hpart hsign
    obtain ⟨hbelow, habove⟩ := hbounds hnegative
    have hof : ofInt whole = .finite number := (if_pos hneg).trans hnumber
    refine ⟨product, by rw [hof, hproduct], fun hpositive => ?_, fun _ => ⟨by linarith, habove⟩⟩
    omega
  · have hwhole : 0 ≤ whole := by exact_mod_cast not_lt.mp hneg
    rw [abs_of_nonneg (not_lt.mp hneg)] at hrange
    obtain ⟨number, hnumber, hnegative, hmagnitude⟩ := nearestSigned_below false place
      (not_lt.mp hneg) (by linarith) hleast hgreatest
    obtain ⟨product, hproduct, hbounds, -⟩ :=
      product_of_fraction place (by linarith) hleast hgreatest hpart hsign
    obtain ⟨hbelow, habove⟩ := hbounds hnegative
    have hof : ofInt whole = .finite number := (if_neg hneg).trans hnumber
    refine ⟨product, by rw [hof, hproduct], fun _ => ⟨hbelow, by linarith⟩, fun hnegativeWhole => ?_⟩
    omega

theorem round_of_near {product : Finite} {low high : Int} (hlow : (low : Rat) - 1 / 2 < product.value)
    (hhigh : product.value < high + 1 / 2) (hleast : -30000000000000000 ≤ low)
    (hgreatest : high ≤ 30000000000000000) :
    low ≤ (Binary64.finite product).round ∧ (Binary64.finite product).round ≤ high := by
  obtain ⟨hleft, hright⟩ := roundHalfAway_between hlow hhigh
  have hsame : (Binary64.finite product).round = roundHalfAway product.value :=
    saturate_of_moderate (by omega) (by omega)
  rw [hsame]
  exact ⟨hleft, hright⟩

-- The share of a whole number, to the nearest whole one.
theorem round_share {whole : Int} {fraction : Binary64} (hlow : -20000000000000000 ≤ whole)
    (hhigh : whole ≤ 20000000000000000) (hfraction : fraction.within (Finite.zero false) Finite.one) :
    (0 ≤ whole → 0 ≤ (ofInt whole * fraction).round ∧ (ofInt whole * fraction).round ≤ whole + 8) ∧
      (whole < 0 → whole - 8 ≤ (ofInt whole * fraction).round ∧ (ofInt whole * fraction).round ≤ 0) := by
  have hrange : |(whole : Rat)| + 2 ^ (3 : Int) < 2 ^ (3 + 53 : Int) := by
    have habs : |(whole : Rat)| ≤ 20000000000000000 := abs_le.mpr ⟨by exact_mod_cast hlow, by exact_mod_cast hhigh⟩
    norm_num
    linarith
  obtain ⟨product, hproduct, hpositive, hnegative⟩ :=
    share_near 3 (by decide) (by decide) hrange hfraction
  norm_num at hpositive hnegative
  rw [hproduct]
  refine ⟨fun hwhole => ?_, fun hwhole => ?_⟩
  · obtain ⟨hbelow, habove⟩ := hpositive hwhole
    exact round_of_near (by push_cast; linarith) (by push_cast; linarith) (by omega) (by omega)
  · obtain ⟨hbelow, habove⟩ := hnegative hwhole
    exact round_of_near (by push_cast; linarith) (by push_cast; linarith) (by omega) (by omega)

-- A share of less than a million below zero is not rounded beyond the whole number.
theorem round_share_small {whole : Int} {fraction : Binary64} (hlow : -1000000 ≤ whole) (hneg : whole < 0)
    (hfraction : fraction.within (Finite.zero false) Finite.one) :
    whole ≤ (ofInt whole * fraction).round := by
  have hnegRat : (whole : Rat) < 0 := by exact_mod_cast hneg
  have hlowRat : (-1000000 : Rat) ≤ whole := by exact_mod_cast hlow
  have hrange : |(whole : Rat)| + 2 ^ (-33 : Int) < 2 ^ (-33 + 53 : Int) := by
    rw [abs_of_neg hnegRat]
    norm_num
    linarith
  obtain ⟨product, hproduct, -, hnegative⟩ := share_near (-33) (by decide) (by decide) hrange hfraction
  obtain ⟨hbelow, habove⟩ := hnegative hneg
  norm_num at hbelow
  have hround : whole ≤ (Binary64.finite product).round ∧ (Binary64.finite product).round ≤ 0 :=
    round_of_near (by linarith) (by push_cast; linarith) (by omega) (by omega)
  rw [hproduct]
  exact hround.1

-- A whole number of at most 53 bits is held exactly.
theorem ofInt_exact {whole : Int} (hlow : 0 ≤ whole) (hhigh : whole ≤ 9007199254740992) :
    ∃ number : Finite, ofInt whole = .finite number ∧ number.negative = false ∧ number.magnitude = whole := by
  obtain ⟨count, rfl⟩ := Int.eq_ofNat_of_zero_le hlow
  obtain ⟨number, hsign, hmagnitude⟩ := exists_magnitude 0 (show count ≤ 9007199254740992 by omega) (Nat.zero_le _)
  rw [pow_zero, mul_one] at hmagnitude
  refine ⟨number, ?_, hsign, by rw [hmagnitude, Int.cast_natCast]⟩
  rw [ofInt, nearest_eq (by exact_mod_cast hlow), Int.cast_natCast, ← hmagnitude, nearestSigned_magnitude, ← hsign]

theorem product_le_of_fraction {whole fraction : Finite} (hwhole : whole.negative = false)
    (hfraction : fraction.magnitude ≤ 1) (hsign : fraction.negative → fraction.magnitude = 0) :
    ∃ product : Finite, finite whole * finite fraction = .finite product ∧
      0 ≤ product.value ∧ product.value ≤ whole.magnitude := by
  have hproduct : finite whole * finite fraction =
      nearestSigned (whole.negative != fraction.negative) (whole.magnitude * fraction.magnitude) := rfl
  have hnonneg := Decimal.magnitude_nonneg whole
  have hpart : 0 ≤ whole.magnitude * fraction.magnitude := mul_nonneg hnonneg (Decimal.magnitude_nonneg fraction)
  rw [hwhole, Bool.false_bne] at hproduct
  cases hnegative : fraction.negative with
  | true =>
    have hzero : whole.magnitude * fraction.magnitude ≤ (Finite.zero false).magnitude := by
      rw [hsign hnegative, mul_zero, zero_magnitude]
    obtain ⟨product, hnearest, -, hle⟩ := nearestSigned_le_magnitude fraction.negative hpart hzero
    rw [zero_magnitude] at hle
    have hnothing := le_antisymm hle (Decimal.magnitude_nonneg product)
    have hvalue : product.value = 0 := by
      unfold Finite.value
      split <;> simp [hnothing]
    exact ⟨product, hproduct.trans hnearest, hvalue.ge, by rw [hvalue]; exact hnonneg⟩
  | false =>
    have hle : whole.magnitude * fraction.magnitude ≤ whole.magnitude := mul_le_of_le_one_right hnonneg hfraction
    obtain ⟨product, hnearest, hsame, hbound⟩ := nearestSigned_le_magnitude fraction.negative hpart hle
    have hvalue : product.value = product.magnitude := by simp [Finite.value, hsame, hnegative]
    exact ⟨product, hproduct.trans hnearest, hvalue ▸ Decimal.magnitude_nonneg product, hvalue ▸ hbound⟩

-- A share of what is held exactly is never more than all of it.
theorem round_share_le {whole : Int} {fraction : Binary64} (hlow : 0 ≤ whole) (hhigh : whole ≤ 9007199254740992)
    (hfraction : fraction.within (Finite.zero false) Finite.one) :
    0 ≤ (ofInt whole * fraction).round ∧ (ofInt whole * fraction).round ≤ whole := by
  obtain ⟨part, rfl, hpart, hsign⟩ := fraction_of_within hfraction
  obtain ⟨number, hnumber, hpositive, hmagnitude⟩ := ofInt_exact hlow hhigh
  obtain ⟨product, hproduct, hbelow, habove⟩ := product_le_of_fraction hpositive hpart hsign
  rw [hnumber, hproduct]
  rw [hmagnitude] at habove
  exact round_of_near (by push_cast; linarith) (by linarith) (by decide) (by omega)

theorem round_all {whole : Int} (hlow : 0 ≤ whole) (hhigh : whole ≤ 9007199254740992) :
    (ofInt whole * one).round = whole := by
  obtain ⟨number, hnumber, hpositive, hmagnitude⟩ := ofInt_exact hlow hhigh
  have hone : Finite.one.magnitude = 1 := by decide +kernel
  have hproduct : finite number * finite Finite.one = .finite number := by
    rw [mul_unsigned hpositive rfl, hone, mul_one, nearestSigned_magnitude, ← hpositive]
  have hvalue : number.value = whole := by simp [Finite.value, hpositive, hmagnitude]
  have hround : whole ≤ (finite number).round ∧ (finite number).round ≤ whole :=
    round_of_near (by linarith) (by linarith) (by omega) (by omega)
  rw [hnumber, show one = finite Finite.one from rfl, hproduct]
  omega

-- What is not less than one is not rounded to zero.
theorem nearestSigned_nonzero (negative : Bool) {exact : Rat} (hone : 1 ≤ exact)
    (hrange : exact < (9007199254740991 + 1 / 2) * 2 ^ (971 : Int)) :
    ∃ number : Finite, nearestSigned negative exact = .finite number ∧ number.significand ≠ 0 := by
  have hzero : (0 : Rat) ≤ exact := by linarith only [hone]
  obtain ⟨number, hnearest, -, hmagnitude⟩ := nearestSigned_rounded negative hzero hrange
  obtain ⟨hhigh, -, -⟩ := lastPlace_spec hzero
  refine ⟨number, hnearest, ?_⟩
  have hnormal : lastPlace exact ≠ -1074 := by
    intro hleast
    rw [hleast] at hhigh
    have hsmall : (2 : Rat) ^ (-1074 + 53 : Int) ≤ 2 ^ (0 : Int) := zpow_le_zpow_right₀ (by norm_num) (by decide)
    rw [zpow_zero] at hsmall
    linarith only [hone, hhigh, hsmall]
  have hfull := (rounded_lastPlace hzero).full.resolve_left hnormal
  have hpos : (0 : Rat) < number.magnitude := by
    rw [hmagnitude]
    have hwhole : (0 : Int) < roundHalfEven (exact / 2 ^ lastPlace exact) := by omega
    exact mul_pos (by exact_mod_cast hwhole) (zpow_two_pos _)
  intro hnone
  simp [Finite.magnitude, hnone] at hpos

-- A whole number of up to a hundred bits has a finite nearest number, which is zero only for zero.
theorem ofInt_moderate {whole : Int} (hwhole : |whole| < 2 ^ 100) :
    ∃ number : Finite, ofInt whole = .finite number ∧ (number.significand = 0 ↔ whole = 0) := by
  rcases eq_or_ne whole 0 with rfl | hnonzero
  · exact ⟨Finite.zero false, by decide +kernel, by decide⟩
  have hbound : |(whole : Rat)| < (9007199254740991 + 1 / 2) * 2 ^ (971 : Int) := by
    have hcast : |(whole : Rat)| < 2 ^ (100 : Int) := by exact_mod_cast hwhole
    have hpower : (2 : Rat) ^ (100 : Int) ≤ 2 ^ (971 : Int) := zpow_le_zpow_right₀ (by norm_num) (by decide)
    generalize (2 : Rat) ^ (971 : Int) = power at hpower ⊢
    generalize (2 : Rat) ^ (100 : Int) = bound at hcast hpower
    have hpos := abs_nonneg (whole : Rat)
    linarith
  have hone : 1 ≤ |(whole : Rat)| := by exact_mod_cast Int.one_le_abs hnonzero
  have hfound : ∃ negative, ofInt whole = nearestSigned negative |(whole : Rat)| := by
    unfold ofInt nearest
    split
    · rename_i hneg
      exact ⟨true, by rw [abs_of_neg hneg]⟩
    · rename_i hnonneg
      exact ⟨false, by rw [abs_of_nonneg (not_lt.mp hnonneg)]⟩
  obtain ⟨negative, hsame⟩ := hfound
  obtain ⟨number, hnumber, hsignificand⟩ := nearestSigned_nonzero negative hone hbound
  exact ⟨number, hsame.trans hnumber, by simp [hsignificand, hnonzero]⟩

theorem ofInt_finite {whole : Int} (hlow : -20000000000000000 ≤ whole) (hhigh : whole ≤ 20000000000000000) :
    ∃ number : Finite, ofInt whole = .finite number := by
  have hwhole : |whole| < 2 ^ 100 := lt_of_le_of_lt (abs_le.mpr ⟨hlow, hhigh⟩) (by norm_num)
  obtain ⟨number, hnumber, -⟩ := ofInt_moderate hwhole
  exact ⟨number, hnumber⟩

theorem round_nothing {whole : Int} (hlow : -20000000000000000 ≤ whole) (hhigh : whole ≤ 20000000000000000) :
    (ofInt whole * zero).round = 0 := by
  obtain ⟨number, hnumber⟩ := ofInt_finite hlow hhigh
  have hproduct : finite number * finite (Finite.zero false) =
      nearestSigned (number.negative != false) (number.magnitude * (Finite.zero false).magnitude) := rfl
  have hzero : number.magnitude * (Finite.zero false).magnitude = (Finite.zero false).magnitude := by
    rw [zero_magnitude, mul_zero]
  rw [hzero, nearestSigned_magnitude] at hproduct
  rw [hnumber, show zero = finite (Finite.zero false) from rfl, hproduct]
  cases number.negative <;> decide +kernel

theorem nearestSigned_ne_nan (negative : Bool) (magnitude : Rat) : nearestSigned negative magnitude ≠ .nan := by
  unfold nearestSigned
  extract_lets place rounded significand exponent
  split <;> simp

-- Of finite numbers only zero by zero has no quotient.
theorem div_eq_nan_iff (dividend divisor : Finite) :
    finite dividend / finite divisor = .nan ↔ dividend.significand = 0 ∧ divisor.significand = 0 := by
  change div (finite dividend) (finite divisor) = .nan ↔ _
  unfold div
  dsimp only
  by_cases hdivisor : divisor.significand = 0
  · by_cases hdividend : dividend.significand = 0 <;> simp [hdivisor, hdividend]
  · simp [hdivisor, nearestSigned_ne_nan]

-- Whatever has a value is moved between the bounds.
theorem clamp_within {lower upper : Finite} {number : Binary64} (hbounds : lower.value ≤ upper.value)
    (hvalue : number ≠ .nan) : (number.clamp lower upper).within lower upper = true := by
  cases number with
  | nan => exact absurd rfl hvalue
  | infinite negative => cases negative <;> simp [clamp, within, hbounds]
  | finite number =>
    simp only [clamp]
    split
    · simp [within, hbounds]
    · split
      · simp [within, hbounds]
      · rename_i hlow hhigh
        simp [within, not_lt.mp hlow, not_lt.mp hhigh]

end VoyageLog.Binary64
