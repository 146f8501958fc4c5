import VoyageLog.Proofs.Decimal.Shortest

namespace VoyageLog.Binary64

theorem roundHalfEven_near (exact : Rat) :
    exact - 1 / 2 ≤ roundHalfEven exact ∧ (roundHalfEven exact : Rat) ≤ exact + 1 / 2 := by
  have hle : (exact.floor : Rat) ≤ exact := Rat.floor_le exact
  have hlt : exact - 1 < exact.floor := Rat.lt_floor
  unfold roundHalfEven
  dsimp only
  split
  · exact ⟨by linarith, by linarith⟩
  · split
    · push_cast
      exact ⟨by linarith, by linarith⟩
    · split
      · exact ⟨by linarith, by linarith⟩
      · push_cast
        exact ⟨by linarith, by linarith⟩

theorem lastPlace_spec {exact : Rat} (hzero : 0 ≤ exact) :
    exact < 2 ^ (lastPlace exact + 53) ∧ -1074 ≤ lastPlace exact ∧
      (lastPlace exact = -1074 ∨ (2 : Rat) ^ (lastPlace exact + 52) ≤ exact) := by
  rcases hzero.eq_or_lt with rfl | hpos
  · rw [show lastPlace 0 = -1074 from rfl]
    exact ⟨zpow_two_pos _, le_rfl, .inl rfl⟩
  · obtain ⟨hlow, hhigh⟩ := binaryExponent_spec hpos
    rw [lastPlace, if_neg hpos.ne']
    rcases le_total (binaryExponent exact - 52) (-1074) with hsmall | hnormal
    · rw [max_eq_left hsmall]
      refine ⟨lt_of_lt_of_le hhigh ?_, le_rfl, .inl rfl⟩
      exact zpow_le_zpow_right₀ (by norm_num) (by omega)
    · rw [max_eq_right hnormal]
      refine ⟨?_, hnormal, .inr ?_⟩
      · rwa [show binaryExponent exact - 52 + 53 = binaryExponent exact + 1 by ring]
      · rwa [sub_add_cancel]

-- How the significand of a rounded number comes out, before a carry.
structure Rounded (exact : Rat) (place rounded : Int) : Prop where
  nonneg : 0 ≤ rounded
  le : rounded ≤ 9007199254740992
  full : place = -1074 ∨ 4503599627370496 ≤ rounded
  near : (rounded : Rat) * 2 ^ place ≤ exact + 2 ^ place / 2

theorem rounded_lastPlace {exact : Rat} (hzero : 0 ≤ exact) :
    Rounded exact (lastPlace exact) (roundHalfEven (exact / 2 ^ lastPlace exact)) := by
  obtain ⟨hhigh, -, hnormal⟩ := lastPlace_spec hzero
  generalize lastPlace exact = place at hhigh hnormal ⊢
  have hpos := zpow_two_pos place
  obtain ⟨hnear, hfar⟩ := roundHalfEven_near (exact / 2 ^ place)
  generalize roundHalfEven (exact / 2 ^ place) = rounded at hnear hfar ⊢
  have hquotient : 0 ≤ exact / 2 ^ place := div_nonneg hzero hpos.le
  have hlast : exact / 2 ^ place < 9007199254740992 := by
    rw [div_lt_iff₀ hpos]
    rwa [add_comm, zpow_add₀ (by norm_num), show (2 : Rat) ^ (53 : Int) = 9007199254740992 by norm_num] at hhigh
  refine ⟨?_, ?_, hnormal.imp_right fun hreach => ?_, ?_⟩
  · have hlt : ((-1 : Int) : Rat) < rounded := by push_cast; linarith
    have := Int.cast_lt.mp hlt
    omega
  · have hlt : (rounded : Rat) < ((9007199254740993 : Int) : Rat) := by push_cast; linarith
    have := Int.cast_lt.mp hlt
    omega
  · rw [add_comm, zpow_add₀ (by norm_num), show (2 : Rat) ^ (52 : Int) = 4503599627370496 by norm_num,
      ← le_div_iff₀ hpos] at hreach
    have hlt : ((4503599627370495 : Int) : Rat) < rounded := by push_cast; linarith
    have := Int.cast_lt.mp hlt
    omega
  · calc (rounded : Rat) * 2 ^ place ≤ (exact / 2 ^ place + 1 / 2) * 2 ^ place := by gcongr
      _ = exact + 2 ^ place / 2 := by field_simp

theorem lastPlace_le {exact : Rat} (hzero : 0 ≤ exact)
    (hrange : exact < (9007199254740991 + 1 / 2) * 2 ^ (971 : Int)) : lastPlace exact ≤ 971 := by
  obtain ⟨-, -, hnormal⟩ := lastPlace_spec hzero
  rcases hnormal with hleast | hreach
  · omega
  · have hbelow : (2 : Rat) ^ (lastPlace exact + 52) < 2 ^ (53 + 971 : Int) := by
      rw [zpow_add₀ (by norm_num) 53 971]
      refine lt_of_le_of_lt hreach (lt_of_lt_of_le hrange ?_)
      gcongr
      norm_num
    have := (zpow_lt_zpow_iff_right₀ (by norm_num)).mp hbelow
    omega

-- Below half a place beyond the greatest number the result is finite: so many last places as come nearest.
theorem nearestSigned_rounded (negative : Bool) {exact : Rat} (hzero : 0 ≤ exact)
    (hrange : exact < (9007199254740991 + 1 / 2) * 2 ^ (971 : Int)) :
    ∃ number : Finite, nearestSigned negative exact = .finite number ∧ number.negative = negative ∧
      number.magnitude = roundHalfEven (exact / 2 ^ lastPlace exact) * 2 ^ lastPlace exact := by
  obtain ⟨-, hleast, -⟩ := lastPlace_spec hzero
  have hplace := lastPlace_le hzero hrange
  have hrounded := rounded_lastPlace hzero
  obtain ⟨-, hfar⟩ := roundHalfEven_near (exact / 2 ^ lastPlace exact)
  unfold nearestSigned
  dsimp only
  rw [twoTo_eq]
  generalize lastPlace exact = place at *
  generalize roundHalfEven (exact / 2 ^ place) = rounded at *
  obtain ⟨hnonneg, hle, hfull, -⟩ := hrounded
  obtain ⟨whole, rfl⟩ := Int.eq_ofNat_of_zero_le hnonneg
  rw [Int.toNat_natCast]
  by_cases hcarry : whole = 9007199254740992
  · have hroom : place ≠ 971 := by
      intro hlast
      rw [← hlast, ← div_lt_iff₀ (zpow_two_pos place)] at hrange
      rw [hcarry] at hfar
      push_cast at hfar
      linarith
    have hcanonical : Canonical 4503599627370496 (place + 1) := ⟨by decide, by omega, by omega, .inl le_rfl⟩
    simp only [if_pos hcarry, dif_pos hcanonical]
    have hwhole : (whole : Rat) = 9007199254740992 := by exact_mod_cast hcarry
    refine ⟨_, rfl, rfl, ?_⟩
    rw [Finite.magnitude, twoTo_eq, zpow_add_one₀ (by norm_num), Int.cast_natCast, hwhole]
    push_cast
    ring
  · have hcanonical : Canonical whole place := ⟨by omega, by omega, by omega, by omega⟩
    simp only [if_neg hcarry, dif_pos hcanonical]
    refine ⟨_, rfl, rfl, ?_⟩
    rw [Finite.magnitude, twoTo_eq, Int.cast_natCast]

-- It is at most half a place too great.
theorem nearestSigned_finite (negative : Bool) {exact : Rat} (hzero : 0 ≤ exact)
    (hrange : exact < (9007199254740991 + 1 / 2) * 2 ^ (971 : Int)) :
    ∃ number : Finite, nearestSigned negative exact = .finite number ∧ number.negative = negative ∧
      number.magnitude ≤ exact + 2 ^ lastPlace exact / 2 := by
  obtain ⟨number, hnearest, hsign, hmagnitude⟩ := nearestSigned_rounded negative hzero hrange
  exact ⟨number, hnearest, hsign, hmagnitude ▸ (rounded_lastPlace hzero).near⟩

-- No rounding leads past a number that is held exactly.
theorem nearestSigned_le_magnitude (negative : Bool) {exact : Rat} {bound : Finite} (hzero : 0 ≤ exact)
    (hle : exact ≤ bound.magnitude) :
    ∃ number : Finite, nearestSigned negative exact = .finite number ∧ number.negative = negative ∧
      number.magnitude ≤ bound.magnitude := by
  have hmagnitude : bound.magnitude = bound.significand * 2 ^ bound.exponent := Decimal.magnitude_eq bound
  obtain ⟨hsignificand, hleast, hgreatest, -⟩ := bound.canonical
  have hgreat : bound.magnitude < (9007199254740991 + 1 / 2) * 2 ^ (971 : Int) := by
    have hplaces : (bound.significand : Rat) < 9007199254740991 + 1 / 2 := by
      have hwhole : (bound.significand : Rat) ≤ 9007199254740991 := by exact_mod_cast Nat.le_of_lt_succ hsignificand
      linarith
    have hpower : (2 : Rat) ^ bound.exponent ≤ 2 ^ (971 : Int) := zpow_le_zpow_right₀ (by norm_num) hgreatest
    rw [hmagnitude]
    exact mul_lt_mul hplaces hpower (zpow_two_pos _) (by norm_num)
  obtain ⟨number, hnearest, hsign, hrounded⟩ :=
    nearestSigned_rounded negative hzero (lt_of_le_of_lt hle hgreat)
  refine ⟨number, hnearest, hsign, ?_⟩
  obtain ⟨-, -, hnormal⟩ := lastPlace_spec hzero
  have hplace : lastPlace exact ≤ bound.exponent := by
    rcases hnormal with hlast | hreach
    · omega
    · have hbelow : bound.magnitude < 2 ^ (bound.exponent + 53) := by
        have hfull : (bound.significand : Rat) < 2 ^ (53 : Int) := by
          rw [show (2 : Rat) ^ (53 : Int) = 9007199254740992 by norm_num]
          exact_mod_cast hsignificand
        rw [hmagnitude, add_comm, zpow_add₀ (by norm_num)]
        exact mul_lt_mul_of_pos_right hfull (zpow_two_pos _)
      have hexponent := (zpow_lt_zpow_iff_right₀ (by norm_num)).mp (lt_of_le_of_lt hreach (lt_of_le_of_lt hle hbelow))
      omega
  -- The bound is a whole number of the last places.
  obtain ⟨shift, hshift⟩ := Int.eq_ofNat_of_zero_le (show 0 ≤ bound.exponent - lastPlace exact by omega)
  have hwhole : bound.magnitude = ((bound.significand * 2 ^ shift : Nat) : Int) * 2 ^ lastPlace exact := by
    rw [hmagnitude, show bound.exponent = shift + lastPlace exact by omega, zpow_add₀ (by norm_num), zpow_natCast]
    push_cast
    ring
  have hpower := zpow_two_pos (lastPlace exact)
  obtain ⟨-, hnear⟩ := roundHalfEven_near (exact / 2 ^ lastPlace exact)
  have hquotient : exact / 2 ^ lastPlace exact ≤ ((bound.significand * 2 ^ shift : Nat) : Int) := by
    rw [div_le_iff₀ hpower, ← hwhole]
    exact hle
  have hlt : ((roundHalfEven (exact / 2 ^ lastPlace exact) : Int) : Rat) <
      ((bound.significand * 2 ^ shift : Nat) : Int) + 1 := by linarith
  have hcount : roundHalfEven (exact / 2 ^ lastPlace exact) ≤ ((bound.significand * 2 ^ shift : Nat) : Int) :=
    Int.lt_add_one_iff.mp (by exact_mod_cast hlt)
  rw [hrounded, hwhole]
  exact mul_le_mul_of_nonneg_right (by exact_mod_cast hcount) hpower.le

theorem nearest_eq {exact : Rat} (hzero : 0 ≤ exact) : nearest exact = nearestSigned false exact :=
  if_neg hzero.not_gt

-- A number of at least one grows by no more than the part that half a place of it is.
theorem nearest_le {exact : Rat} (hone : 1 ≤ exact)
    (hrange : exact < (9007199254740991 + 1 / 2) * 2 ^ (971 : Int)) :
    ∃ number : Finite, nearest exact = .finite number ∧ number.negative = false ∧
      number.magnitude ≤ exact * (1 + 1 / 9007199254740992) := by
  have hzero : (0 : Rat) ≤ exact := by linarith only [hone]
  obtain ⟨number, hnearest, hsign, hle⟩ := nearestSigned_finite false hzero hrange
  obtain ⟨-, -, hplace⟩ := lastPlace_spec hzero
  refine ⟨number, by rw [nearest_eq hzero, hnearest], hsign, hle.trans ?_⟩
  have hhalf : (2 : Rat) ^ lastPlace exact * 4503599627370496 ≤ exact := by
    rcases hplace with hleast | hreach
    · rw [hleast]
      calc (2 : Rat) ^ (-1074 : Int) * 4503599627370496 = 2 ^ (-1074 + 52 : Int) := by
            rw [zpow_add₀ (by norm_num) (-1074) 52, show (2 : Rat) ^ (52 : Int) = 4503599627370496 by norm_num]
        _ ≤ 1 := zpow_le_one_of_nonpos₀ (by norm_num) (by decide)
        _ ≤ exact := hone
    · rwa [zpow_add₀ (by norm_num), show (2 : Rat) ^ (52 : Int) = 4503599627370496 by norm_num] at hreach
  linarith only [hhalf]

-- A number that is held rounds to itself.
theorem nearestSigned_magnitude (negative : Bool) (number : Finite) :
    nearestSigned negative number.magnitude = .finite { number with negative } := by
  have hpos := zpow_two_pos number.exponent
  have hgap := Decimal.lowerGap_pos number
  have hplaces : number.magnitude / 2 ^ number.exponent = number.significand := by
    rw [Decimal.magnitude_eq, mul_div_cancel_right₀ _ hpos.ne']
  refine Decimal.nearestSigned_of_readsBack negative (Decimal.magnitude_nonneg number) ?_
  rw [Decimal.readsBack_iff, hplaces]
  exact ⟨by linarith, by linarith, fun _ => ⟨by linarith, by linarith⟩⟩

-- A whole number of at most 53 bits with a power of two behind it is held exactly.
theorem exists_magnitude {whole : Nat} (shift : Nat) (hwhole : whole ≤ 9007199254740992) (hshift : shift ≤ 900) :
    ∃ number : Finite, number.negative = false ∧ number.magnitude = ((whole * 2 ^ shift : Nat) : Rat) := by
  rcases Nat.eq_zero_or_pos whole with rfl | hpos
  · exact ⟨Finite.zero false, rfl, by simp [Finite.magnitude, Finite.zero]⟩
  have hlow : 2 ^ whole.log2 ≤ whole := Nat.log2_self_le hpos.ne'
  have hhigh : whole < 2 ^ (whole.log2 + 1) := Nat.lt_log2_self
  rcases hwhole.eq_or_lt with rfl | hlt
  · refine ⟨⟨false, 4503599627370496, shift + 1, by decide, by omega, by omega, .inl le_rfl⟩, rfl, ?_⟩
    rw [Decimal.magnitude_eq]
    dsimp only
    rw [zpow_add_one₀ (by norm_num), zpow_natCast]
    push_cast
    ring
  · have hbits : whole.log2 ≤ 52 := by
      have := (Nat.log2_lt hpos.ne').mpr (show whole < 2 ^ 53 from hlt)
      omega
    obtain ⟨missing, hmissing⟩ := Nat.exists_eq_add_of_le hbits
    have hfull : 4503599627370496 ≤ whole * 2 ^ missing := by
      calc 4503599627370496 = 2 ^ whole.log2 * 2 ^ missing := by rw [← pow_add, ← hmissing]; rfl
        _ ≤ whole * 2 ^ missing := Nat.mul_le_mul_right _ hlow
    have hbound : whole * 2 ^ missing < 9007199254740992 := by
      calc whole * 2 ^ missing < 2 ^ (whole.log2 + 1) * 2 ^ missing :=
            Nat.mul_lt_mul_of_pos_right hhigh (by positivity)
        _ = 9007199254740992 := by rw [← pow_add, add_right_comm, ← hmissing]; rfl
    refine ⟨⟨false, whole * 2 ^ missing, shift - missing, hbound, by omega, by omega, .inl hfull⟩, rfl, ?_⟩
    rw [Decimal.magnitude_eq]
    dsimp only
    rw [zpow_sub₀ (by norm_num), zpow_natCast, zpow_natCast]
    push_cast
    field_simp

-- Without signs, a product and a quotient are those of the magnitudes, rounded.
theorem mul_unsigned {first second : Finite} (hfirst : first.negative = false) (hsecond : second.negative = false) :
    finite first * finite second = nearestSigned false (first.magnitude * second.magnitude) := by
  show mul _ _ = _
  simp [mul, isNegative, hfirst, hsecond]

theorem div_unsigned {first second : Finite} (hfirst : first.negative = false) (hsecond : second.negative = false)
    (hpos : 0 < second.magnitude) :
    finite first / finite second = nearestSigned false (first.magnitude / second.magnitude) := by
  have hnonzero : second.significand ≠ 0 := by
    intro hzero
    rw [Finite.magnitude, hzero] at hpos
    simp at hpos
  show div _ _ = _
  simp [div, isNegative, hfirst, hsecond, hnonzero]

end VoyageLog.Binary64
