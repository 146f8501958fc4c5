import Mathlib.Algebra.Order.Field.Power
import Mathlib.Data.Rat.Floor
import Mathlib.Tactic.FieldSimp
import Mathlib.Tactic.Linarith
import Mathlib.Tactic.Positivity
import Mathlib.Tactic.Ring
import VoyageLog.Binary64.Arithmetic

namespace VoyageLog.Binary64

theorem twoTo_eq (exponent : Int) : twoTo exponent = (2 : Rat) ^ exponent := by
  unfold twoTo
  split
  · rename_i h
    obtain ⟨count, rfl⟩ := Int.eq_ofNat_of_zero_le h
    simp [Nat.one_shiftLeft]
  · rename_i h
    obtain ⟨count, hcount⟩ := Int.eq_ofNat_of_zero_le (show 0 ≤ -exponent by omega)
    obtain rfl : exponent = -(count : Int) := by omega
    simp [Nat.one_shiftLeft, Rat.mkRat_eq_div]

theorem zpow_two_pos (exponent : Int) : (0 : Rat) < 2 ^ exponent := zpow_pos (by norm_num) exponent

-- A positive number lies between two powers of two, which those of its parts bound.
theorem log_bracket {exact : Rat} (hpos : 0 < exact) :
    (2 : Rat) ^ ((exact.num.natAbs.log2 : Int) - exact.den.log2 - 1) ≤ exact ∧
      exact < (2 : Rat) ^ ((exact.num.natAbs.log2 : Int) - exact.den.log2 + 1) := by
  have hnum : exact.num.natAbs ≠ 0 := by
    have := Rat.num_pos.mpr hpos
    omega
  have hvalue : exact = (exact.num.natAbs : Rat) / exact.den := by
    have habs : ((exact.num.natAbs : Int) : Rat) = exact.num := by
      rw [Int.natAbs_of_nonneg (Rat.num_pos.mpr hpos).le]
    rw [← Int.cast_natCast, habs, Rat.num_div_den]
  generalize exact.num.natAbs = num at hnum hvalue
  have hden := exact.den_ne_zero
  generalize exact.den = den at hden hvalue
  have hdenpos : (0 : Rat) < den := by exact_mod_cast Nat.pos_of_ne_zero hden
  have hlow : (2 : Rat) ^ num.log2 ≤ num := by exact_mod_cast Nat.log2_self_le hnum
  have hhigh : (num : Rat) < 2 ^ (num.log2 + 1) := by exact_mod_cast Nat.lt_log2_self
  have hdenlow : (2 : Rat) ^ den.log2 ≤ den := by exact_mod_cast Nat.log2_self_le hden
  have hdenhigh : (den : Rat) < 2 ^ (den.log2 + 1) := by exact_mod_cast Nat.lt_log2_self
  rw [hvalue]
  constructor
  · have hsplit : (2 : Rat) ^ ((num.log2 : Int) - den.log2 - 1) * 2 ^ (den.log2 + 1) = 2 ^ num.log2 := by
      rw [← zpow_natCast, ← zpow_natCast, ← zpow_add₀ (by norm_num)]
      congr 1
      push_cast
      ring
    rw [le_div_iff₀ hdenpos]
    calc (2 : Rat) ^ ((num.log2 : Int) - den.log2 - 1) * den
        ≤ (2 : Rat) ^ ((num.log2 : Int) - den.log2 - 1) * 2 ^ (den.log2 + 1) := by gcongr
      _ = 2 ^ num.log2 := hsplit
      _ ≤ num := hlow
  · have hsplit : (2 : Rat) ^ ((num.log2 : Int) - den.log2 + 1) * 2 ^ den.log2 = 2 ^ (num.log2 + 1) := by
      rw [← zpow_natCast, ← zpow_natCast, ← zpow_add₀ (by norm_num)]
      congr 1
      push_cast
      ring
    rw [div_lt_iff₀ hdenpos]
    calc (num : Rat) < 2 ^ (num.log2 + 1) := hhigh
      _ = (2 : Rat) ^ ((num.log2 : Int) - den.log2 + 1) * 2 ^ den.log2 := hsplit.symm
      _ ≤ (2 : Rat) ^ ((num.log2 : Int) - den.log2 + 1) * den := by gcongr

theorem binaryExponent_spec {exact : Rat} (hpos : 0 < exact) :
    (2 : Rat) ^ binaryExponent exact ≤ exact ∧ exact < (2 : Rat) ^ (binaryExponent exact + 1) := by
  obtain ⟨hlow, hhigh⟩ := log_bracket hpos
  unfold binaryExponent
  dsimp only
  split
  · rename_i h
    rw [twoTo_eq] at h
    rw [sub_add_cancel]
    exact ⟨hlow, h⟩
  · rename_i h
    rw [twoTo_eq, not_lt] at h
    exact ⟨h, hhigh⟩

theorem binaryExponent_eq {exact : Rat} {exponent : Int} (hlow : (2 : Rat) ^ exponent ≤ exact)
    (hhigh : exact < (2 : Rat) ^ (exponent + 1)) : binaryExponent exact = exponent := by
  obtain ⟨hfrom, hto⟩ := binaryExponent_spec (lt_of_lt_of_le (zpow_two_pos exponent) hlow)
  have hle : exponent < binaryExponent exact + 1 :=
    (zpow_lt_zpow_iff_right₀ (by norm_num)).mp (lt_of_le_of_lt hlow hto)
  have hge : binaryExponent exact < exponent + 1 :=
    (zpow_lt_zpow_iff_right₀ (by norm_num)).mp (lt_of_le_of_lt hfrom hhigh)
  omega

-- An exact number that lies within half of a whole one, ends included if that is even.
structure RoundsTo (exact : Rat) (whole : Int) : Prop where
  above : (whole : Rat) - 1 / 2 ≤ exact
  below : exact ≤ (whole : Rat) + 1 / 2
  inside : whole % 2 ≠ 0 → (whole : Rat) - 1 / 2 < exact ∧ exact < (whole : Rat) + 1 / 2

theorem RoundsTo.eq {exact : Rat} {whole : Int} (h : RoundsTo exact whole) : roundHalfEven exact = whole := by
  obtain ⟨habove, hbelow, hinside⟩ := h
  have hfloor : ∀ below : Int, (below : Rat) ≤ exact → exact < below + 1 → exact.floor = below := by
    intro below hle hlt
    have hge := Rat.le_floor_iff.mpr hle
    have hsucc : exact.floor < below + 1 := Rat.floor_lt_iff.mpr (by push_cast; exact hlt)
    omega
  unfold roundHalfEven
  rcases lt_or_ge exact whole with hlt | hge
  · -- The floor is the whole number below.
    have hbeneath := hfloor (whole - 1) (by push_cast; linarith) (by push_cast; linarith)
    rw [hbeneath]
    push_cast
    have hnot : ¬exact - (whole - 1) < 1 / 2 := by linarith
    rw [if_neg hnot]
    by_cases hfar : 1 / 2 < exact - (whole - 1)
    · rw [if_pos hfar]
      omega
    · have heven : whole % 2 = 0 := by
        by_contra hodd
        have := (hinside hodd).1
        linarith
      rw [if_neg hfar, if_neg (by omega)]
      omega
  · have hat := hfloor whole hge (by linarith)
    rw [hat]
    by_cases hnear : exact - whole < 1 / 2
    · rw [if_pos hnear]
    · have heven : whole % 2 = 0 := by
        by_contra hodd
        have := (hinside hodd).2
        linarith
      rw [if_neg hnear, if_neg (by linarith), if_pos heven]

theorem lastPlace_of_normal {exact : Rat} {place : Int} (hlow : (2 : Rat) ^ (place + 52) ≤ exact)
    (hhigh : exact < (2 : Rat) ^ (place + 53)) (hplace : -1074 ≤ place) : lastPlace exact = place := by
  have hpos : 0 < exact := lt_of_lt_of_le (zpow_two_pos _) hlow
  have hbinary : binaryExponent exact = place + 52 :=
    binaryExponent_eq hlow (by rw [show place + 52 + 1 = place + 53 by ring]; exact hhigh)
  rw [lastPlace, if_neg hpos.ne', hbinary]
  omega

theorem lastPlace_of_small {exact : Rat} (hzero : 0 ≤ exact) (hhigh : exact < (2 : Rat) ^ (-1021 : Int)) :
    lastPlace exact = -1074 := by
  rcases hzero.eq_or_lt with rfl | hpos
  · rfl
  · have hbinary : binaryExponent exact < -1021 :=
      (zpow_lt_zpow_iff_right₀ (by norm_num)).mp (lt_of_le_of_lt (binaryExponent_spec hpos).1 hhigh)
    rw [lastPlace, if_neg hpos.ne']
    omega

-- What lies within half a place of a number rounds to it.
theorem nearestSigned_of_place {exact : Rat} {number : Finite} (negative : Bool)
    (hplace : lastPlace exact = number.exponent)
    (hround : RoundsTo (exact / (2 : Rat) ^ number.exponent) number.significand) :
    nearestSigned negative exact = .finite { number with negative } := by
  have hbound := number.canonical.1
  have hne : number.significand ≠ 9007199254740992 := by omega
  simp only [nearestSigned, hplace, twoTo_eq, hround.eq, Int.toNat_natCast, hne, if_false]
  rw [dif_pos number.canonical]

-- Below a power of two the places are half as wide, and what rounds up to it takes the place of the next.
theorem nearestSigned_of_carry {exact : Rat} {number : Finite} (negative : Bool)
    (hpower : number.significand = 4503599627370496) (hplace : lastPlace exact = number.exponent - 1)
    (hround : RoundsTo (exact / (2 : Rat) ^ (number.exponent - 1)) 9007199254740992) :
    nearestSigned negative exact = .finite { number with negative } := by
  obtain ⟨sign, significand, exponent, hcanonical⟩ := number
  dsimp only at hpower hplace hround
  subst hpower
  simp only [nearestSigned, hplace, twoTo_eq, hround.eq]
  have hback : exponent - 1 + 1 = exponent := by omega
  simp [hback, hcanonical]

end VoyageLog.Binary64
