import VoyageLog.Decimal.Notation
import VoyageLog.Proofs.Text.Digits

namespace VoyageLog.Decimal

open Text

theorem length_decimal_pos (value : Nat) : 0 < (decimal value).length :=
  List.length_pos_iff.mpr (decimal_ne_nil value)

theorem lt_pow_length_decimal (value : Nat) : value < 10 ^ (decimal value).length :=
  (Nat.length_toDigits_le_iff (by decide) (length_decimal_pos value)).mp le_rfl

theorem length_decimal_le {value count : Nat} (hcount : 0 < count) (h : value < 10 ^ count) :
    (decimal value).length ≤ count := (Nat.length_toDigits_le_iff (by decide) hcount).mpr h

theorem allDigits_zeros (count : Int) : allDigits (zeros count) = true := by
  simp [allDigits, zeros]

theorem length_zeros (count : Int) : (zeros count).length = count.toNat := List.length_replicate

theorem number_zeros_append (count : Int) (digits : Text) : number (zeros count ++ digits) = number digits := by
  rw [number_append, number, zeros, Nat.ofDigitChars_replicate_zero]
  simp

theorem number_append_zeros (digits : Text) (count : Int) :
    number (digits ++ zeros count) = number digits * 10 ^ count.toNat := by
  have hzeros : number (zeros count) = 0 := by rw [number, zeros, Nat.ofDigitChars_replicate_zero, mul_zero]
  rw [number_append, length_zeros, hzeros, add_zero]

-- The two parts of a decimal in full, before the point and after it.
structure Written (scaled : Scaled) (parts : Text × Text) : Prop where
  digits : allDigits (parts.1 ++ parts.2) = true
  number_eq : number (parts.1 ++ parts.2) = scaled.digits * 10 ^ scaled.exponent.toNat
  length_places : parts.2.length = (-scaled.exponent).toNat
  head : parts.1.length = 1 ∨ parts.1 ≠ [] ∧ parts.1.head? ≠ some '0'

-- All digits stand after the point.
theorem written_after {value : Nat} {exponent : Int} (hafter : ((decimal value).length : Int) + exponent ≤ 0) :
    Written ⟨value, exponent⟩ (['0'], zeros (-((decimal value).length + exponent)) ++ decimal value) := by
  have hlength := length_decimal_pos value
  refine ⟨?_, ?_, ?_, .inl rfl⟩
  · rw [allDigits_append, allDigits_append, allDigits_zeros, allDigits_decimal]
    rfl
  · have hzero : number ['0'] = 0 := by decide
    rw [number_append, number_zeros_append, number_decimal, hzero, zero_mul, zero_add,
      Int.toNat_of_nonpos (show exponent ≤ 0 by omega), pow_zero, mul_one]
  · rw [List.length_append, length_zeros]
    dsimp only
    omega

-- All digits stand before the point. Zero has nothing behind it, so that it is the only one to begin with a zero.
theorem written_before {value : Nat} {exponent : Int} (hexponent : 0 ≤ exponent)
    (hzero : value = 0 → exponent = 0) :
    Written ⟨value, exponent⟩ (decimal value ++ zeros exponent, []) := by
  refine ⟨?_, ?_, ?_, ?_⟩
  · rw [List.append_nil, allDigits_append, allDigits_zeros, allDigits_decimal]
    rfl
  · rw [List.append_nil, number_append_zeros, number_decimal]
  · rw [List.length_nil]
    dsimp only
    omega
  · rcases value.eq_zero_or_pos with rfl | hpos
    · obtain rfl := hzero rfl
      exact .inl rfl
    · refine .inr ⟨List.append_ne_nil_of_left_ne_nil (decimal_ne_nil value) _, ?_⟩
      rw [List.head?_append, Option.or_of_isSome (List.isSome_head?.mpr (decimal_ne_nil value))]
      exact head_decimal hpos

-- The point stands among the digits.
theorem written_among {value : Nat} {exponent : Int} (hpos : 0 < value) (hexponent : exponent < 0)
    (hbefore : 0 < ((decimal value).length : Int) + exponent) :
    Written ⟨value, exponent⟩ ((decimal value).take ((decimal value).length + exponent).toNat,
      (decimal value).drop ((decimal value).length + exponent).toNat) := by
  refine ⟨?_, ?_, ?_, .inr ⟨?_, ?_⟩⟩
  · rw [List.take_append_drop, allDigits_decimal]
  · rw [List.take_append_drop, number_decimal, Int.toNat_of_nonpos hexponent.le, pow_zero, mul_one]
  · rw [List.length_drop]
    dsimp only
    omega
  · rw [Ne, List.take_eq_nil_iff, not_or]
    exact ⟨by omega, decimal_ne_nil value⟩
  · rw [List.head?_take, if_neg (by omega)]
    exact head_decimal hpos

theorem written_placed {scaled : Scaled} (hzero : scaled.digits = 0 → scaled.exponent = 0) :
    Written scaled scaled.placed.written := by
  obtain ⟨value, exponent⟩ := scaled
  have hlength := length_decimal_pos value
  have hbefore : (Scaled.placed ⟨value, exponent⟩).before = (decimal value).length + exponent := rfl
  have hdigits : (Scaled.placed ⟨value, exponent⟩).digits = decimal value := rfl
  dsimp only at hzero
  unfold Placed.written
  rw [hdigits, hbefore]
  by_cases hafter : ((decimal value).length : Int) + exponent ≤ 0
  · rw [if_pos hafter]
    exact written_after hafter
  rw [if_neg hafter]
  by_cases hfull : ((decimal value).length : Int) ≤ (decimal value).length + exponent
  · rw [if_pos hfull, add_sub_cancel_left]
    exact written_before (by omega) hzero
  · have hpos : value ≠ 0 := fun hnone => hfull (by rw [hzero hnone]; omega)
    rw [if_neg hfull]
    exact written_among (Nat.pos_of_ne_zero hpos) (by omega) (by omega)

end VoyageLog.Decimal
