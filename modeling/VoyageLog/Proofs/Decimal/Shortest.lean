import VoyageLog.Decimal.Shortest
import VoyageLog.Proofs.Binary64.Rounding

namespace VoyageLog.Decimal

open Binary64

theorem tenTo_eq (exponent : Int) : tenTo exponent = (10 : Rat) ^ exponent := by
  unfold tenTo
  split
  · rename_i h
    obtain ⟨count, rfl⟩ := Int.eq_ofNat_of_zero_le h
    simp
  · rename_i h
    obtain ⟨count, hcount⟩ := Int.eq_ofNat_of_zero_le (show 0 ≤ -exponent by omega)
    obtain rfl : exponent = -(count : Int) := by omega
    simp [Rat.mkRat_eq_div]

theorem zpow_ten_pos (exponent : Int) : (0 : Rat) < 10 ^ exponent := zpow_pos (by norm_num) exponent

theorem lowerGap_le (number : Finite) : lowerGap number ≤ 1 / 2 := by
  unfold lowerGap
  split <;> norm_num

theorem lowerGap_pos (number : Finite) : 0 < lowerGap number := by
  unfold lowerGap
  split <;> norm_num

-- Where the magnitudes that read back lie, in places of the number.
structure Near (number : Finite) (places : Rat) : Prop where
  above : (number.significand : Rat) - lowerGap number ≤ places
  below : places ≤ (number.significand : Rat) + 1 / 2
  inside : number.significand % 2 ≠ 0 →
    (number.significand : Rat) - lowerGap number < places ∧ places < (number.significand : Rat) + 1 / 2

theorem readsBack_iff {number : Finite} {magnitude : Rat} :
    readsBack number magnitude = true ↔ Near number (magnitude / 2 ^ number.exponent) := by
  have hpos := zpow_two_pos number.exponent
  unfold readsBack lowerEnd upperEnd
  rw [twoTo_eq]
  split
  · rename_i heven
    rw [decide_eq_true_eq, ← le_div_iff₀ hpos, ← div_le_iff₀ hpos]
    exact ⟨fun h => ⟨h.1, h.2, fun hodd => absurd heven hodd⟩, fun h => ⟨h.above, h.below⟩⟩
  · rename_i hodd
    rw [decide_eq_true_eq, ← lt_div_iff₀ hpos, ← div_lt_iff₀ hpos]
    exact ⟨fun h => ⟨h.1.le, h.2.le, fun _ => h⟩, fun h => h.inside hodd⟩

-- In the least places of all, or at and above a number that is no power of two, half a place either way.
theorem Near.roundsTo {number : Finite} {places : Rat} (h : Near number places)
    (hlow : number.exponent = -1074 ∨ (4503599627370496 : Rat) ≤ places) :
    RoundsTo places number.significand := by
  have hodd : ((number.significand : Int) % 2 ≠ 0) → number.significand % 2 ≠ 0 := by omega
  by_cases hgap : number.significand = 4503599627370496 ∧ number.exponent ≠ -1074
  · have hreach := hlow.resolve_left hgap.2
    have hbelow := h.below
    rw [hgap.1] at hbelow ⊢
    push_cast at hbelow
    exact ⟨by push_cast; linarith, by push_cast; linarith, by simp⟩
  · obtain ⟨habove, hbelow, hinside⟩ := h
    rw [lowerGap, if_neg hgap] at habove hinside
    exact ⟨by push_cast; linarith, by push_cast; linarith, fun h => by push_cast; exact hinside (hodd h)⟩

-- Below a power of two, a quarter of a place.
theorem Near.quarter {number : Finite} {places : Rat} (h : Near number places)
    (hnormal : number.exponent ≠ -1074) (hlow : places < 4503599627370496) :
    number.significand = 4503599627370496 ∧ (4503599627370496 : Rat) - 1 / 4 ≤ places := by
  have hfull := number.canonical.2.2.2.resolve_right hnormal
  have hgap := lowerGap_le number
  have habove := h.above
  have hpower : number.significand = 4503599627370496 := by
    have hlt : (number.significand : Rat) < 4503599627370497 := by linarith
    have : number.significand < 4503599627370497 := by exact_mod_cast hlt
    omega
  rw [lowerGap, if_pos ⟨hpower, hnormal⟩, hpower] at habove
  push_cast at habove
  exact ⟨hpower, habove⟩

theorem nearestSigned_of_readsBack {number : Finite} {magnitude : Rat} (negative : Bool)
    (hzero : 0 ≤ magnitude) (h : readsBack number magnitude = true) :
    nearestSigned negative magnitude = .finite { number with negative } := by
  have hnear := readsBack_iff.mp h
  have hpos := zpow_two_pos number.exponent
  obtain ⟨hbound, hleast, -, -⟩ := number.canonical
  have hlast : magnitude / 2 ^ number.exponent < 2 ^ (53 : Int) := by
    have hsignificand : (number.significand : Rat) ≤ 9007199254740991 := by
      exact_mod_cast Nat.le_of_lt_succ hbound
    have hbelow := hnear.below
    norm_num
    linarith
  have htop : magnitude < 2 ^ (number.exponent + 53) := by
    rw [add_comm, zpow_add₀ (by norm_num)]
    exact (div_lt_iff₀ hpos).mp hlast
  have hbase : (4503599627370496 : Rat) * 2 ^ number.exponent = 2 ^ (number.exponent + 52) := by
    rw [add_comm, zpow_add₀ (by norm_num)]
    norm_num
  by_cases hsmall : number.exponent = -1074
  · rw [hsmall] at htop
    refine nearestSigned_of_place negative ?_ (hnear.roundsTo (.inl hsmall))
    rw [hsmall]
    exact lastPlace_of_small hzero htop
  · by_cases hreach : (4503599627370496 : Rat) ≤ magnitude / 2 ^ number.exponent
    · refine nearestSigned_of_place negative ?_ (hnear.roundsTo (.inr hreach))
      rw [le_div_iff₀ hpos, hbase] at hreach
      exact lastPlace_of_normal hreach htop hleast
    · rw [not_le] at hreach
      obtain ⟨hpower, hquarter⟩ := hnear.quarter hsmall hreach
      have hdouble : magnitude / 2 ^ (number.exponent - 1) = 2 * (magnitude / 2 ^ number.exponent) := by
        rw [zpow_sub_one₀ (by norm_num)]
        field_simp
      refine nearestSigned_of_carry negative hpower ?_ ?_
      · refine lastPlace_of_normal ?_ ?_ (by omega)
        · have hhalf : (2 : Rat) ^ (number.exponent - 1 + 52) = 2251799813685248 * 2 ^ number.exponent := by
            rw [show number.exponent - 1 + 52 = 51 + number.exponent by ring, zpow_add₀ (by norm_num)]
            norm_num
          rw [hhalf, ← le_div_iff₀ hpos]
          linarith
        · rw [show number.exponent - 1 + 53 = number.exponent + 52 by ring, ← hbase]
          exact (div_lt_iff₀ hpos).mp hreach
      · rw [hdouble]
        exact ⟨by push_cast; linarith, by push_cast; linarith, by simp⟩

theorem magnitude_eq (number : Finite) :
    number.magnitude = (number.significand : Rat) * 2 ^ number.exponent := by
  rw [Finite.magnitude, twoTo_eq]

theorem magnitude_nonneg (number : Finite) : 0 ≤ number.magnitude := by
  rw [magnitude_eq]
  exact mul_nonneg (Nat.cast_nonneg _) (zpow_two_pos _).le

-- The two neighbours of a number on a grid.
theorem steps_floor (number : Finite) (exponent : Int) :
    ((number.magnitude / tenTo exponent).floor.toNat : Rat) ≤ number.magnitude / tenTo exponent ∧
      number.magnitude / tenTo exponent < (number.magnitude / tenTo exponent).floor.toNat + 1 := by
  have hsteps : 0 ≤ number.magnitude / tenTo exponent := by
    rw [tenTo_eq]
    exact div_nonneg (magnitude_nonneg number) (zpow_ten_pos exponent).le
  generalize number.magnitude / tenTo exponent = steps at hsteps
  have hfloor : 0 ≤ steps.floor := Rat.le_floor_iff.mpr (by simpa using hsteps)
  have hcast : ((steps.floor.toNat : Nat) : Rat) = steps.floor := by
    rw [← Int.cast_natCast, Int.toNat_of_nonneg hfloor]
  have hlt : steps - 1 < steps.floor := Rat.lt_floor
  rw [hcast]
  exact ⟨Rat.floor_le steps, by linarith⟩

-- A decimal that a grid gives reads back, and is one of the neighbours there.
structure Found (number : Finite) (exponent : Int) (scaled : Scaled) : Prop where
  readsBack : readsBack number scaled.value = true
  positive : 0 < scaled.digits
  exponent_eq : scaled.exponent = exponent
  digits_le : (scaled.digits : Rat) ≤ number.magnitude / tenTo exponent + 1

theorem found_of_onGrid? {tie : Tie} {number : Finite} {exponent : Int} {scaled : Scaled}
    (h : onGrid? tie number exponent = some scaled) : Found number exponent scaled := by
  obtain ⟨hbelow, habove⟩ := steps_floor number exponent
  simp only [onGrid?] at h
  generalize (number.magnitude / tenTo exponent).floor.toNat = floor at h hbelow habove
  have hlower : (decide (0 < floor) && readsBack number (Scaled.value ⟨floor, exponent⟩)) = true →
      Found number exponent ⟨floor, exponent⟩ := by
    intro hreads
    rw [Bool.and_eq_true, decide_eq_true_eq] at hreads
    exact ⟨hreads.2, hreads.1, rfl, by dsimp only; linarith⟩
  have hupper : readsBack number (Scaled.value ⟨floor + 1, exponent⟩) = true →
      Found number exponent ⟨floor + 1, exponent⟩ := by
    intro hreads
    exact ⟨hreads, Nat.succ_pos _, rfl, by push_cast; linarith⟩
  split at h
  · rename_i hfirst hsecond
    split at h
    · exact Option.some.inj h ▸ hlower hfirst
    · split at h
      · exact Option.some.inj h ▸ hupper hsecond
      · split at h
        · split at h
          · exact Option.some.inj h ▸ hlower hfirst
          · exact Option.some.inj h ▸ hupper hsecond
        · exact Option.some.inj h ▸ hupper hsecond
  · rename_i hfirst _
    exact Option.some.inj h ▸ hlower hfirst
  · rename_i hsecond
    exact Option.some.inj h ▸ hupper hsecond
  · cases h

-- A grid with steps of less than half a place has a decimal that reads back.
theorem onGrid?_of_fine (tie : Tie) {number : Finite} {exponent : Int}
    (hfine : tenTo exponent < twoTo number.exponent / 2) : (onGrid? tie number exponent).isSome := by
  obtain ⟨hbelow, habove⟩ := steps_floor number exponent
  have hten : 0 < tenTo exponent := by rw [tenTo_eq]; exact zpow_ten_pos exponent
  have htwo := zpow_two_pos number.exponent
  have hreads : readsBack number
      (Scaled.value ⟨(number.magnitude / tenTo exponent).floor.toNat + 1, exponent⟩) = true := by
    generalize (number.magnitude / tenTo exponent).floor.toNat = floor at hbelow habove ⊢
    rw [le_div_iff₀ hten] at hbelow
    rw [div_lt_iff₀ hten] at habove
    rw [twoTo_eq] at hfine
    rw [magnitude_eq] at hbelow habove
    have hgap := lowerGap_pos number
    rw [readsBack_iff]
    have hover : (number.significand : Rat) < Scaled.value ⟨floor + 1, exponent⟩ / 2 ^ number.exponent := by
      rw [lt_div_iff₀ htwo, Scaled.value]
      push_cast
      exact habove
    have hunder : Scaled.value ⟨floor + 1, exponent⟩ / 2 ^ number.exponent <
        (number.significand : Rat) + 1 / 2 := by
      rw [div_lt_iff₀ htwo, Scaled.value]
      push_cast
      linarith
    exact ⟨by linarith, hunder.le, fun _ => ⟨by linarith, hunder⟩⟩
  simp only [onGrid?, hreads]
  split
  · split
    · rfl
    · split
      · rfl
      · split
        · split <;> rfl
        · rfl
  · rfl
  · rfl
  · rename_i hnone
    cases hnone

-- The first grid that gives a decimal wins.
theorem onGridsFrom_first {tie : Tie} {number : Finite} {exponent : Int} {grids : Nat}
    (h : ∃ grid < grids, (onGrid? tie number (exponent - grid)).isSome) :
    ∃ grid < grids, onGrid? tie number (exponent - grid) = some (onGridsFrom tie number exponent grids) ∧
      ∀ coarser < grid, onGrid? tie number (exponent - coarser) = none := by
  induction grids generalizing exponent with
  | zero =>
    obtain ⟨grid, hgrid, -⟩ := h
    omega
  | succ grids ih =>
    rw [onGridsFrom]
    cases hhere : onGrid? tie number exponent with
    | some scaled => exact ⟨0, Nat.succ_pos _, by simpa using hhere, fun _ hcoarser => by omega⟩
    | none =>
      obtain ⟨grid, hgrid, hsome⟩ := h
      obtain ⟨finer, rfl⟩ : ∃ finer, grid = finer + 1 := by
        refine ⟨grid - 1, ?_⟩
        have : grid ≠ 0 := by
          rintro rfl
          simp [hhere] at hsome
        omega
      have hshift : ∀ count : Nat, exponent - ((count + 1 : Nat) : Int) = exponent - 1 - count := by
        intro count
        push_cast
        ring
      rw [hshift] at hsome
      obtain ⟨first, hfirst, hfound, hnone⟩ := ih ⟨finer, by omega, hsome⟩
      refine ⟨first + 1, by omega, by rw [hshift]; exact hfound, ?_⟩
      intro coarser hcoarser
      cases coarser with
      | zero => simpa using hhere
      | succ coarser =>
        rw [hshift]
        exact hnone coarser (by omega)

-- For each of the 2046 exponents, counted from the least: a power of ten below half a place and one above it.
theorem powers_bracket {count : Nat} (h : count < 2046) :
    10 ^ ((count * 30103 + 9294940) / 100000 - 22) * 2 ^ 1100 < 2 ^ (count + 25) * 10 ^ 400 ∧
      2 ^ (count + 25) * 10 ^ 400 ≤ 10 ^ ((count * 30103 + 7729584) / 100000 + 2) * 2 ^ 1100 := by
  have hall : (List.range 2046).all (fun count =>
      Nat.ble (10 ^ ((count * 30103 + 9294940) / 100000 - 22) * 2 ^ 1100 + 1) (2 ^ (count + 25) * 10 ^ 400) &&
        Nat.ble (2 ^ (count + 25) * 10 ^ 400)
          (10 ^ ((count * 30103 + 7729584) / 100000 + 2) * 2 ^ 1100)) = true := by
    decide +kernel
  have hone := List.all_eq_true.mp hall count (List.mem_range.mpr h)
  rw [Bool.and_eq_true] at hone
  exact ⟨Nat.le_of_ble_eq_true hone.1, Nat.le_of_ble_eq_true hone.2⟩

theorem zpow_bracket {exponent : Int} (hleast : -1074 ≤ exponent) (hgreatest : exponent ≤ 971) :
    (10 : Rat) ^ ((exponent + 54) * 30103 / 100000 - 22) < 2 ^ exponent / 2 ∧
      (2 : Rat) ^ exponent / 2 ≤ 10 ^ ((exponent + 2) * 30103 / 100000 + 2) := by
  obtain ⟨count, hcount⟩ := Int.eq_ofNat_of_zero_le (show 0 ≤ exponent + 1074 by omega)
  obtain ⟨hfine, hcoarse⟩ := powers_bracket (show count < 2046 by omega)
  have hhalf : (2 : Rat) ^ exponent / 2 = 2 ^ (count + 25) / 2 ^ 1100 := by
    rw [show exponent = ((count + 25 : Nat) : Int) - ((1100 : Nat) : Int) + 1 by push_cast; omega,
      zpow_add_one₀ (by norm_num), zpow_sub₀ (by norm_num), zpow_natCast, zpow_natCast]
    field_simp
  have hlow : (10 : Rat) ^ ((exponent + 54) * 30103 / 100000 - 22) =
      10 ^ ((count * 30103 + 9294940) / 100000 - 22) / 10 ^ 400 := by
    rw [show (exponent + 54) * 30103 / 100000 - 22 =
        (((count * 30103 + 9294940) / 100000 - 22 : Nat) : Int) - ((400 : Nat) : Int) by omega,
      zpow_sub₀ (by norm_num), zpow_natCast, zpow_natCast]
  have hhigh : (10 : Rat) ^ ((exponent + 2) * 30103 / 100000 + 2) =
      10 ^ ((count * 30103 + 7729584) / 100000 + 2) / 10 ^ 400 := by
    rw [show (exponent + 2) * 30103 / 100000 + 2 =
        (((count * 30103 + 7729584) / 100000 + 2 : Nat) : Int) - ((400 : Nat) : Int) by omega,
      zpow_sub₀ (by norm_num), zpow_natCast, zpow_natCast]
  rw [hhalf, hlow, hhigh, div_lt_div_iff₀ (by positivity) (by positivity),
    div_le_div_iff₀ (by positivity) (by positivity)]
  exact ⟨by exact_mod_cast hfine, by exact_mod_cast hcoarse⟩

theorem binaryExponent_magnitude {number : Finite} (hpos : 0 < number.significand) :
    number.exponent ≤ binaryExponent number.magnitude ∧
      binaryExponent number.magnitude ≤ number.exponent + 52 := by
  have htwo := zpow_two_pos number.exponent
  have hone : (1 : Rat) ≤ number.significand := by exact_mod_cast hpos
  have hlast : (number.significand : Rat) < 2 ^ (53 : Int) := by
    norm_num
    exact number.canonical.1
  have hmagnitude : 0 < number.magnitude := by
    rw [magnitude_eq]
    exact mul_pos (by linarith) htwo
  obtain ⟨hlow, hhigh⟩ := binaryExponent_spec hmagnitude
  rw [magnitude_eq] at hlow hhigh ⊢
  have hfrom : (2 : Rat) ^ number.exponent < 2 ^ (binaryExponent (number.significand * 2 ^ number.exponent) + 1) :=
    lt_of_le_of_lt (le_mul_of_one_le_left htwo.le hone) hhigh
  have hto : (2 : Rat) ^ binaryExponent (number.significand * 2 ^ number.exponent) <
      2 ^ (53 + number.exponent) := by
    rw [zpow_add₀ (by norm_num) 53]
    exact lt_of_le_of_lt hlow (mul_lt_mul_of_pos_right hlast htwo)
  have hge := (zpow_lt_zpow_iff_right₀ (by norm_num)).mp hfrom
  have hle := (zpow_lt_zpow_iff_right₀ (by norm_num)).mp hto
  omega

theorem zpow_ten_le {first second : Int} (h : first ≤ second) : (10 : Rat) ^ first ≤ 10 ^ second :=
  zpow_le_zpow_right₀ (by norm_num) h

-- A decimal with no more digits than fit a word, and with a place within the range. Zero is written as such.
structure Moderate (scaled : Scaled) : Prop where
  digits_lt : scaled.digits < 200000000000000000
  least : -400 ≤ scaled.exponent
  greatest : scaled.exponent ≤ 400
  zero : scaled.digits = 0 → scaled.exponent = 0

-- The shortest decimal of a number that is not zero reads back.
theorem shortest_spec (tie : Tie) {number : Finite} (hpos : 0 < number.significand) :
    readsBack number (shortest tie number).value = true ∧ Moderate (shortest tie number) := by
  obtain ⟨-, hleast, hgreatest, -⟩ := number.canonical
  obtain ⟨hfine, hcoarse⟩ := zpow_bracket hleast hgreatest
  obtain ⟨hfrom, hto⟩ := binaryExponent_magnitude hpos
  have hcoarsest : coarsest number = (binaryExponent number.magnitude + 2) * 30103 / 100000 + 1 := rfl
  have hlast : tenTo (coarsest number - ((23 : Nat) : Int)) < twoTo number.exponent / 2 := by
    rw [tenTo_eq, twoTo_eq]
    exact lt_of_le_of_lt (zpow_ten_le (by omega)) hfine
  have htried : ∃ grid : Nat, grid < 24 ∧ (onGrid? tie number (coarsest number - grid)).isSome :=
    ⟨23, by norm_num, onGrid?_of_fine tie hlast⟩
  obtain ⟨grid, hgrid, hfound, hnone⟩ := onGridsFrom_first htried
  have hshortest : shortest tie number = onGridsFrom tie number (coarsest number) 24 := by
    rw [shortest, if_neg (by omega)]
  rw [← hshortest] at hfound
  obtain ⟨hreads, hdigits, hexponent, hle⟩ := found_of_onGrid? hfound
  refine ⟨hreads, ?_, by omega, by omega, by omega⟩
  -- The step of the grid is not less than a twentieth of a place, or a coarser one would have done.
  have hstep : (2 : Rat) ^ number.exponent / 2 ≤ 10 * 10 ^ (coarsest number - (grid : Int)) := by
    rw [mul_comm, ← zpow_add_one₀ (by norm_num)]
    cases grid with
    | zero => exact hcoarse.trans (zpow_ten_le (by push_cast; omega))
    | succ coarser =>
      have hcoarser := hnone coarser (Nat.lt_succ_self coarser)
      by_contra hsmall
      rw [not_le] at hsmall
      have hbelow : tenTo (coarsest number - (coarser : Int)) < twoTo number.exponent / 2 := by
        rw [tenTo_eq, twoTo_eq]
        exact lt_of_le_of_lt (zpow_ten_le (by push_cast; omega)) hsmall
      have hsome := onGrid?_of_fine tie hbelow
      simp [hcoarser] at hsome
  have hten := zpow_ten_pos (coarsest number - (grid : Int))
  have htwo := zpow_two_pos number.exponent
  have hsignificand : (number.significand : Rat) ≤ 9007199254740992 := by
    exact_mod_cast number.canonical.1.le
  have hsteps : number.magnitude / tenTo (coarsest number - (grid : Int)) ≤ 180143985094819840 := by
    rw [tenTo_eq, div_le_iff₀ hten, magnitude_eq]
    calc (number.significand : Rat) * 2 ^ number.exponent
        ≤ 9007199254740992 * 2 ^ number.exponent := by gcongr
      _ = 18014398509481984 * (2 ^ number.exponent / 2) := by ring
      _ ≤ 18014398509481984 * (10 * 10 ^ (coarsest number - (grid : Int))) := by gcongr
      _ = 180143985094819840 * 10 ^ (coarsest number - (grid : Int)) := by ring
  have hbound : ((shortest tie number).digits : Rat) < 200000000000000000 := by linarith
  exact_mod_cast hbound

theorem shortest_of_zero (tie : Tie) {number : Finite} (hzero : number.significand = 0) :
    shortest tie number = ⟨0, 0⟩ := if_pos hzero

theorem readsBack_shortest (tie : Tie) (number : Finite) : readsBack number (shortest tie number).value = true := by
  rcases Nat.eq_zero_or_pos number.significand with hzero | hpos
  · have hgap := lowerGap_pos number
    rw [shortest_of_zero tie hzero, readsBack_iff]
    simp only [Scaled.value, Nat.cast_zero, zero_mul, zero_div]
    exact ⟨by rw [hzero]; push_cast; linarith, by rw [hzero]; norm_num, fun hodd => by omega⟩
  · exact (shortest_spec tie hpos).1

theorem moderate_shortest (tie : Tie) (number : Finite) : Moderate (shortest tie number) := by
  rcases Nat.eq_zero_or_pos number.significand with hzero | hpos
  · rw [shortest_of_zero tie hzero]
    exact ⟨by decide, by decide, by decide, fun _ => rfl⟩
  · exact (shortest_spec tie hpos).2

end VoyageLog.Decimal
