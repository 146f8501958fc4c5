import Mathlib.Data.List.TakeDrop
import Mathlib.Data.Nat.Digits.Defs
import VoyageLog.Text.Digits

namespace VoyageLog.Text

theorem number_decimal (value : Nat) : number (decimal value) = value := Nat.ofDigitChars_ten_toDigits

theorem decimal_ne_nil (value : Nat) : decimal value ≠ [] := Nat.toDigits_ne_nil

theorem allDigits_decimal (value : Nat) : allDigits (decimal value) = true := by
  rw [allDigits, List.all_eq_true]
  exact fun _ hmem => Nat.isDigit_of_mem_toDigits (by decide) (by decide) hmem

-- Only zero begins with a zero.
theorem head_decimal {value : Nat} (h : 0 < value) : (decimal value).head? ≠ some '0' := by
  induction value using Nat.strongRecOn with
  | ind value ih =>
    by_cases hsmall : value < 10
    · have hdigit : ∀ digit < 10, 0 < digit → Nat.digitChar digit ≠ '0' := by decide
      rw [decimal, Nat.toDigits_of_lt_base hsmall]
      simpa using hdigit value hsmall h
    · have hrest := ih (value / 10) (by omega) (by omega)
      obtain ⟨first, others, hcons⟩ := List.exists_cons_of_ne_nil (decimal_ne_nil (value / 10))
      rw [hcons] at hrest
      rw [decimal, Nat.toDigits_of_base_le (by decide) (by omega), ← decimal, hcons]
      exact hrest

theorem allDigits_append (first second : Text) :
    allDigits (first ++ second) = (allDigits first && allDigits second) := List.all_append

-- A run of digits goes on for as long as there are digits.
theorem digitRun_append {digits rest : Text} (hdigits : allDigits digits = true)
    (hrest : ∀ c, rest.head? = some c → c.isDigit = false) : digitRun (digits ++ rest) = (digits, rest) := by
  have hall : ∀ c ∈ digits, c.isDigit = true := List.all_eq_true.mp hdigits
  rw [digitRun, List.span_eq_takeWhile_dropWhile, List.takeWhile_append_of_pos hall,
    List.dropWhile_append_of_pos hall]
  cases rest with
  | nil => simp
  | cons c rest =>
    have hc := hrest c rfl
    simp [hc]

-- Digits in front count ten times for each digit behind them.
theorem number_append (first second : Text) :
    number (first ++ second) = number first * 10 ^ second.length + number second := by
  rw [number, Nat.ofDigitChars_append, Nat.ofDigitChars_eq_ofDigitChars_zero, Nat.mul_comm]
  rfl

theorem number_cons (digit : Char) (rest : Text) :
    number (digit :: rest) = (digit.toNat - 48) * 10 ^ rest.length + number rest := by
  have hdigit : number [digit] = digit.toNat - 48 := by simp [number, Nat.ofDigitChars_cons]
  rw [← List.singleton_append, number_append, hdigit]

theorem number_lt {digits : Text} (hdigits : allDigits digits = true) : number digits < 10 ^ digits.length := by
  induction digits with
  | nil => decide
  | cons digit rest ih =>
    rw [allDigits, List.all_cons, Bool.and_eq_true] at hdigits
    have hvalue : 48 ≤ digit.toNat ∧ digit.toNat ≤ 57 := Char.isDigit_iff_toNat.mp hdigits.1
    have hdigit : digit.toNat - 48 ≤ 9 := by omega
    have hrest := ih hdigits.2
    have hmost := Nat.mul_le_mul_right (10 ^ rest.length) hdigit
    rw [number_cons, List.length_cons, Nat.pow_succ]
    omega

-- As many digits spell another number if they are others.
theorem number_injective {first second : Text} (hfirst : allDigits first = true) (hsecond : allDigits second = true)
    (hlength : first.length = second.length) (h : number first = number second) : first = second := by
  induction first generalizing second with
  | nil => exact (List.length_eq_zero_iff.mp hlength.symm).symm
  | cons digit rest ih =>
    obtain ⟨other, others, rfl⟩ := List.exists_cons_of_length_eq_add_one hlength.symm
    rw [allDigits, List.all_cons, Bool.and_eq_true] at hfirst hsecond
    have hlengths : rest.length = others.length := Nat.succ.inj hlength
    have hrest := number_lt hfirst.2
    have hothers := number_lt hsecond.2
    rw [number_cons, number_cons, hlengths] at h
    rw [hlengths] at hrest
    have hpos : 0 < 10 ^ others.length := Nat.pow_pos (by decide)
    have hhead : digit.toNat - 48 = other.toNat - 48 := by
      have hquotient := congrArg (· / 10 ^ others.length) h
      simpa only [Nat.add_comm _ (number _), Nat.add_mul_div_right _ _ hpos, Nat.div_eq_of_lt hrest,
        Nat.div_eq_of_lt hothers, Nat.zero_add] using hquotient
    have hdigit : 48 ≤ digit.toNat ∧ digit.toNat ≤ 57 := Char.isDigit_iff_toNat.mp hfirst.1
    have hother : 48 ≤ other.toNat ∧ other.toNat ≤ 57 := Char.isDigit_iff_toNat.mp hsecond.1
    have htail : number rest = number others := by
      rw [hhead] at h
      omega
    have hsame : digit = other := Char.toNat_inj.mp (by omega)
    rw [hsame, ih hfirst.2 hsecond.2 hlengths htail]

theorem number_zeros (count : Nat) : number (List.replicate count '0') = 0 := by
  induction count with
  | zero => rfl
  | succ count ih => simp [number, List.replicate_succ, Nat.ofDigitChars_cons]

theorem allDigits_replicate {digit : Char} (hdigit : digit.isDigit = true) (count : Nat) :
    allDigits (List.replicate count digit) = true := by
  rw [allDigits, List.all_eq_true]
  intro c hc
  rwa [List.eq_of_mem_replicate hc]

-- So many digits in front, and nothing else.
theorem readExactly_eq_some_iff {width value : Nat} {text rest : Text} :
    readExactly width text = some (value, rest) ↔
      ∃ digits, text = digits ++ rest ∧ digits.length = width ∧ allDigits digits = true ∧ number digits = value := by
  constructor
  · intro h
    simp only [readExactly] at h
    split at h
    · rename_i hread
      simp only [Bool.and_eq_true, decide_eq_true_eq] at hread
      obtain ⟨rfl, rfl⟩ := Prod.mk.inj (Option.some.inj h)
      exact ⟨text.take width, (List.take_append_drop width text).symm, hread.1, hread.2, rfl⟩
    · cases h
  · rintro ⟨digits, rfl, rfl, hdigits, rfl⟩
    simp [readExactly, hdigits]

theorem readExactly_append {digits : Text} {width : Nat} (rest : Text) (hlength : digits.length = width)
    (hdigits : allDigits digits = true) : readExactly width (digits ++ rest) = some (number digits, rest) :=
  readExactly_eq_some_iff.mpr ⟨digits, rfl, hlength, hdigits, rfl⟩

-- What goes on with the number goes on with what those digits spell.
theorem bind_readExactly_eq_some_iff {α : Type} {width : Nat} {text : Text} {next : Nat × Text → Option α}
    {found : α} : (readExactly width text >>= next) = some found ↔ ∃ digits rest, text = digits ++ rest ∧
      digits.length = width ∧ allDigits digits = true ∧ next (number digits, rest) = some found := by
  constructor
  · intro h
    obtain ⟨⟨value, rest⟩, hread, hnext⟩ := Option.bind_eq_some_iff.mp h
    obtain ⟨digits, hsplit, hlength, hdigits, rfl⟩ := readExactly_eq_some_iff.mp hread
    exact ⟨digits, rest, hsplit, hlength, hdigits, hnext⟩
  · rintro ⟨digits, rest, rfl, hlength, hdigits, hnext⟩
    rw [readExactly_append rest hlength hdigits]
    exact hnext

section Padded

variable {width value : Nat}

theorem number_padded (width value : Nat) : number (padded width value) = value := by
  rw [padded, List.leftpad, number_append, number_zeros, Nat.zero_mul, Nat.zero_add, number_decimal]

theorem allDigits_padded (width value : Nat) : allDigits (padded width value) = true := by
  rw [padded, List.leftpad, allDigits_append, allDigits_replicate rfl, allDigits_decimal]
  rfl

-- As many digits as asked for, unless the number has more.
theorem length_padded (hwidth : 0 < width) (h : value < 10 ^ width) : (padded width value).length = width := by
  have hshort : (decimal value).length ≤ width := Nat.toDigits_length 10 value width hwidth h
  rw [padded, List.length_leftpad]
  omega

theorem readExactly_padded (rest : Text) (hwidth : 0 < width) (h : value < 10 ^ width) :
    readExactly width (padded width value ++ rest) = some (value, rest) := by
  rw [readExactly_append rest (length_padded hwidth h) (allDigits_padded width value), number_padded]

theorem readUpTo_padded {rest : Text} (hwidth : 0 < width) (h : value < 10 ^ width)
    (hrest : ∀ c, rest.head? = some c → c.isDigit = false) :
    readUpTo width (padded width value ++ rest) = some (value, rest) := by
  have hlength := length_padded hwidth h
  have hrun : (digitRun (padded width value ++ rest)).1.take width = padded width value := by
    rw [digitRun_append (allDigits_padded width value) hrest, List.take_of_length_le (Nat.le_of_eq hlength)]
  have hne : (padded width value).isEmpty = false := by
    rw [List.isEmpty_eq_false_iff, ← List.length_pos_iff, hlength]
    exact hwidth
  simp only [readUpTo, hrun, hne, Bool.false_eq_true, if_false, List.drop_left, number_padded]

-- Digits are padded with no more than their own leading zeros.
theorem padded_number {digits : Text} (hdigits : allDigits digits = true) (hne : digits ≠ []) :
    padded digits.length (number digits) = digits :=
  number_injective (allDigits_padded _ _) hdigits
    (length_padded (List.length_pos_iff.mpr hne) (number_lt hdigits)) (number_padded _ _)

end Padded

end VoyageLog.Text
