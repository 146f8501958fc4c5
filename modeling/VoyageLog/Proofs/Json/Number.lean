import VoyageLog.Json.Number
import VoyageLog.Proofs.Text.Digits

namespace VoyageLog.Json.Number

open Text

def Digits (digits : Text) : Prop := digits ≠ [] ∧ allDigits digits = true

-- What each part of a number has to be.
structure Sound (number : Number) : Prop where
  whole : isWhole number.whole = true
  digits : allDigits number.whole = true
  places : ∀ digits, number.places = some digits → Digits digits
  exponent : ∀ negative digits, number.exponent = some (negative, digits) → Digits digits

def placesText : Option Text → Text
  | none => []
  | some digits => '.' :: digits

def exponentText : Option (Bool × Text) → Text
  | none => []
  | some (negative, digits) => 'e' :: (if negative then '-' else '+') :: digits

theorem write_eq (number : Number) :
    number.write = (if number.negative then ['-'] else []) ++
      (number.whole ++ (placesText number.places ++ exponentText number.exponent)) := by
  simp only [write, List.append_assoc]
  cases number.places <;> cases number.exponent <;> rfl

theorem readExponent_text {exponent : Option (Bool × Text)}
    (h : ∀ negative digits, exponent = some (negative, digits) → Digits digits) :
    readExponent (exponentText exponent) = some exponent := by
  rcases exponent with _ | ⟨negative, digits⟩
  · rfl
  · obtain ⟨hne, hall⟩ := h negative digits rfl
    cases negative <;> simp [readExponent, exponentText, exponentSign, hne, hall]

theorem readPlaces_text {places : Option Text} (exponent : Option (Bool × Text))
    (h : ∀ digits, places = some digits → Digits digits) :
    readPlaces (placesText places ++ exponentText exponent) = some (places, exponentText exponent) := by
  rcases places with _ | digits
  · rcases exponent with _ | ⟨negative, digits⟩ <;> rfl
  · obtain ⟨hne, hall⟩ := h digits rfl
    have hends : ∀ c, (exponentText exponent).head? = some c → c.isDigit = false := by
      rcases exponent with _ | ⟨negative, digits⟩ <;> simp [exponentText]
    simp [readPlaces, placesText, digitRun_append hall hends, hne]

-- After the digits before the point comes no further digit.
theorem head_after_whole (number : Number) (c : Char)
    (h : (placesText number.places ++ exponentText number.exponent).head? = some c) : c.isDigit = false := by
  rcases hplaces : number.places with _ | digits
  · rcases hexponent : number.exponent with _ | ⟨negative, digits⟩ <;>
      simp [hplaces, hexponent, placesText, exponentText] at h
    subst h
    rfl
  · obtain rfl : '.' = c := by simpa [hplaces, placesText] using h
    rfl

theorem read?_write {number : Number} (h : Sound number) : read? number.write = some number := by
  obtain ⟨hwhole, hdigits, hplaces, hexponent⟩ := h
  have hrun := digitRun_append hdigits (head_after_whole number)
  have hrest := readPlaces_text number.exponent hplaces
  have hlast := readExponent_text hexponent
  rw [write_eq, read?]
  cases hnegative : number.negative with
  | true =>
    simp only [if_true, List.cons_append, List.nil_append, List.head?_cons, List.tail_cons, decide_true]
    rw [hrun]
    simp [hwhole, hrest, hlast, ← hnegative]
  | false =>
    obtain ⟨first, others, hcons⟩ : ∃ first others, number.whole = first :: others := by
      cases hnil : number.whole with
      | nil => simp [hnil, isWhole] at hwhole
      | cons first others => exact ⟨first, others, rfl⟩
    have hsign : first ≠ '-' := by
      rintro rfl
      simp [hcons, allDigits] at hdigits
    have hhead : ((number.whole ++ (placesText number.places ++ exponentText number.exponent)).head? =
        some '-') = False := by
      simp [hcons, hsign]
    simp only [Bool.false_eq_true, if_false, List.nil_append, hhead, decide_false]
    rw [hrun]
    simp [hwhole, hrest, hlast, ← hnegative]

-- Everything that a number is written with.
def IsNumeric (c : Char) : Prop := c.isDigit = true ∨ c ∈ ['-', '+', '.', 'e']

instance (c : Char) : Decidable (IsNumeric c) := inferInstanceAs (Decidable (_ ∨ _))

theorem isNumeric_of_mem_digits {digits : Text} {c : Char} (h : allDigits digits = true) (hmem : c ∈ digits) :
    IsNumeric c := .inl (List.all_eq_true.mp h c hmem)

theorem isNumeric_of_mem_write {number : Number} {c : Char} (h : Sound number) (hmem : c ∈ number.write) :
    IsNumeric c := by
  rw [write_eq] at hmem
  simp only [List.mem_append] at hmem
  rcases hmem with hsign | hwhole | hplaces | hexponent
  · obtain rfl : c = '-' := by
      split at hsign
      · simpa using hsign
      · cases hsign
    exact .inr (by decide)
  · exact isNumeric_of_mem_digits h.digits hwhole
  · cases hsome : number.places with
    | none => simp [hsome, placesText] at hplaces
    | some digits =>
      rw [hsome, placesText, List.mem_cons] at hplaces
      rcases hplaces with rfl | hdigit
      · exact .inr (by decide)
      · exact isNumeric_of_mem_digits (h.places digits hsome).2 hdigit
  · rcases hsome : number.exponent with _ | ⟨negative, digits⟩
    · simp [hsome, exponentText] at hexponent
    · rw [hsome, exponentText, List.mem_cons, List.mem_cons] at hexponent
      rcases hexponent with rfl | rfl | hdigit
      · exact .inr (by decide)
      · cases negative <;> exact .inr (by decide)
      · exact isNumeric_of_mem_digits (h.exponent negative digits hsome).2 hdigit

theorem write_ne_nil {number : Number} (h : Sound number) : number.write ≠ [] := by
  intro hnil
  have hread := read?_write h
  rw [hnil] at hread
  cases hread

end VoyageLog.Json.Number
