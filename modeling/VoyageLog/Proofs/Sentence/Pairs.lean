import VoyageLog.Proofs.Text.Bytes
import VoyageLog.Proofs.Text.Digits

namespace VoyageLog.Sentence

open Text

variable {α : Type} {first second third rest text digits : Text}

-- Three pairs of digits in front of text, and what follows them.
structure Pairs (first second third rest text : Text) : Prop where
  whole : text = first ++ (second ++ (third ++ rest))
  two : first.length = 2 ∧ second.length = 2 ∧ third.length = 2
  digits : allDigits first = true ∧ allDigits second = true ∧ allDigits third = true

-- Three numbers read one after the other are those that the pairs spell.
theorem Pairs.bind_eq (h : Pairs first second third rest text) (next : Nat → Nat → Nat → Text → Option α) :
    (do
      let (one, text) ← readExactly 2 text
      let (two, text) ← readExactly 2 text
      let (three, text) ← readExactly 2 text
      next one two three text) = next (number first) (number second) (number third) rest := by
  obtain ⟨rfl, ⟨hfirst, hsecond, hthird⟩, hone, htwo, hthree⟩ := h
  simp only [readExactly_append _ hfirst hone, readExactly_append _ hsecond htwo, readExactly_append _ hthird hthree,
    bind, Option.bind]

theorem bind_pairs_eq_some_iff (next : Nat → Nat → Nat → Text → Option α) {found : α} :
    (do
      let (one, text) ← readExactly 2 text
      let (two, text) ← readExactly 2 text
      let (three, text) ← readExactly 2 text
      next one two three text) = some found ↔
      ∃ first second third rest, Pairs first second third rest text ∧
        next (number first) (number second) (number third) rest = some found := by
  constructor
  · intro h
    obtain ⟨first, _, rfl, hone, hfirst, h⟩ := bind_readExactly_eq_some_iff.mp h
    obtain ⟨second, _, rfl, htwo, hsecond, h⟩ := bind_readExactly_eq_some_iff.mp h
    obtain ⟨third, rest, rfl, hthree, hthird, hnext⟩ := bind_readExactly_eq_some_iff.mp h
    exact ⟨first, second, third, rest, ⟨rfl, ⟨hone, htwo, hthree⟩, hfirst, hsecond, hthird⟩, hnext⟩
  · rintro ⟨first, second, third, rest, hpairs, hnext⟩
    rw [hpairs.bind_eq, hnext]

theorem isAscii_of_allDigits (h : allDigits digits = true) : IsAscii digits := by
  intro c hc
  have hcode : 48 ≤ c.toNat ∧ c.toNat ≤ 57 := Char.isDigit_iff_toNat.mp (List.all_eq_true.mp h c hc)
  omega

theorem Pairs.isAscii (h : Pairs first second third rest text) (hrest : IsAscii rest) : IsAscii text := by
  obtain ⟨rfl, -, hfirst, hsecond, hthird⟩ := h
  intro c hc
  simp only [List.mem_append] at hc
  rcases hc with hc | hc | hc | hc
  · exact isAscii_of_allDigits hfirst c hc
  · exact isAscii_of_allDigits hsecond c hc
  · exact isAscii_of_allDigits hthird c hc
  · exact hrest c hc

theorem Pairs.isAscii_rest (h : Pairs first second third rest text) (hascii : IsAscii text) : IsAscii rest := by
  obtain ⟨rfl, -⟩ := h
  exact fun c hc => hascii c (by simp [hc])

theorem Pairs.length_eq (h : Pairs first second third rest text) : text.length = rest.length + 6 := by
  obtain ⟨rfl, htwo, -⟩ := h
  simp only [List.length_append, htwo]
  omega

theorem Pairs.take_eq (h : Pairs first second third rest text) : text.take 6 = first ++ (second ++ third) := by
  obtain ⟨rfl, htwo, -⟩ := h
  have hsix : (first ++ (second ++ third)).length = 6 := by simp [htwo]
  rw [← List.append_assoc second, ← List.append_assoc first, List.take_left' hsix]

-- Without what follows they are still the same pairs.
theorem Pairs.alone (h : Pairs first second third rest text) : Pairs first second third [] (text.take 6) :=
  ⟨by rw [h.take_eq, List.append_nil], h.two, h.digits⟩

-- What a reading that goes by places in bytes asks of text first: six bytes of ASCII, all digits.
theorem Pairs.guards (h : Pairs first second third rest text) (hrest : IsAscii rest) :
    (6 ≤ byteLength text ∧ IsAscii text) ∧ allDigits (text.take 6) = true := by
  have hascii := h.isAscii hrest
  have hlength := h.length_eq
  obtain ⟨hfirst, hsecond, hthird⟩ := h.digits
  refine ⟨⟨?_, hascii⟩, ?_⟩
  · rw [byteLength_of_ascii hascii]
    omega
  · rw [h.take_eq, allDigits_append, allDigits_append, hfirst, hsecond, hthird]
    rfl

-- Every cut that tells the pairs apart falls between two characters.
theorem Pairs.slices (h : Pairs first second third rest text) (hascii : IsAscii text) :
    slice 0 2 text = .ok first ∧ slice 2 4 text = .ok second ∧ slice 4 6 text = .ok third := by
  have hlength := h.length_eq
  obtain ⟨rfl, ⟨hfirst, hsecond, hthird⟩, -⟩ := h
  obtain ⟨a₁, a₂, rfl⟩ := List.length_eq_two.mp hfirst
  obtain ⟨b₁, b₂, rfl⟩ := List.length_eq_two.mp hsecond
  obtain ⟨c₁, c₂, rfl⟩ := List.length_eq_two.mp hthird
  refine ⟨?_, ?_, ?_⟩
  all_goals
    rw [slice_of_ascii hascii (by decide) (by omega)]
    rfl

-- Six digits are three pairs.
theorem exists_pairs (hlength : 6 ≤ text.length) (hdigits : allDigits (text.take 6) = true) :
    ∃ first second third, Pairs first second third (text.drop 6) text := by
  obtain ⟨a₁, a₂, b₁, b₂, c₁, c₂, rest, rfl⟩ :
      ∃ a₁ a₂ b₁ b₂ c₁ c₂ rest, text = a₁ :: a₂ :: b₁ :: b₂ :: c₁ :: c₂ :: rest := by
    rcases text with _ | ⟨a₁, _ | ⟨a₂, _ | ⟨b₁, _ | ⟨b₂, _ | ⟨c₁, _ | ⟨c₂, rest⟩⟩⟩⟩⟩⟩ <;>
      simp at hlength ⊢
  refine ⟨[a₁, a₂], [b₁, b₂], [c₁, c₂], rfl, ⟨rfl, rfl, rfl⟩, ?_⟩
  simpa [allDigits, and_assoc] using hdigits

end VoyageLog.Sentence
