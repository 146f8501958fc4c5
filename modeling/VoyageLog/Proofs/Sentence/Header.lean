import VoyageLog.Proofs.Text.Bytes
import VoyageLog.Sentence.Header

namespace VoyageLog.Sentence

open Text Text.Utf8

section Reading

variable {sentence : Text} {header : Header}

theorem isUpper_iff {c : Char} : c.isUpper = true ↔ 65 ≤ c.toNat ∧ c.toNat ≤ 90 := by
  change decide (65 ≤ c.val ∧ c.val ≤ 90) = true ↔ _
  rw [decide_eq_true_iff, UInt32.le_iff_toNat_le, UInt32.le_iff_toNat_le]
  rfl

theorem not_isDelimiter_of_isUpper {c : Char} (h : c.isUpper = true) : isDelimiter c = false := by
  rw [isUpper_iff] at h
  have hcomma : c ≠ ',' := by
    rintro rfl
    exact absurd h (by decide)
  have hstar : c ≠ '*' := by
    rintro rfl
    exact absurd h (by decide)
  simp [isDelimiter, hcomma, hstar]

theorem ofMark?_eq_some_iff {mark : Char} {form : Form} : Form.ofMark? mark = some form ↔ mark = form.mark := by
  unfold Form.ofMark?
  cases form <;> by_cases hdollar : mark = '$' <;> by_cases hbang : mark = '!' <;> simp_all [Form.mark]

theorem not_isDelimiter_mark (form : Form) : isDelimiter form.mark = false := by cases form <;> rfl

theorem head_append_tail (sentence : Text) : head sentence ++ sentence.dropWhile (!isDelimiter ·) = sentence :=
  List.takeWhile_append_dropWhile

theorem hasChecksumMark_iff :
    hasChecksumMark sentence = true ↔ ∃ rest, sentence = head sentence ++ ',' :: rest ∧ '*' ∈ rest := by
  have hsplit := head_append_tail sentence
  unfold hasChecksumMark
  cases htail : sentence.dropWhile (!isDelimiter ·) with
  | nil =>
    rw [htail, List.append_nil] at hsplit
    simp [hsplit]
  | cons first rest =>
    rw [htail] at hsplit
    simp only [Bool.and_eq_true, decide_eq_true_eq, List.contains_iff_mem]
    constructor
    · rintro ⟨rfl, hstar⟩
      exact ⟨rest, hsplit.symm, hstar⟩
    · rintro ⟨later, hlater, hstar⟩
      obtain ⟨rfl, rfl⟩ := List.cons.inj (List.append_cancel_left (hsplit.trans hlater))
      exact ⟨rfl, hstar⟩

-- A sound sentence character by character.
structure Spells (header : Header) (rest sentence : Text) : Prop where
  whole : sentence = header.form.mark :: (header.address.talker ++ header.address.code) ++ ',' :: rest
  star : '*' ∈ rest
  two : header.address.talker.length = 2
  three : header.address.code.length = 3
  letters : ∀ c ∈ header.address.talker ++ header.address.code, c.isUpper = true
  allowed : header.form.allows header.address.talker = true

theorem Spells.header_eq {rest : Text} (h : Spells header rest sentence) :
    ∃ form t₁ t₂ c₁ c₂ c₃, header = ⟨form, [t₁, t₂], [c₁, c₂, c₃]⟩ := by
  obtain ⟨form, talker, code⟩ := header
  obtain ⟨t₁, t₂, rfl⟩ := List.length_eq_two.mp h.two
  obtain ⟨c₁, c₂, c₃, rfl⟩ := List.length_eq_three.mp h.three
  exact ⟨form, t₁, t₂, c₁, c₂, c₃, rfl⟩

theorem Spells.head_eq {rest : Text} (h : Spells header rest sentence) :
    head sentence = header.form.mark :: (header.address.talker ++ header.address.code) := by
  have hplain : ∀ c ∈ header.form.mark :: (header.address.talker ++ header.address.code),
      (!isDelimiter c) = true := by
    intro c hc
    rcases List.mem_cons.mp hc with rfl | hc
    · simp [not_isDelimiter_mark]
    · simp [not_isDelimiter_of_isUpper (h.letters c hc)]
  rw [h.whole, head, List.takeWhile_append_of_pos hplain]
  simp [isDelimiter]

theorem read?_eq_some_iff : Header.read? sentence = some header ↔ ∃ rest, Spells header rest sentence := by
  constructor
  · intro h
    unfold Header.read? at h
    split at h
    · rename_i mark t₁ t₂ c₁ c₂ c₃ hhead
      simp only [Option.bind_eq_bind, Option.bind_eq_some_iff] at h
      obtain ⟨form, hform, hread⟩ := h
      split at hread
      · rename_i hsound
        obtain rfl := Option.some.inj hread
        simp only [Bool.and_eq_true] at hsound
        obtain ⟨⟨hletters, hallowed⟩, hmark⟩ := hsound
        obtain ⟨rest, hrest, hstar⟩ := hasChecksumMark_iff.mp hmark
        obtain rfl := ofMark?_eq_some_iff.mp hform
        rw [hhead] at hrest
        exact ⟨rest, hrest, hstar, rfl, rfl, List.all_eq_true.mp hletters, hallowed⟩
      · cases hread
    · cases h
  · rintro ⟨rest, h⟩
    have hmark : hasChecksumMark sentence = true :=
      hasChecksumMark_iff.mpr ⟨rest, by rw [h.head_eq]; exact h.whole, h.star⟩
    obtain ⟨form, t₁, t₂, c₁, c₂, c₃, rfl⟩ := h.header_eq
    have hhead := h.head_eq
    have hallowed := h.allowed
    have hletters := List.all_eq_true.mpr h.letters
    have hform : Form.ofMark? form.mark = some form := ofMark?_eq_some_iff.mpr rfl
    simp only [List.cons_append, List.nil_append] at hhead hletters
    simp [Header.read?, hhead, hform, hletters, hallowed, hmark]

-- Of a sentence that is read as one with an address, the other reading makes out the same address if the sentence is
-- parametric, and none if it is not.
theorem Spells.ofParametric?_eq {rest : Text} (h : Spells header rest sentence) :
    Address.ofParametric? sentence = if header.form = .parametric then some header.address else none := by
  obtain ⟨form, t₁, t₂, c₁, c₂, c₃, rfl⟩ := h.header_eq
  have hhead := h.head_eq
  have hall : ([t₁, t₂] ++ [c₁, c₂, c₃]).all isAscii = true := by
    rw [List.all_eq_true]
    intro c hc
    have hupper := isUpper_iff.mp (h.letters c hc)
    exact decide_eq_true (by omega)
  simp only [List.cons_append, List.nil_append] at hhead hall
  cases form with
  | parametric => simp [Address.ofParametric?, hhead, Form.mark, hall]
  | encapsulated => simp [Address.ofParametric?, hhead, Form.mark]

end Reading

section Bytes

variable {sentence : Text} {header : Header}

-- What stands where in the bytes of a sound sentence.
structure IsSoundAt (bytes : List UInt8) : Prop where
  mark : bytes[0]? = some '$'.toUInt8 ∨ bytes[0]? = some '!'.toUInt8
  letters : ∀ place, 1 ≤ place → place ≤ 5 →
    ∃ byte, bytes[place]? = some byte ∧ 'A'.toUInt8 ≤ byte ∧ byte ≤ 'Z'.toUInt8
  comma : bytes[6]? = some ','.toUInt8
  star : '*'.toUInt8 ∈ bytes.drop 7
  encapsulated : bytes[0]? = some '!'.toUInt8 →
    (bytes.drop 1).take 2 ∈ [['A', 'I'], ['A', 'B'], ['B', 'S']].map encode

-- A header by the bytes that it is read from.
structure IsHeaderOf (header : Header) (bytes : List UInt8) : Prop where
  form : bytes[0]? = some header.form.mark.toUInt8
  talker : encode header.address.talker = (bytes.drop 1).take 2
  code : encode header.address.code = (bytes.drop 3).take 3

theorem Spells.isAscii_head {rest : Text} (h : Spells header rest sentence) : IsAscii (head sentence) := by
  intro c hc
  rw [h.head_eq] at hc
  rcases List.mem_cons.mp hc with rfl | hc
  · cases header.form <;> decide
  · have hupper := isUpper_iff.mp (h.letters c hc)
    omega

-- Up to the comma a sound sentence has a byte for each character.
theorem Spells.encode_eq {rest : Text} (h : Spells header rest sentence) :
    encode sentence = (head sentence).map Char.toUInt8 ++ ','.toUInt8 :: encode rest := by
  have hcomma : encode (',' :: rest) = ','.toUInt8 :: encode rest := by simp [encode, encodeChar_of_ascii]
  rw [← encode_of_ascii h.isAscii_head, ← hcomma, ← encode_append, h.head_eq]
  exact congrArg encode h.whole

theorem toUInt8_of_isUpper {c : Char} (h : c.isUpper = true) :
    'A'.toUInt8 ≤ c.toUInt8 ∧ c.toUInt8 ≤ 'Z'.toUInt8 := by
  have hupper := isUpper_iff.mp h
  have hbyte : c.toUInt8.toNat = c.toNat := toNat_toUInt8 (by omega)
  rw [UInt8.le_iff_toNat_le, UInt8.le_iff_toNat_le, hbyte]
  exact hupper

theorem Spells.isSoundAt {rest : Text} (h : Spells header rest sentence) :
    IsSoundAt (encode sentence) ∧ IsHeaderOf header (encode sentence) := by
  obtain ⟨form, t₁, t₂, c₁, c₂, c₃, rfl⟩ := h.header_eq
  have hencode := h.encode_eq
  rw [h.head_eq] at hencode
  have hbyte : ∀ c ∈ [t₁, t₂, c₁, c₂, c₃], 'A'.toUInt8 ≤ c.toUInt8 ∧ c.toUInt8 ≤ 'Z'.toUInt8 :=
    fun c hc => toUInt8_of_isUpper (h.letters c hc)
  have hascii : IsAscii [t₁, t₂, c₁, c₂, c₃] := fun c hc => h.isAscii_head c (by rw [h.head_eq]; simp_all)
  have htalker : encode [t₁, t₂] = [t₁.toUInt8, t₂.toUInt8] :=
    encode_of_ascii fun c hc => hascii c (List.mem_append_left [c₁, c₂, c₃] hc)
  have hcode : encode [c₁, c₂, c₃] = [c₁.toUInt8, c₂.toUInt8, c₃.toUInt8] :=
    encode_of_ascii fun c hc => hascii c (List.mem_append_right [t₁, t₂] hc)
  rw [hencode]
  refine ⟨⟨?_, ?_, rfl, (mem_encode_iff (by decide)).mpr h.star, ?_⟩, rfl, htalker, hcode⟩
  · cases form
    · exact .inl rfl
    · exact .inr rfl
  · intro place hfirst hlast
    have hplace : place = 1 ∨ place = 2 ∨ place = 3 ∨ place = 4 ∨ place = 5 := by omega
    rcases hplace with rfl | rfl | rfl | rfl | rfl
    · exact ⟨t₁.toUInt8, rfl, hbyte t₁ (by simp)⟩
    · exact ⟨t₂.toUInt8, rfl, hbyte t₂ (by simp)⟩
    · exact ⟨c₁.toUInt8, rfl, hbyte c₁ (by simp)⟩
    · exact ⟨c₂.toUInt8, rfl, hbyte c₂ (by simp)⟩
    · exact ⟨c₃.toUInt8, rfl, hbyte c₃ (by simp)⟩
  · intro hmark
    have hallowed := h.allowed
    cases form with
    | parametric => exact absurd (Option.some.inj hmark) (show ('$'.toUInt8 ≠ '!'.toUInt8) by decide)
    | encapsulated =>
      simp only [Form.allows, isAisTalker, Bool.or_eq_true, decide_eq_true_eq, or_assoc] at hallowed
      have hais : [t₁, t₂] ∈ [['A', 'I'], ['A', 'B'], ['B', 'S']] := by simpa using hallowed
      have hmem := List.mem_map_of_mem (f := encode) hais
      rwa [htalker] at hmem

theorem eq_of_toUInt8 {c d : Char} (hc : c.toNat < 128) (hd : d.toNat < 128) (h : c.toUInt8 = d.toUInt8) :
    c = d := by
  have hvalue := congrArg UInt8.toNat h
  rw [toNat_toUInt8 hc, toNat_toUInt8 hd] at hvalue
  exact Char.toNat_inj.mp hvalue

theorem isUpper_of_toUInt8 {c : Char} (hc : c.toNat < 128) (hlow : 'A'.toUInt8 ≤ c.toUInt8)
    (hhigh : c.toUInt8 ≤ 'Z'.toUInt8) : c.isUpper = true := by
  rw [UInt8.le_iff_toNat_le, toNat_toUInt8 hc] at hlow hhigh
  exact isUpper_iff.mpr ⟨hlow, hhigh⟩

theorem IsSoundAt.ascii {bytes : List UInt8} (h : IsSoundAt bytes) :
    ∀ place < 7, ∃ byte, bytes[place]? = some byte ∧ byte.toNat < 128 := by
  intro place hplace
  have hplaces : place = 0 ∨ (1 ≤ place ∧ place ≤ 5) ∨ place = 6 := by omega
  rcases hplaces with rfl | ⟨hfirst, hlast⟩ | rfl
  · rcases h.mark with hmark | hmark
    · exact ⟨_, hmark, by decide⟩
    · exact ⟨_, hmark, by decide⟩
  · obtain ⟨byte, hbyte, -, hhigh⟩ := h.letters place hfirst hlast
    have hvalue : byte.toNat ≤ 90 := UInt8.le_iff_toNat_le.mp hhigh
    exact ⟨byte, hbyte, by omega⟩
  · exact ⟨_, h.comma, by decide⟩

theorem exists_spells (h : IsSoundAt (encode sentence)) : ∃ header rest, Spells header rest sentence := by
  obtain ⟨front, rest, rfl, hlength, hascii⟩ := exists_ascii_prefix h.ascii
  obtain ⟨mark, t₁, t₂, c₁, c₂, c₃, comma, rfl⟩ :
      ∃ mark t₁ t₂ c₁ c₂ c₃ comma, front = [mark, t₁, t₂, c₁, c₂, c₃, comma] := by
    rcases front with _ | ⟨_, _ | ⟨_, _ | ⟨_, _ | ⟨_, _ | ⟨_, _ | ⟨_, _ | ⟨_, _ | ⟨_, _⟩⟩⟩⟩⟩⟩⟩⟩ <;>
      simp at hlength ⊢
  have hencode : encode ([mark, t₁, t₂, c₁, c₂, c₃, comma] ++ rest) =
      [mark, t₁, t₂, c₁, c₂, c₃, comma].map Char.toUInt8 ++ encode rest := by
    rw [encode_append, encode_of_ascii hascii]
  rw [hencode] at h
  have hcomma : comma = ',' := eq_of_toUInt8 (hascii comma (by simp)) (by decide) (Option.some.inj h.comma)
  have hstar : '*' ∈ rest := (mem_encode_iff (by decide)).mp h.star
  have hupper : ∀ place c, 1 ≤ place → place ≤ 5 → [mark, t₁, t₂, c₁, c₂, c₃, comma][place]? = some c →
      c.isUpper = true := by
    intro place c hfirst hlast hc
    obtain ⟨byte, hbyte, hlow, hhigh⟩ := h.letters place hfirst hlast
    rw [List.getElem?_append_left (by simp; omega), List.getElem?_map, hc] at hbyte
    obtain rfl := Option.some.inj hbyte
    exact isUpper_of_toUInt8 (hascii c (List.mem_of_getElem? hc)) hlow hhigh
  have hletters : ∀ c ∈ [t₁, t₂] ++ [c₁, c₂, c₃], c.isUpper = true := by
    intro c hc
    simp only [List.cons_append, List.nil_append, List.mem_cons, List.not_mem_nil, or_false] at hc
    rcases hc with rfl | rfl | rfl | rfl | rfl
    · exact hupper 1 _ (by decide) (by decide) rfl
    · exact hupper 2 _ (by decide) (by decide) rfl
    · exact hupper 3 _ (by decide) (by decide) rfl
    · exact hupper 4 _ (by decide) (by decide) rfl
    · exact hupper 5 _ (by decide) (by decide) rfl
  subst hcomma
  rcases h.mark with hmark | hmark
  · obtain rfl : mark = '$' := eq_of_toUInt8 (hascii mark (by simp)) (by decide) (Option.some.inj hmark)
    exact ⟨⟨.parametric, [t₁, t₂], [c₁, c₂, c₃]⟩, rest, rfl, hstar, rfl, rfl, hletters, rfl⟩
  · obtain ⟨talker, htalker, heq⟩ := List.mem_map.mp (h.encapsulated hmark)
    obtain rfl : mark = '!' := eq_of_toUInt8 (hascii mark (by simp)) (by decide) (Option.some.inj hmark)
    have hbytes : encode [t₁, t₂] = [t₁.toUInt8, t₂.toUInt8] :=
      encode_of_ascii fun c hc => hascii c (List.mem_cons_of_mem _ (List.mem_append_left [c₁, c₂, c₃, ','] hc))
    obtain rfl : talker = [t₁, t₂] := encode_injective (heq.trans hbytes.symm)
    have hallowed : Form.encapsulated.allows [t₁, t₂] = true := by
      simpa [Form.allows, isAisTalker, or_assoc] using htalker
    exact ⟨⟨.encapsulated, [t₁, t₂], [c₁, c₂, c₃]⟩, rest, rfl, hstar, rfl, rfl, hletters, hallowed⟩

end Bytes

end VoyageLog.Sentence
