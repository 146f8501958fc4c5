import VoyageLog.Proofs.Sentence.Header
import VoyageLog.TimeSource.Listener

namespace VoyageLog.Sentence

open Text Text.Utf8

section Places

variable {sentence : Text}

def Form.ofByte? (byte : UInt8) : Option Form :=
  if byte = '$'.toUInt8 then some .parametric else if byte = '!'.toUInt8 then some .encapsulated else none

-- The reading that goes by places in bytes: the head must have six of them, is cut at the first, the third and the
-- sixth, and its end is found by two searches, for a comma and for a star.
def Header.readByPlaces (sentence : Text) : Except MisplacedCut (Option Header) :=
  match (encode sentence).head?.bind Form.ofByte? with
  | none => pure none
  | some form =>
    if byteLength (head sentence) = 6 ∧ (head sentence).all isAscii then do
      let talker ← slice 1 3 (head sentence)
      let code ← slice 3 6 (head sentence)
      match placeOf? ',' sentence, placeOf? '*' sentence with
      | some comma, some star =>
        pure (if (talker ++ code).all Char.isUpper ∧ form.allows talker ∧ comma ≤ star then
          some ⟨form, talker, code⟩ else none)
      | _, _ => pure none
    else pure none

def Address.ofParametricByPlaces (sentence : Text) : Except MisplacedCut (Option Address) :=
  if (head sentence).head? = some '$' ∧ byteLength (head sentence) = 6 ∧ (head sentence).all isAscii then do
    let talker ← slice 1 3 (head sentence)
    let code ← slice 3 6 (head sentence)
    pure (some ⟨talker, code⟩)
  else pure none

-- A first byte that is a mark is a first character that is one.
theorem ofByte?_head (sentence : Text) :
    (encode sentence).head?.bind Form.ofByte? = sentence.head?.bind Form.ofMark? := by
  cases sentence with
  | nil => rfl
  | cons c rest =>
    have hcons : encode (c :: rest) = String.utf8EncodeChar c ++ encode rest := by simp [encode]
    have hmark : ∀ mark : Char, mark.toNat < 128 → (String.utf8EncodeChar c).head? = some mark.toUInt8 → c = mark := by
      intro mark hmark hhead
      have hvalue := toNat_of_mem_encodeChar (List.mem_of_head? hhead) (by rwa [toNat_toUInt8 hmark])
      rw [toNat_toUInt8 hmark] at hvalue
      exact Char.toNat_inj.mp hvalue
    obtain ⟨byte, later, hbytes⟩ := List.exists_cons_of_ne_nil (String.utf8EncodeChar_ne_nil (c := c))
    rw [hbytes, List.head?_cons] at hmark
    rw [hcons, hbytes, List.cons_append, List.head?_cons, List.head?_cons, Option.bind_some, Option.bind_some,
      Form.ofByte?, Form.ofMark?]
    have hback : ∀ mark : Char, mark.toNat < 128 → (byte = mark.toUInt8 ↔ c = mark) := by
      intro mark hascii
      refine ⟨fun h => hmark mark hascii (congrArg some h), ?_⟩
      rintro rfl
      rw [encodeChar_of_ascii hascii] at hbytes
      exact (List.cons.inj hbytes).1.symm
    simp only [hback '$' (by decide), hback '!' (by decide)]

-- Six bytes of ASCII are six characters, and every cut falls between two of them.
theorem slices_of_six {text : Text} (hlength : byteLength text = 6) (hascii : text.all isAscii = true) :
    ∃ mark t₁ t₂ c₁ c₂ c₃, text = [mark, t₁, t₂, c₁, c₂, c₃] ∧ slice 1 3 text = .ok [t₁, t₂] ∧
      slice 3 6 text = .ok [c₁, c₂, c₃] := by
  have hplain : IsAscii text := fun c hc => of_decide_eq_true (List.all_eq_true.mp hascii c hc)
  rw [byteLength_of_ascii hplain] at hlength
  rw [slice_of_ascii hplain (by decide) (by omega), slice_of_ascii hplain (by decide) (by omega)]
  rcases text with _ | ⟨mark, _ | ⟨t₁, _ | ⟨t₂, _ | ⟨c₁, _ | ⟨c₂, _ | ⟨c₃, _ | ⟨_, _⟩⟩⟩⟩⟩⟩⟩ <;>
    simp at hlength ⊢

theorem not_mem_head {mark : Char} (hmark : isDelimiter mark = true) : mark ∉ head sentence := by
  intro hmem
  have hplain := List.all_eq_true.mp List.all_takeWhile mark hmem
  simp [hmark] at hplain

-- The comma comes first exactly if the head ends at it and a star stands behind it.
theorem searches_iff (sentence : Text) :
    (∃ comma star, placeOf? ',' sentence = some comma ∧ placeOf? '*' sentence = some star ∧ comma ≤ star) ↔
      hasChecksumMark sentence = true := by
  have hsplit := head_append_tail sentence
  have hcomma : placeOf? ',' sentence =
      (placeOf? ',' (sentence.dropWhile (!isDelimiter ·))).map (byteLength (head sentence) + ·) := by
    rw [← placeOf?_append (not_mem_head rfl), hsplit]
  have hstar : placeOf? '*' sentence =
      (placeOf? '*' (sentence.dropWhile (!isDelimiter ·))).map (byteLength (head sentence) + ·) := by
    rw [← placeOf?_append (not_mem_head rfl), hsplit]
  rw [hcomma, hstar]
  cases htail : sentence.dropWhile (!isDelimiter ·) with
  | nil => simp [hasChecksumMark, htail, placeOf?]
  | cons first rest =>
    have hfirst : isDelimiter first = true := by
      have hhead := List.head?_dropWhile_not (!isDelimiter ·) sentence
      simpa [htail] using hhead
    have hcases : first = ',' ∨ first = '*' := by simpa [isDelimiter] using hfirst
    rcases hcases with rfl | rfl
    · have hmark : hasChecksumMark sentence = (placeOf? '*' rest).isSome := by
        simp [hasChecksumMark, htail, placeOf?_isSome]
      rw [hmark]
      cases hplace : placeOf? '*' rest with
      | none => simp [placeOf?, hplace]
      | some place => simp [placeOf?, hplace]
    · have hmark : hasChecksumMark sentence = false := by simp [hasChecksumMark, htail]
      rw [hmark]
      cases hplace : placeOf? ',' rest with
      | none => simp [placeOf?, hplace]
      | some place =>
        have hpos := '*'.utf8Size_pos
        simp only [placeOf?, hplace]
        simp
        omega

-- What both searches decide is whether the sentence has its mark.
theorem searches_eq (sentence : Text) (letters allowed : Prop) [Decidable letters] [Decidable allowed]
    (header : Header) :
    (match placeOf? ',' sentence, placeOf? '*' sentence with
      | some comma, some star => pure (if letters ∧ allowed ∧ comma ≤ star then some header else none)
      | _, _ => pure none : Except MisplacedCut (Option Header)) =
      .ok (if letters ∧ allowed ∧ hasChecksumMark sentence = true then some header else none) := by
  have hsearches := searches_iff sentence
  cases hcomma : placeOf? ',' sentence with
  | none =>
    have hno : ¬hasChecksumMark sentence = true := by
      rw [← hsearches]
      simp [hcomma]
    rw [if_neg fun hsound => hno hsound.2.2]
    rfl
  | some comma =>
    cases hstar : placeOf? '*' sentence with
    | none =>
      have hno : ¬hasChecksumMark sentence = true := by
        rw [← hsearches]
        simp [hstar]
      rw [if_neg fun hsound => hno hsound.2.2]
      rfl
    | some star =>
      have hyes : hasChecksumMark sentence = true ↔ comma ≤ star := by
        rw [← hsearches]
        simp [hcomma, hstar]
      simp only [hyes]
      rfl

-- Whatever a head of six characters is read as, they are ASCII.
theorem six_of_ascii {text : Text} (hlength : text.length = 6) (hascii : IsAscii text) :
    byteLength text = 6 ∧ text.all isAscii = true :=
  ⟨(byteLength_of_ascii hascii).trans hlength, List.all_eq_true.mpr fun c hc => decide_eq_true (hascii c hc)⟩

theorem Address.ofParametricByPlaces_eq (sentence : Text) :
    Address.ofParametricByPlaces sentence = .ok (Address.ofParametric? sentence) := by
  unfold Address.ofParametricByPlaces
  split
  · rename_i hguard
    obtain ⟨hdollar, hlength, hascii⟩ := hguard
    obtain ⟨mark, t₁, t₂, c₁, c₂, c₃, hhead, htalker, hcode⟩ := slices_of_six hlength hascii
    rw [htalker, hcode]
    rw [hhead] at hdollar hascii
    obtain rfl := Option.some.inj hdollar
    have hall : [t₁, t₂, c₁, c₂, c₃].all isAscii = true := (Bool.and_eq_true_iff.mp hascii).2
    simp only [Address.ofParametric?, hhead, hall, if_true]
    rfl
  · rename_i hguard
    have hnone : Address.ofParametric? sentence = none := by
      unfold Address.ofParametric?
      split
      · rename_i t₁ t₂ c₁ c₂ c₃ hhead
        refine if_neg fun hall => hguard ?_
        rw [hhead]
        refine ⟨rfl, six_of_ascii rfl fun c hc => ?_⟩
        rcases List.mem_cons.mp hc with rfl | hc
        · decide
        · exact of_decide_eq_true (List.all_eq_true.mp hall c hc)
      · rfl
    rw [hnone]
    rfl

theorem head?_of_head {mark : Char} {rest : Text} (h : head sentence = mark :: rest) :
    sentence.head? = some mark := by
  rw [← head_append_tail sentence, h]
  rfl

-- What is read at all has six characters of ASCII in its head, of which the first is a mark.
theorem six_of_read {header : Header} (h : Header.read? sentence = some header) :
    sentence.head?.bind Form.ofMark? = some header.form ∧ byteLength (head sentence) = 6 ∧
      (head sentence).all isAscii = true := by
  obtain ⟨rest, hspells⟩ := read?_eq_some_iff.mp h
  have hlength : (head sentence).length = 6 := by
    rw [hspells.head_eq, List.length_cons, List.length_append, hspells.two, hspells.three]
  refine ⟨?_, six_of_ascii hlength hspells.isAscii_head⟩
  rw [head?_of_head hspells.head_eq]
  exact ofMark?_eq_some_iff.mpr rfl

theorem Header.readByPlaces_eq (sentence : Text) :
    Header.readByPlaces sentence = .ok (Header.read? sentence) := by
  unfold Header.readByPlaces
  rw [ofByte?_head]
  cases hform : sentence.head?.bind Form.ofMark? with
  | none =>
    have hnone : Header.read? sentence = none := by
      refine Option.eq_none_iff_forall_ne_some.mpr fun header h => ?_
      have hsome := (six_of_read h).1
      rw [hform] at hsome
      cases hsome
    rw [hnone]
    rfl
  | some form =>
    by_cases hguard : byteLength (head sentence) = 6 ∧ (head sentence).all isAscii
    · obtain ⟨mark, t₁, t₂, c₁, c₂, c₃, hhead, htalker, hcode⟩ := slices_of_six hguard.1 hguard.2
      rw [head?_of_head hhead, Option.bind_some] at hform
      have hsound : Header.read? sentence =
          if [t₁, t₂, c₁, c₂, c₃].all Char.isUpper = true ∧ form.allows [t₁, t₂] = true ∧
              hasChecksumMark sentence = true then
            some ⟨form, [t₁, t₂], [c₁, c₂, c₃]⟩
          else none := by
        simp [Header.read?, hhead, hform, and_assoc]
      simp only [if_pos hguard, htalker, hcode, hsound]
      exact searches_eq sentence _ _ _
    · have hnone : Header.read? sentence = none :=
        Option.eq_none_iff_forall_ne_some.mpr fun header h => hguard (six_of_read h).2
      simp only [if_neg hguard, hnone]
      rfl

end Places

-- A header is read exactly of the sentences that are sound byte by byte, and it is the one that their bytes spell.
-- Their address is made out from parametric sentences only, so that a listener hears nothing in the others. No cut
-- is ever misplaced, whatever the text.
theorem reads_exactly_sound (sentence : Text) :
    ((Header.read? sentence).isSome = true ↔ IsSoundAt (encode sentence)) ∧
      (∀ header, Header.read? sentence = some header → IsHeaderOf header (encode sentence) ∧
        Address.ofParametric? sentence = (if header.form = .parametric then some header.address else none) ∧
        (header.form = .encapsulated → ∀ listener : TimeSource.Listener,
          listener.hear sentence = (none, listener))) ∧
      Header.readByPlaces sentence = .ok (Header.read? sentence) ∧
      Address.ofParametricByPlaces sentence = .ok (Address.ofParametric? sentence) := by
  refine ⟨?_, ?_, Header.readByPlaces_eq sentence, Address.ofParametricByPlaces_eq sentence⟩
  · rw [Option.isSome_iff_exists]
    constructor
    · rintro ⟨header, h⟩
      obtain ⟨rest, hspells⟩ := read?_eq_some_iff.mp h
      exact hspells.isSoundAt.1
    · intro h
      obtain ⟨header, hspells⟩ := exists_spells h
      exact ⟨header, read?_eq_some_iff.mpr hspells⟩
  · intro header h
    obtain ⟨rest, hspells⟩ := read?_eq_some_iff.mp h
    have haddress := hspells.ofParametric?_eq
    refine ⟨hspells.isSoundAt.2, haddress, fun hform listener => ?_⟩
    rw [if_neg (by simp [hform])] at haddress
    simp [TimeSource.Listener.hear, haddress]

-- A star behind a letter that is two bytes, and a vessel that reports its position.
theorem reads_sound_of_two_sentences :
    IsSoundAt (encode "$GPGLL,é*".toList) ∧
      Address.ofParametric? "$GPGLL,é*".toList = some ⟨['G', 'P'], ['G', 'L', 'L']⟩ ∧
      IsHeaderOf ⟨.encapsulated, ['A', 'I'], ['V', 'D', 'M']⟩ (encode "!AIVDM,1,*26".toList) ∧
      TimeSource.Listener.fresh.hear "!AIVDM,1,*26".toList = (none, TimeSource.Listener.fresh) := by
  have hposition : Header.read? "$GPGLL,é*".toList = some ⟨.parametric, ['G', 'P'], ['G', 'L', 'L']⟩ := by
    decide +kernel
  have hvessel : Header.read? "!AIVDM,1,*26".toList = some ⟨.encapsulated, ['A', 'I'], ['V', 'D', 'M']⟩ := by
    decide +kernel
  obtain ⟨hsound, hofPosition, -⟩ := reads_exactly_sound "$GPGLL,é*".toList
  obtain ⟨-, hofVessel, -⟩ := reads_exactly_sound "!AIVDM,1,*26".toList
  exact ⟨hsound.mp (Option.isSome_of_eq_some hposition), (hofPosition _ hposition).2.1, (hofVessel _ hvessel).1,
    (hofVessel _ hvessel).2.2 rfl _⟩

end VoyageLog.Sentence
