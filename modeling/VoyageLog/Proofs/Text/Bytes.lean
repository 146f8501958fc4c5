import VoyageLog.Proofs.Text.Utf8

namespace VoyageLog.Text

open Utf8

def byteLength (text : Text) : Nat := (encode text).length

def IsAscii (text : Text) : Prop := ∀ c ∈ text, c.toNat < 128

theorem all_ascii_iff {text : Text} : text.all (·.toNat < 128) = true ↔ IsAscii text := by
  simp [IsAscii]

instance (text : Text) : Decidable (IsAscii text) := decidable_of_iff _ all_ascii_iff

theorem isAscii_nil : IsAscii [] := by simp [IsAscii]

inductive MisplacedCut
  | withinCharacter
  | beyondEnd
deriving DecidableEq

-- The text before a place in bytes, and the text after it.
def cut : Nat → Text → Except MisplacedCut (Text × Text)
  | 0, text => .ok ([], text)
  | _ + 1, [] => .error .beyondEnd
  | place + 1, c :: rest =>
    if c.utf8Size ≤ place + 1 then
      (cut (place + 1 - c.utf8Size) rest).map fun (front, back) => (c :: front, back)
    else .error .withinCharacter

-- The text from one place in bytes to another.
def slice (first last : Nat) (text : Text) : Except MisplacedCut Text := do
  let (front, _) ← cut last text
  let (_, part) ← cut first front
  pure part

-- The first place in bytes at which a character stands.
def placeOf? (c : Char) : Text → Option Nat
  | [] => none
  | first :: rest => if first = c then some 0 else (placeOf? c rest).map (first.utf8Size + ·)

section Ascii

variable {c : Char} {text front back : Text} {byte : UInt8} {bytes : List UInt8} {place : Nat}

theorem encode_append (front back : Text) : encode (front ++ back) = encode front ++ encode back :=
  List.flatMap_append

theorem byteLength_cons (c : Char) (text : Text) : byteLength (c :: text) = c.utf8Size + byteLength text := by
  simp [byteLength, encode, String.length_utf8EncodeChar]

theorem utf8Size_of_ascii (hc : c.toNat < 128) : c.utf8Size = 1 := by
  rw [Char.utf8Size_eq_one_iff, UInt32.le_iff_toNat_le]
  exact Nat.le_of_lt_succ hc

theorem encodeChar_of_ascii (hc : c.toNat < 128) : String.utf8EncodeChar c = [c.toUInt8] :=
  String.utf8EncodeChar_eq_singleton (utf8Size_of_ascii hc)

theorem toNat_toUInt8 (hc : c.toNat < 128) : c.toUInt8.toNat = c.toNat := by
  change c.val.toUInt8.toNat = c.val.toNat
  have hval : c.val.toNat < 128 := hc
  rw [UInt32.toNat_toUInt8]
  omega

theorem byteLength_of_ascii (h : IsAscii text) : byteLength text = text.length := by
  induction text with
  | nil => rfl
  | cons c rest ih =>
    have hrest := ih fun other hother => h other (by simp [hother])
    rw [byteLength_cons, utf8Size_of_ascii (h c (by simp)), hrest, List.length_cons, Nat.add_comm]

theorem encode_of_ascii (h : IsAscii text) : encode text = text.map Char.toUInt8 := by
  induction text with
  | nil => rfl
  | cons c rest ih =>
    have hrest := ih fun other hother => h other (by simp [hother])
    have hcons : encode (c :: rest) = String.utf8EncodeChar c ++ encode rest := by simp [encode]
    rw [hcons, encodeChar_of_ascii (h c (by simp)), hrest, List.map_cons, List.singleton_append]

-- A character that is one byte is found where its byte is.
theorem mem_encode_iff (hc : c.toNat < 128) : c.toUInt8 ∈ encode text ↔ c ∈ text := by
  constructor
  · intro hmem
    obtain ⟨other, hother, hbyte⟩ := List.mem_flatMap.mp hmem
    have hvalue := toNat_of_mem_encodeChar hbyte (by rw [toNat_toUInt8 hc]; exact hc)
    rw [toNat_toUInt8 hc] at hvalue
    rwa [← Char.toNat_inj.mp hvalue]
  · intro hmem
    refine List.mem_flatMap.mpr ⟨c, hmem, ?_⟩
    rw [encodeChar_of_ascii hc]
    exact List.mem_singleton.mpr rfl

-- Text begins with a character among the first 128 if its bytes begin with one.
theorem exists_of_encode_cons (h : encode text = byte :: bytes) (hbyte : byte.toNat < 128) :
    ∃ c rest, text = c :: rest ∧ c.toNat = byte.toNat ∧ encode rest = bytes := by
  cases text with
  | nil => cases h
  | cons c rest =>
    have hcons : encode (c :: rest) = String.utf8EncodeChar c ++ encode rest := by simp [encode]
    rw [hcons] at h
    obtain ⟨first, later, hfirst⟩ := List.exists_cons_of_ne_nil (String.utf8EncodeChar_ne_nil (c := c))
    rw [hfirst, List.cons_append, List.cons.injEq] at h
    have hvalue : c.toNat = byte.toNat := toNat_of_mem_encodeChar (by simp [hfirst, h.1]) hbyte
    rw [encodeChar_of_ascii (by omega)] at hfirst
    obtain ⟨-, rfl⟩ := List.cons.inj hfirst
    exact ⟨c, rest, rfl, hvalue, h.2⟩

-- As many characters as there are bytes among the first 128 in front.
theorem exists_ascii_prefix {count : Nat}
    (h : ∀ place < count, ∃ byte, (encode text)[place]? = some byte ∧ byte.toNat < 128) :
    ∃ front back, text = front ++ back ∧ front.length = count ∧ IsAscii front := by
  induction count generalizing text with
  | zero => exact ⟨[], text, rfl, rfl, by simp [IsAscii]⟩
  | succ count ih =>
    obtain ⟨first, hfirst, hlow⟩ := h 0 (by omega)
    obtain ⟨later, hbytes⟩ := List.head?_eq_some_iff.mp (by rwa [List.head?_eq_getElem?])
    obtain ⟨c, rest, rfl, hvalue, hrest⟩ := exists_of_encode_cons hbytes hlow
    have hnext : ∀ place < count, ∃ byte, (encode rest)[place]? = some byte ∧ byte.toNat < 128 := by
      intro place hplace
      have hlater := h (place + 1) (by omega)
      rwa [hbytes, List.getElem?_cons_succ, ← hrest] at hlater
    obtain ⟨front, back, rfl, rfl, hascii⟩ := ih hnext
    refine ⟨c :: front, back, rfl, rfl, fun other hother => ?_⟩
    rcases List.mem_cons.mp hother with rfl | hother
    · omega
    · exact hascii other hother

end Ascii

section Cutting

variable {text front back : Text} {place first last : Nat}

theorem byteLength_eq_zero_iff : byteLength text = 0 ↔ text = [] := by
  cases text with
  | nil => simp [byteLength, encode]
  | cons c rest =>
    have hpos := c.utf8Size_pos
    rw [byteLength_cons]
    simp only [reduceCtorEq, iff_false]
    omega

theorem cut_zero_eq_ok_iff : cut 0 text = .ok (front, back) ↔ text = front ++ back ∧ byteLength front = 0 := by
  have hcut : cut 0 text = .ok ([], text) := by cases text <;> simp [cut]
  rw [hcut, byteLength_eq_zero_iff]
  constructor
  · rintro ⟨⟩
    exact ⟨rfl, rfl⟩
  · rintro ⟨rfl, rfl⟩
    rfl

theorem cut_cons_eq_ok_iff {c : Char} {rest : Text} :
    cut (place + 1) (c :: rest) = .ok (front, back) ↔ ∃ later, front = c :: later ∧ c.utf8Size ≤ place + 1 ∧
      cut (place + 1 - c.utf8Size) rest = .ok (later, back) := by
  by_cases hfits : c.utf8Size ≤ place + 1
  · simp only [cut, if_pos hfits]
    cases cut (place + 1 - c.utf8Size) rest with
    | error => simp [Except.map]
    | ok parts =>
      obtain ⟨later, after⟩ := parts
      simp only [Except.map, Except.ok.injEq, Prod.mk.injEq]
      constructor
      · rintro ⟨rfl, rfl⟩
        exact ⟨later, rfl, hfits, rfl, rfl⟩
      · rintro ⟨_, rfl, -, rfl, rfl⟩
        exact ⟨rfl, rfl⟩
  · simp [cut, hfits]

-- A cut succeeds between two characters, and nowhere else.
theorem cut_eq_ok_iff : cut place text = .ok (front, back) ↔ text = front ++ back ∧ byteLength front = place := by
  induction text generalizing place front with
  | nil =>
    cases place with
    | zero => exact cut_zero_eq_ok_iff
    | succ place =>
      simp only [cut, reduceCtorEq, false_iff, List.nil_eq, List.append_eq_nil_iff, not_and]
      rintro ⟨rfl, -⟩
      simp [byteLength, encode]
  | cons c rest ih =>
    cases place with
    | zero => exact cut_zero_eq_ok_iff
    | succ place =>
      simp only [cut_cons_eq_ok_iff, ih]
      constructor
      · rintro ⟨later, rfl, hfits, rfl, hlength⟩
        refine ⟨rfl, ?_⟩
        rw [byteLength_cons]
        omega
      · rintro ⟨hsplit, hlength⟩
        cases front with
        | nil => simp [byteLength, encode] at hlength
        | cons first later =>
          rw [List.cons_append, List.cons.injEq] at hsplit
          obtain ⟨rfl, rfl⟩ := hsplit
          rw [byteLength_cons] at hlength
          exact ⟨later, rfl, by omega, rfl, by omega⟩

theorem cut_of_ascii (h : IsAscii text) (hplace : place ≤ text.length) :
    cut place text = .ok (text.take place, text.drop place) := by
  have hfront : IsAscii (text.take place) := fun c hc => h c (List.mem_of_mem_take hc)
  rw [cut_eq_ok_iff, byteLength_of_ascii hfront, List.length_take]
  exact ⟨(List.take_append_drop place text).symm, Nat.min_eq_left hplace⟩

theorem slice_of_ascii (h : IsAscii text) (hfirst : first ≤ last) (hlast : last ≤ text.length) :
    slice first last text = .ok ((text.take last).drop first) := by
  have hfront : IsAscii (text.take last) := fun c hc => h c (List.mem_of_mem_take hc)
  have hplace : first ≤ (text.take last).length := by
    rw [List.length_take]
    omega
  simp only [slice, cut_of_ascii h hlast, cut_of_ascii hfront hplace, bind, Except.bind, pure, Except.pure]

end Cutting

section Places

variable {c : Char} {front back text : Text}

theorem placeOf?_append (hfront : c ∉ front) :
    placeOf? c (front ++ back) = (placeOf? c back).map (byteLength front + ·) := by
  induction front with
  | nil => simp [byteLength, encode]
  | cons first rest ih =>
    simp only [List.mem_cons, not_or] at hfront
    rw [List.cons_append, placeOf?, if_neg (Ne.symm hfront.1), ih hfront.2, Option.map_map, byteLength_cons]
    congr 1
    funext place
    exact (Nat.add_assoc _ _ _).symm

theorem placeOf?_isSome : (placeOf? c text).isSome = text.contains c := by
  induction text with
  | nil => rfl
  | cons first rest ih =>
    by_cases hfirst : first = c
    · simp [placeOf?, hfirst]
    · simp [placeOf?, hfirst, ih, Ne.symm hfirst]

end Places

end VoyageLog.Text
