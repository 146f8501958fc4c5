import Mathlib.Algebra.Ring.Nat
import Mathlib.Data.List.Basic
import VoyageLog.Text.Utf8

namespace VoyageLog.Text.Utf8

section Starting

variable (byte : UInt8)

-- The bounds of the byte after a first byte of three or four.
def lowestAfter (first : Nat) : UInt8 := if first = 0xE0 then 0xA0 else if first = 0xF0 then 0x90 else 0x80

def highestAfter (first : Nat) : UInt8 := if first = 0xED then 0x9F else if first = 0xF4 then 0x8F else 0xBF

theorem lowestAfter_ge (first : Nat) : 0x80 ≤ (lowestAfter first).toNat := by
  unfold lowestAfter
  split
  · decide
  · split <;> decide

theorem lt_iff_toNat (left right : UInt8) : left < right ↔ left.toNat < right.toNat := UInt8.lt_iff_toNat_lt

theorem eq_iff_toNat (left right : UInt8) : left = right ↔ left.toNat = right.toNat :=
  UInt8.toNat_inj.symm

theorem start_of_one (h : byte.toNat < 0x80) : start byte = ([Char.ofNat byte.toNat], .between) := by
  have hone : byte < 0x80 := UInt8.lt_iff_toNat_lt.mpr h
  simp only [start, hone, if_true]

theorem start_of_stray (hlow : 0x80 ≤ byte.toNat) (h : byte.toNat < 0xC2 ∨ 0xF4 < byte.toNat) :
    start byte = ([replacement], .between) := by
  have hone : ¬byte.toNat < 128 := by omega
  rcases h with h | h
  · simp [start, lt_iff_toNat, hone, h]
  · have hstray : ¬byte.toNat < 194 := by omega
    have htwo : ¬byte.toNat < 224 := by omega
    have hthree : ¬byte.toNat < 240 := by omega
    have hfour : ¬byte.toNat < 244 := by omega
    have hends : byte.toNat ≠ 224 ∧ byte.toNat ≠ 237 ∧ byte.toNat ≠ 240 ∧ byte.toNat ≠ 244 := by omega
    simp [start, lt_iff_toNat, eq_iff_toNat, hone, hstray, htwo, hthree, hfour, hends]

theorem start_of_two (hlow : 0xC2 ≤ byte.toNat) (hhigh : byte.toNat < 0xE0) :
    start byte = ([], .within ⟨byte.toNat - 0xC0, 0x80, 0xBF, 0⟩) := by
  have hone : ¬byte.toNat < 128 := by omega
  have hstray : ¬byte.toNat < 194 := by omega
  simp [start, lt_iff_toNat, hone, hstray, hhigh]

theorem start_of_three (hlow : 0xE0 ≤ byte.toNat) (hhigh : byte.toNat < 0xF0) :
    start byte = ([], .within
      ⟨byte.toNat - 0xE0, lowestAfter byte.toNat, highestAfter byte.toNat, 1⟩) := by
  have hone : ¬byte.toNat < 128 := by omega
  have hstray : ¬byte.toNat < 194 := by omega
  have htwo : ¬byte.toNat < 224 := by omega
  have hfour : byte.toNat ≠ 240 ∧ byte.toNat ≠ 244 := by omega
  simp only [start, lt_iff_toNat, eq_iff_toNat, UInt8.reduceToNat, hone, hstray, htwo, hhigh, if_false, if_true,
    lowestAfter, highestAfter, hfour]
  by_cases hfirst : byte.toNat = 224
  · simp [hfirst]
  · by_cases hlast : byte.toNat = 237 <;> simp [hfirst, hlast]

theorem start_of_four (hlow : 0xF0 ≤ byte.toNat) (hhigh : byte.toNat ≤ 0xF4) :
    start byte = ([], .within
      ⟨byte.toNat - 0xF0, lowestAfter byte.toNat, highestAfter byte.toNat, 2⟩) := by
  have hone : ¬byte.toNat < 128 := by omega
  have hstray : ¬byte.toNat < 194 := by omega
  have htwo : ¬byte.toNat < 224 := by omega
  have hthree : ¬byte.toNat < 240 := by omega
  have hends : byte.toNat ≠ 224 ∧ byte.toNat ≠ 237 := by omega
  simp only [start, lt_iff_toNat, eq_iff_toNat, UInt8.reduceToNat, hone, hstray, htwo, hthree, if_false,
    lowestAfter, highestAfter, hends]
  by_cases hfirst : byte.toNat = 240
  · simp [hfirst]
  · by_cases hlast : byte.toNat = 244
    · simp [hlast]
    · have hmiddle : byte.toNat < 244 := by omega
      simp [hfirst, hlast, hmiddle]

end Starting

section Following

variable {value more : Nat} {lowest highest byte : UInt8} (rest : List UInt8)

theorem decodeFrom_cons (progress : Progress) (byte : UInt8) :
    decodeFrom progress (byte :: rest) = (step progress byte).1 ++ decodeFrom (step progress byte).2 rest := by
  cases progress <;> rfl

theorem decodeFrom_last (hlow : lowest ≤ byte) (hhigh : byte ≤ highest) :
    decodeFrom (.within ⟨value, lowest, highest, 0⟩) (byte :: rest) =
      Char.ofNat (value * 64 + (byte.toNat - 0x80)) :: decodeFrom .between rest := by
  simp [decodeFrom_cons, step, hlow, hhigh]

theorem decodeFrom_next (hlow : lowest ≤ byte) (hhigh : byte ≤ highest) :
    decodeFrom (.within ⟨value, lowest, highest, more + 1⟩) (byte :: rest) =
      decodeFrom (.within ⟨value * 64 + (byte.toNat - 0x80), 0x80, 0xBF, more⟩) rest := by
  simp [decodeFrom_cons, step, hlow, hhigh]

end Following

theorem toNat_ofNat_of_lt {n : Nat} (h : n < 256) : (UInt8.ofNat n).toNat = n := by
  simp only [UInt8.toNat_ofNat', Nat.reducePow]
  omega

theorem isTail (n : Nat) : 0x80 ≤ UInt8.ofNat (n % 64 + 128) ∧ UInt8.ofNat (n % 64 + 128) ≤ 0xBF := by
  have hbyte : n % 64 + 128 < 256 := by omega
  rw [UInt8.le_iff_toNat_le, UInt8.le_iff_toNat_le, toNat_ofNat_of_lt hbyte]
  exact ⟨by simp, by simp only [UInt8.reduceToNat]; omega⟩

-- What a later byte of a character adds to its value.
theorem value_of_tail (n value : Nat) :
    value * 64 + ((UInt8.ofNat (n % 64 + 128)).toNat - 0x80) = value * 64 + n % 64 := by
  rw [toNat_ofNat_of_lt (by omega)]
  omega

-- A second byte that keeps to the bounds of the first one.
theorem isSecond {first second : Nat} (hlow : 0x80 ≤ second) (hhigh : second ≤ 0xBF)
    (hthree : first = 0xE0 → 0xA0 ≤ second) (hfour : first = 0xF0 → 0x90 ≤ second)
    (hsurrogate : first = 0xED → second ≤ 0x9F) (hlast : first = 0xF4 → second ≤ 0x8F) :
    lowestAfter first ≤ UInt8.ofNat second ∧ UInt8.ofNat second ≤ highestAfter first := by
  rw [UInt8.le_iff_toNat_le, UInt8.le_iff_toNat_le, toNat_ofNat_of_lt (by omega), lowestAfter, highestAfter]
  constructor
  · split
    · exact hthree ‹_›
    · split
      · exact hfour ‹_›
      · exact hlow
  · split
    · exact hsurrogate ‹_›
    · split
      · exact hlast ‹_›
      · exact hhigh

section Characters

variable {n : Nat} (rest : List UInt8)

theorem decodeFrom_two (hlow : 0x80 ≤ n) (hhigh : n < 0x800) :
    decodeFrom .between (UInt8.ofNat (n / 64 % 32 + 192) :: UInt8.ofNat (n % 64 + 128) :: rest) =
      Char.ofNat n :: decodeFrom .between rest := by
  have hfirst : (UInt8.ofNat (n / 64 % 32 + 192)).toNat = n / 64 + 192 := by
    rw [toNat_ofNat_of_lt (by omega)]
    omega
  have hstart := start_of_two (UInt8.ofNat (n / 64 % 32 + 192)) (by omega) (by omega)
  obtain ⟨htailLow, htailHigh⟩ := isTail n
  have hvalue : (n / 64 + 192 - 0xC0) * 64 + n % 64 = n := by omega
  rw [decodeFrom_cons, step, hstart, List.nil_append, decodeFrom_last rest htailLow htailHigh,
    value_of_tail, hfirst, hvalue]

-- The byte after a first byte of three keeps out what would fit in two, and the surrogates.
theorem decodeFrom_three (hlow : 0x800 ≤ n) (hhigh : n < 0x10000) (hvalid : n < 0xD800 ∨ 0xDFFF < n) :
    decodeFrom .between (UInt8.ofNat (n / 4096 % 16 + 224) :: UInt8.ofNat (n / 64 % 64 + 128) ::
      UInt8.ofNat (n % 64 + 128) :: rest) = Char.ofNat n :: decodeFrom .between rest := by
  have hfirst : (UInt8.ofNat (n / 4096 % 16 + 224)).toNat = n / 4096 + 224 := by
    rw [toNat_ofNat_of_lt (by omega)]
    omega
  have hstart := start_of_three (UInt8.ofNat (n / 4096 % 16 + 224)) (by omega) (by omega)
  have hbounds : lowestAfter (n / 4096 + 224) ≤ UInt8.ofNat (n / 64 % 64 + 128) ∧
      UInt8.ofNat (n / 64 % 64 + 128) ≤ highestAfter (n / 4096 + 224) := by
    apply isSecond <;> omega
  obtain ⟨htailLow, htailHigh⟩ := isTail n
  have hvalue : ((n / 4096 + 224 - 0xE0) * 64 + n / 64 % 64) * 64 + n % 64 = n := by omega
  rw [decodeFrom_cons, step, hstart, List.nil_append, hfirst,
    decodeFrom_next _ hbounds.1 hbounds.2, decodeFrom_last rest htailLow htailHigh,
    value_of_tail, value_of_tail, hvalue]

theorem decodeFrom_four (hlow : 0x10000 ≤ n) (hhigh : n < 0x110000) :
    decodeFrom .between (UInt8.ofNat (n / 262144 % 8 + 240) :: UInt8.ofNat (n / 4096 % 64 + 128) ::
      UInt8.ofNat (n / 64 % 64 + 128) :: UInt8.ofNat (n % 64 + 128) :: rest) =
      Char.ofNat n :: decodeFrom .between rest := by
  have hfirst : (UInt8.ofNat (n / 262144 % 8 + 240)).toNat = n / 262144 + 240 := by
    rw [toNat_ofNat_of_lt (by omega)]
    omega
  have hstart := start_of_four (UInt8.ofNat (n / 262144 % 8 + 240)) (by omega) (by omega)
  have hbounds : lowestAfter (n / 262144 + 240) ≤ UInt8.ofNat (n / 4096 % 64 + 128) ∧
      UInt8.ofNat (n / 4096 % 64 + 128) ≤ highestAfter (n / 262144 + 240) := by
    apply isSecond <;> omega
  obtain ⟨hthirdLow, hthirdHigh⟩ := isTail (n / 64)
  obtain ⟨htailLow, htailHigh⟩ := isTail n
  have hvalue : (((n / 262144 + 240 - 0xF0) * 64 + n / 4096 % 64) * 64 + n / 64 % 64) * 64 + n % 64 = n := by
    omega
  rw [decodeFrom_cons, step, hstart, List.nil_append, hfirst,
    decodeFrom_next _ hbounds.1 hbounds.2, decodeFrom_next _ hthirdLow hthirdHigh,
    decodeFrom_last rest htailLow htailHigh, value_of_tail, value_of_tail, value_of_tail, hvalue]

end Characters

-- A character that is encoded comes back, whatever follows it.
theorem decodeFrom_encodeChar (c : Char) (rest : List UInt8) :
    decodeFrom .between (String.utf8EncodeChar c ++ rest) = c :: decodeFrom .between rest := by
  have hvalid : c.toNat < 0xD800 ∨ 0xDFFF < c.toNat ∧ c.toNat < 0x110000 := c.valid
  have hback : Char.ofNat c.toNat = c := Char.ofNat_toNat c
  unfold String.utf8EncodeChar
  simp only [show c.val.toNat = c.toNat from rfl]
  generalize c.toNat = n at hvalid hback
  rw [← hback]
  by_cases hone : n ≤ 127
  · have hbyte : (UInt8.ofNat n).toNat = n := toNat_ofNat_of_lt (by omega)
    have hstart := start_of_one (UInt8.ofNat n) (by omega)
    rw [if_pos hone, List.singleton_append, decodeFrom_cons, step, hstart, hbyte]
    rfl
  · by_cases htwo : n ≤ 2047
    · rw [if_neg hone, if_pos htwo]
      exact decodeFrom_two rest (by omega) (by omega)
    · by_cases hthree : n ≤ 65535
      · rw [if_neg hone, if_neg htwo, if_pos hthree]
        exact decodeFrom_three rest (by omega) (by omega) (by omega)
      · rw [if_neg hone, if_neg htwo, if_neg hthree]
        exact decodeFrom_four rest (by omega) (by omega)

theorem decode_encode (text : Text) : decode (encode text) = text := by
  induction text with
  | nil => rfl
  | cons c rest ih =>
    have hcons : encode (c :: rest) = String.utf8EncodeChar c ++ encode rest := by simp [encode]
    rw [decode, hcons, decodeFrom_encodeChar]
    exact congrArg (c :: ·) ih

theorem encode_injective {first second : Text} (h : encode first = encode second) : first = second := by
  rw [← decode_encode first, h, decode_encode]

-- Only a character among the first 128 is written with a byte among them, and that is its own.
theorem toNat_of_mem_encodeChar {c : Char} {byte : UInt8} (hmem : byte ∈ String.utf8EncodeChar c)
    (hbyte : byte.toNat < 128) : c.toNat = byte.toNat := by
  unfold String.utf8EncodeChar at hmem
  simp only [show c.val.toNat = c.toNat from rfl] at hmem
  -- All bytes of a longer character are above the first 128.
  have hlater : ∀ value base, 128 ≤ base → value + base < 256 → byte = UInt8.ofNat (value + base) →
      c.toNat = byte.toNat := by
    rintro value base hbase hlt rfl
    rw [toNat_ofNat_of_lt hlt] at hbyte
    omega
  split at hmem
  · rw [List.mem_singleton] at hmem
    rw [hmem, toNat_ofNat_of_lt (by omega)]
  · split at hmem
    · simp only [List.mem_cons, List.not_mem_nil, or_false] at hmem
      rcases hmem with h | h
      · exact hlater _ _ (by omega) (by omega) h
      · exact hlater _ _ (by omega) (by omega) h
    · split at hmem
      · simp only [List.mem_cons, List.not_mem_nil, or_false] at hmem
        rcases hmem with h | h | h
        · exact hlater _ _ (by omega) (by omega) h
        · exact hlater _ _ (by omega) (by omega) h
        · exact hlater _ _ (by omega) (by omega) h
      · simp only [List.mem_cons, List.not_mem_nil, or_false] at hmem
        rcases hmem with h | h | h | h
        · exact hlater _ _ (by omega) (by omega) h
        · exact hlater _ _ (by omega) (by omega) h
        · exact hlater _ _ (by omega) (by omega) h
        · exact hlater _ _ (by omega) (by omega) h

theorem feed_not_mem_encode {text : Text} (h : '\n' ∉ text) : 10 ∉ encode text := by
  intro hfeed
  obtain ⟨c, hc, hmem⟩ := List.mem_flatMap.mp hfeed
  have hvalue : c.toNat = '\n'.toNat := toNat_of_mem_encodeChar hmem (by decide)
  have hchar : c = '\n' := Char.toNat_inj.mp hvalue
  exact h (hchar ▸ hc)

-- Whatever bytes are still to come, the character will be none of the first 128.
def Progress.Above : Progress → Prop
  | .between => True
  | .within opening =>
    0x80 ≤ opening.lowest.toNat ∧
      128 ≤ (opening.value * 64 + (opening.lowest.toNat - 0x80)) * 64 ^ opening.following

theorem ofNat_ne_feed {n : Nat} (h : n ≠ 10) : Char.ofNat n ≠ '\n' := by
  intro hfeed
  by_cases hvalid : n.isValidChar
  · rw [Char.ofNat, dif_pos hvalid] at hfeed
    have hnat : n = 10 := congrArg Char.toNat hfeed
    exact h hnat
  · rw [Char.ofNat, dif_neg hvalid] at hfeed
    exact absurd (congrArg Char.toNat hfeed) (by decide)

theorem above_start {byte : UInt8} (h : byte.toNat ≠ 10) :
    '\n' ∉ (start byte).1 ∧ (start byte).2.Above := by
  by_cases hone : byte.toNat < 0x80
  · rw [start_of_one byte hone]
    exact ⟨by simpa using (ofNat_ne_feed h).symm, trivial⟩
  by_cases htail : byte.toNat < 0xC2 ∨ 0xF4 < byte.toNat
  · rw [start_of_stray byte (by omega) htail]
    exact ⟨by decide, trivial⟩
  by_cases htwo : byte.toNat < 0xE0
  · rw [start_of_two byte (by omega) htwo]
    refine ⟨by simp, Nat.le_refl 128, ?_⟩
    simp only [UInt8.reduceToNat]
    omega
  by_cases hthree : byte.toNat < 0xF0
  · rw [start_of_three byte (by omega) hthree]
    refine ⟨by simp, lowestAfter_ge byte.toNat, ?_⟩
    by_cases hfirst : byte.toNat = 0xE0
    · simp [hfirst, lowestAfter]
    · dsimp only
      omega
  · rw [start_of_four byte (by omega) (by omega)]
    refine ⟨by simp, lowestAfter_ge byte.toNat, ?_⟩
    by_cases hfirst : byte.toNat = 0xF0
    · simp [hfirst, lowestAfter]
    · dsimp only
      omega

theorem above_step {progress : Progress} {byte : UInt8} (habove : progress.Above) (h : byte.toNat ≠ 10) :
    '\n' ∉ (step progress byte).1 ∧ (step progress byte).2.Above := by
  cases progress with
  | between => exact above_start h
  | within opening =>
    obtain ⟨hlowest, hvalue⟩ := habove
    by_cases hin : opening.lowest ≤ byte ∧ byte ≤ opening.highest
    · have hlow := UInt8.le_iff_toNat_le.mp hin.1
      have hgrown : opening.value * 64 + (opening.lowest.toNat - 0x80) ≤
          opening.value * 64 + (byte.toNat - 0x80) := by omega
      cases hfollowing : opening.following with
      | zero =>
        rw [hfollowing, Nat.pow_zero, Nat.mul_one] at hvalue
        have hne : opening.value * 64 + (byte.toNat - 0x80) ≠ 10 := by omega
        simpa [step, hin, hfollowing, Progress.Above] using (ofNat_ne_feed hne).symm
      | succ more =>
        rw [hfollowing] at hvalue
        have hmore := Nat.le_trans hvalue (Nat.mul_le_mul_right _ hgrown)
        simp only [step, hin, hfollowing, decide_true, Bool.and_self, if_true, Progress.Above]
        refine ⟨by simp, Nat.le_refl 128, ?_⟩
        have hpower : (64 : Nat) ^ (more + 1) = 64 * 64 ^ more := by rw [Nat.pow_succ, Nat.mul_comm]
        rw [hpower, ← Nat.mul_assoc] at hmore
        simpa only [UInt8.reduceToNat, Nat.sub_self, Nat.add_zero] using hmore
    · obtain ⟨hstart, hnext⟩ := above_start h
      have hstep : step (.within opening) byte = (replacement :: (start byte).1, (start byte).2) := by
        simp only [step, ← Bool.decide_and, decide_eq_true_eq, if_neg hin]
      rw [hstep]
      exact ⟨by simpa [replacement] using hstart, hnext⟩

-- No line feed comes of bytes that are none.
theorem feed_not_mem_decodeFrom {progress : Progress} {bytes : List UInt8} (habove : progress.Above)
    (h : ∀ byte ∈ bytes, byte.toNat ≠ 10) : '\n' ∉ decodeFrom progress bytes := by
  induction bytes generalizing progress with
  | nil => cases progress <;> simp [decodeFrom, replacement]
  | cons byte rest ih =>
    obtain ⟨hstep, hnext⟩ := above_step habove (h byte (by simp))
    rw [decodeFrom_cons, List.mem_append]
    rintro (hmem | hmem)
    · exact hstep hmem
    · exact ih hnext (fun later hlater => h later (by simp [hlater])) hmem

-- A line feed ends what stands open, as the end of the bytes does, and opens nothing.
theorem step_feed {progress : Progress} (habove : progress.Above) :
    step progress 10 = (decodeFrom progress [] ++ ['\n'], .between) := by
  cases progress with
  | between => rfl
  | within opening =>
    have hlow : ¬opening.lowest ≤ 10 := by
      have hlowest := habove.1
      simp only [UInt8.le_iff_toNat_le, UInt8.reduceToNat]
      omega
    simp only [step, hlow, decide_false, Bool.false_and, Bool.false_eq_true, if_false]
    rfl

theorem decodeFrom_append_feed {progress : Progress} {bytes : List UInt8} (rest : List UInt8)
    (habove : progress.Above) (h : ∀ byte ∈ bytes, byte.toNat ≠ 10) :
    decodeFrom progress (bytes ++ 10 :: rest) = decodeFrom progress bytes ++ '\n' :: decodeFrom .between rest := by
  induction bytes generalizing progress with
  | nil => rw [List.nil_append, decodeFrom_cons, step_feed habove, List.append_assoc, List.singleton_append]
  | cons byte bytes ih =>
    have hnext := (above_step habove (h byte (by simp))).2
    have hrest := ih hnext fun later hlater => h later (by simp [hlater])
    rw [List.cons_append, decodeFrom_cons, hrest, decodeFrom_cons, List.append_assoc]

theorem no_feed_of_not_mem {bytes : List UInt8} (h : 10 ∉ bytes) : ∀ byte ∈ bytes, byte.toNat ≠ 10 := by
  intro byte hbyte hten
  obtain rfl : byte = 10 := (eq_iff_toNat byte 10).mpr hten
  exact h hbyte

theorem feed_not_mem_decode {bytes : List UInt8} (h : 10 ∉ bytes) : '\n' ∉ decode bytes :=
  feed_not_mem_decodeFrom (show Progress.between.Above from trivial) (no_feed_of_not_mem h)

-- So bytes are decoded line by line.
theorem decode_append_feed {bytes : List UInt8} (rest : List UInt8) (h : 10 ∉ bytes) :
    decode (bytes ++ 10 :: rest) = decode bytes ++ '\n' :: decode rest :=
  decodeFrom_append_feed rest (show Progress.between.Above from trivial) (no_feed_of_not_mem h)

theorem start_begins (byte : UInt8) : (start byte).1 ≠ [] ∨ ∃ opening, (start byte).2 = .within opening := by
  simp only [start]
  repeat' split
  all_goals simp

-- No bytes are decoded to nothing.
theorem decode_eq_nil_iff (bytes : List UInt8) : decode bytes = [] ↔ bytes = [] := by
  have hopen : ∀ (rest : List UInt8) (opening : Opening), decodeFrom (.within opening) rest ≠ [] := by
    intro rest
    induction rest with
    | nil => exact fun _ => List.cons_ne_nil _ _
    | cons byte rest ih =>
      intro opening
      rw [decodeFrom_cons]
      simp only [step]
      split
      · cases opening.following with
        | zero => simp
        | succ more => simpa using ih _
      · simp
  constructor
  · intro hnil
    cases bytes with
    | nil => rfl
    | cons byte rest =>
      rw [decode, decodeFrom_cons, List.append_eq_nil_iff] at hnil
      rcases start_begins byte with hsome | ⟨opening, hwithin⟩
      · exact absurd hnil.1 hsome
      · have hrest := hnil.2
        rw [step, hwithin] at hrest
        exact absurd hrest (hopen rest opening)
  · rintro rfl
    rfl

end VoyageLog.Text.Utf8
