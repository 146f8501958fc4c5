import VoyageLog.Proofs.Json.Pretty
import VoyageLog.Proofs.Json.Scale
import VoyageLog.Proofs.Text.Utf8
import VoyageLog.Settings

namespace VoyageLog.Settings

open Text Json.Number

theorem sound_ofNat (value : Nat) : Sound (ofNat value) := by
  refine ⟨?_, allDigits_decimal value, by simp [ofNat], by simp [ofNat]⟩
  refine isWhole_of_head ?_
  rcases Nat.eq_zero_or_pos value with rfl | hpos
  · exact .inl rfl
  · exact .inr ⟨decimal_ne_nil value, head_decimal hpos⟩

theorem toWord?_ofNat {value : Nat} (h : value ≤ greatestWord) : (ofNat value).toWord? = some value := by
  simp [toWord?, ofNat, number_decimal, h]

theorem writable_speedJson (speed : Binary64) : Json.Writable (speedJson speed) := by
  cases speed with
  | nan => exact .null
  | infinite negative => exact .null
  | finite number => exact .number _ (ofFinite_sound number)

theorem writable_toJson (settings : Settings) : Json.Writable settings.toJson := by
  refine .object _ (by simp) ?_
  intro member hmember
  obtain rfl := List.mem_singleton.mp hmember
  refine .object _ (by simp) ?_
  intro member hmember
  simp only [List.mem_cons, List.not_mem_nil, or_false] at hmember
  rcases hmember with rfl | rfl | rfl
  · exact writable_speedJson _
  · exact .bool _
  · exact .number _ (sound_ofNat _)

-- What the reader makes of the speed that was written.
def rereadSpeed? (speed : Binary64) : Option Binary64 := number? (speedJson speed)

theorem playback?_playbackJson {config : Player.Config} (hcapacity : config.capacity ≤ greatestWord) :
    playback? (playbackJson config) = (rereadSpeed? config.speed).map fun speed => { config with speed } := by
  obtain ⟨speed, lockPrimary, capacity⟩ := config
  have hmembers : playback? (playbackJson ⟨speed, lockPrimary, capacity⟩) =
      config? (some (speedJson speed)) (some (.bool lockPrimary)) (some (.number (ofNat capacity))) := rfl
  have hword : word? (.number (ofNat capacity)) = some capacity := toWord?_ofNat hcapacity
  rw [hmembers, config?, rereadSpeed?]
  simp only [orDefault, hword, bool?]
  cases number? (speedJson speed) <;> rfl

theorem read?_write {settings : Settings} (hcapacity : settings.playback.capacity ≤ greatestWord) :
    read? settings.write = (rereadSpeed? settings.playback.speed).map fun speed =>
      { settings with playback := { settings.playback with speed } } := by
  have hobject : ofJson? settings.toJson = (playback? (playbackJson settings.playback)).map (⟨·⟩) := by
    have hmember : ofJson? settings.toJson =
        (orDefault Player.Config.default playback? (some (playbackJson settings.playback))).bind (some ⟨·⟩) := rfl
    rw [hmember, orDefault, Option.map_eq_bind]
    rfl
  rw [read?, write, (writable_toJson settings).read?_pretty, Option.bind_some, hobject,
    playback?_playbackJson hcapacity, Option.map_map]
  rfl

-- A file that was written holds text, so that it fails only if the speed does.
theorem ofFile_write {settings : Settings} (hcapacity : settings.playback.capacity ≤ greatestWord) :
    ofFile (some (Utf8.encode settings.write)) =
      match rereadSpeed? settings.playback.speed with
      | none => .error .malformed
      | some speed => .ok { settings with playback := { settings.playback with speed } } := by
  have hdecode : Utf8.decode? (Utf8.encode settings.write) = some settings.write := by
    simp [Utf8.decode?, Utf8.decode_encode]
  rw [ofFile, hdecode]
  dsimp only
  rw [read?_write hcapacity]
  cases rereadSpeed? settings.playback.speed <;> rfl

theorem rereadSpeed?_finite (number : Binary64.Finite) : ∃ speed, rereadSpeed? (.finite number) = some speed :=
  Option.isSome_iff_exists.mp (toBinary64?_isSome number)

-- Settings with a finite speed are read again from their file, with the same lock and the same capacity, and all
-- others are lost. The speed is the one that its own decimal is read as, which is itself where that is taken exactly.
theorem written_reloads {settings : Settings} (hcapacity : settings.playback.capacity ≤ greatestWord) :
    (settings.playback.speed.isFinite = false →
      ofFile (some (Utf8.encode settings.write)) = .error .malformed) ∧
    ∀ number, settings.playback.speed = .finite number →
      (∃ speed, ofFile (some (Utf8.encode settings.write)) =
        .ok ⟨⟨speed, settings.playback.lockPrimary, settings.playback.capacity⟩⟩) ∧
      (ofFile (some (Utf8.encode settings.write)) = .ok settings ↔
        (ofFinite number).toBinary64? = some (.finite number)) ∧
      (Exact (taken (Decimal.shortest .even number)) →
        ofFile (some (Utf8.encode settings.write)) = .ok settings) := by
  obtain ⟨⟨speed, lockPrimary, capacity⟩⟩ := settings
  rw [ofFile_write hcapacity]
  dsimp only
  constructor
  · intro hlost
    cases speed with
    | nan => rfl
    | infinite negative => rfl
    | finite number => cases hlost
  · rintro number rfl
    obtain ⟨speed, hspeed⟩ := rereadSpeed?_finite number
    have hsame : Except.ok (ε := Failure) ⟨⟨speed, lockPrimary, capacity⟩⟩ =
        .ok (⟨⟨.finite number, lockPrimary, capacity⟩⟩ : Settings) ↔
        (ofFinite number).toBinary64? = some (.finite number) := by
      rw [show (ofFinite number).toBinary64? = some speed from hspeed]
      simp
    rw [hspeed]
    exact ⟨⟨speed, rfl⟩, hsame, fun hexact => hsame.mpr (toBinary64?_exact hexact)⟩

-- Eight times as fast, and not by the primary source only.
def eightfold : Settings := ⟨⟨.finite ⟨false, 4503599627370496, -49, by decide⟩, false, 1000⟩⟩

theorem written_reloads_eightfold :
    eightfold.playback.capacity ≤ greatestWord ∧
      ofFile (some (Utf8.encode eightfold.write)) = .ok eightfold := by
  have hcapacity : eightfold.playback.capacity ≤ greatestWord := by decide
  obtain ⟨-, hfinite⟩ := written_reloads hcapacity
  obtain ⟨-, -, hexact⟩ := hfinite _ rfl
  exact ⟨hcapacity, hexact (by decide +kernel)⟩

-- As fast as 123456789.12345679, whose decimal is rounded before it is divided and so comes back as the next number.
-- An infinite speed does not come back at all.
theorem seventeen_digits_reloaded_greater :
    ofFile (some (Utf8.encode (write ⟨⟨.finite ⟨false, 8285044871162741, -26, by decide⟩, true, 1000⟩⟩))) =
        .ok ⟨⟨.finite ⟨false, 8285044871162742, -26, by decide⟩, true, 1000⟩⟩ ∧
      ofFile (some (Utf8.encode (write ⟨⟨.infinite false, true, 1000⟩⟩))) = .error .malformed := by
  have hcapacity : 1000 ≤ greatestWord := by decide
  constructor
  · have hspeed : rereadSpeed? (.finite ⟨false, 8285044871162741, -26, by decide⟩) =
        some (.finite ⟨false, 8285044871162742, -26, by decide⟩) := by decide +kernel
    rw [ofFile_write hcapacity]
    dsimp only
    rw [hspeed]
  · rw [ofFile_write hcapacity]
    rfl

end VoyageLog.Settings
