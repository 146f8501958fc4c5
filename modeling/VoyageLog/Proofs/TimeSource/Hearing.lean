import VoyageLog.TimeSource.Listener

namespace VoyageLog.TimeSource

open Sentence

-- Who tells the time in a sentence, and what is told.
def told? (sentence : Text) : Option (TimeSource × Telling) := do
  let address ← Address.ofParametric? sentence
  let kind ← Kind.ofCode? address.code
  let telling ← Telling.read? kind (fields sentence)
  some (⟨address.talker, kind, telling.utc.precision⟩, telling)

def dateTold? (sentence : Text) : Option Date := (told? sentence).bind (·.2.date)

-- The date that goes with what is told, if there is one.
def Listener.dateOf (listener : Listener) (telling : Telling) : Option Date := telling.date <|> listener.date

namespace Listener

theorem hear_of_untold {sentence : Text} (listener : Listener) (h : told? sentence = none) :
    listener.hear sentence = (none, listener) := by
  unfold hear
  split
  · rfl
  · rename_i address haddress
    split
    · rfl
    · rename_i kind hkind
      cases hread : Telling.read? kind (fields sentence) with
      | none => simp [hearAs, hread]
      | some telling => simp [told?, haddress, hkind, hread] at h

theorem hear_of_told {sentence : Text} {source : TimeSource} {telling : Telling} (listener : Listener)
    (h : told? sentence = some (source, telling)) :
    listener.hear sentence =
      ((listener.dateOf telling).map fun date => ⟨source, Instant.onDate date telling.utc.time⟩,
        { listener with date := listener.dateOf telling }) := by
  simp only [told?, Option.bind_eq_bind, Option.bind_eq_some_iff, Option.some.injEq, Prod.mk.injEq] at h
  obtain ⟨address, haddress, kind, hkind, read, hread, rfl, rfl⟩ := h
  simp only [hear, haddress, hkind, hearAs, hread, DateAndTime.instant?, dateOf]
  cases read.date <|> listener.date <;> rfl

-- A date that is told takes the place of the last one.
theorem after_hear (listener : Listener) (sentence : Text) :
    (listener.hear sentence).2 = { listener with date := (dateTold? sentence).or listener.date } := by
  cases htold : told? sentence with
  | none => simp [hear_of_untold listener htold, dateTold?, htold]
  | some told =>
    rw [hear_of_told listener htold]
    simp only [dateTold?, htold, Option.bind_some, dateOf]
    cases told.2.date <;> rfl

theorem undated_heed (listener : Listener) (sentence : Text) :
    (listener.heed sentence).2.undated = listener.undated := by
  change (listener.hear sentence).2.undated = listener.undated
  cases htold : told? sentence with
  | none => rw [hear_of_untold listener htold]
  | some told => rw [hear_of_told listener htold]; rfl

theorem hear_again (listener : Listener) (sentence : Text) :
    (listener.hear sentence).2.hear sentence = listener.hear sentence := by
  cases htold : told? sentence with
  | none => rw [hear_of_untold listener htold, hear_of_untold listener htold]
  | some told =>
    have hdate : Listener.dateOf { listener with date := listener.dateOf told.2 } told.2 =
        listener.dateOf told.2 := by
      unfold dateOf
      cases told.2.date <;> rfl
    rw [hear_of_told listener htold, hear_of_told _ htold, hdate]

-- A date that has been kept is the one that would be kept again.
theorem heed_again (listener : Listener) (sentence : Text) :
    (listener.heed sentence).2.heed sentence = listener.heed sentence := by
  have hlock := congrArg Listener.lock (listener.undated_heed sentence)
  have hheeds : (listener.heed sentence).2.heeds = listener.heeds := by
    funext source
    simp only [heeds, show (listener.heed sentence).2.lock = listener.lock from hlock]
  have hagain := listener.hear_again sentence
  change (Option.filter (fun sighting => (listener.heed sentence).2.heeds sighting.source)
    ((listener.hear sentence).2.hear sentence).1, ((listener.hear sentence).2.hear sentence).2) = _
  rw [hagain, hheeds]
  rfl

end Listener

end VoyageLog.TimeSource
