import VoyageLog.Proofs.Recording.Rows

namespace VoyageLog

open Sentence TimeSource

def Instant.InMilliseconds (instant : Instant) : Prop := instant.nano % 1000000 = 0

-- Across leap seconds too, such instants are whole milliseconds apart.
theorem Instant.InMilliseconds.since {left right : Instant} (hleft : left.InMilliseconds)
    (hright : right.InMilliseconds) : left.since right % 1000000 = 0 := by
  unfold InMilliseconds at hleft hright
  unfold Instant.since
  omega

theorem Sentence.UtcTime.nano_of_read {field : Text} {utc : UtcTime} (h : UtcTime.read? field = some utc) :
    utc.time.nano % 1000000 = 0 := by
  simp only [UtcTime.read?, Option.bind_eq_bind, Option.bind_eq_some_iff, Option.some.injEq] at h
  obtain ⟨_, -, _, -, _, -, _, -, time, htime, rfl⟩ := h
  unfold TimeOfDay.ofParts? at htime
  split at htime
  · obtain rfl := Option.some.inj htime
    exact Nat.mul_mod_left _ _
  · cases htime

theorem TimeSource.Telling.nano_of_read {kind : Kind} {fields : List Text} {telling : Telling}
    (h : Telling.read? kind fields = some telling) : telling.utc.time.nano % 1000000 = 0 := by
  cases kind <;>
    simp only [Telling.read?, Option.bind_eq_bind, Option.bind_eq_some_iff, Option.some.injEq] at h
  case rmc =>
    obtain ⟨_, -, utc, hutc, _, -, _, -, rfl⟩ := h
    exact UtcTime.nano_of_read hutc
  case zda =>
    obtain ⟨_, -, utc, hutc, _, -, _, -, _, -, _, -, rfl⟩ := h
    exact UtcTime.nano_of_read hutc
  all_goals
    obtain ⟨_, -, utc, hutc, rfl⟩ := h
    exact UtcTime.nano_of_read hutc

theorem TimeSource.Listener.inMilliseconds_of_hear {listener : Listener} {sentence : Text} {sighting : Sighting}
    (h : (listener.hear sentence).1 = some sighting) : sighting.instant.InMilliseconds := by
  cases htold : told? sentence with
  | none => simp [hear_of_untold listener htold] at h
  | some told =>
    rw [hear_of_told listener htold] at h
    obtain ⟨date, -, rfl⟩ := Option.map_eq_some_iff.mp h
    simp only [told?, Option.bind_eq_bind, Option.bind_eq_some_iff, Option.some.injEq] at htold
    obtain ⟨_, -, _, -, telling, hread, rfl⟩ := htold
    exact Telling.nano_of_read hread

-- So does a scan of sentences see all instants.
theorem Scan.Sentences.inMilliseconds_of_sightings {state : Sentences} {records : List Record}
    {entry : Nat × Sighting} (h : entry ∈ state.sightings records) : entry.2.instant.InMilliseconds := by
  induction records generalizing state with
  | nil => simp [Sentences.sightings] at h
  | cons record rest ih =>
    rw [Sentences.sightings, List.mem_append] at h
    rcases h with hfirst | hrest
    · obtain ⟨sighting, hsighted, rfl⟩ : ∃ sighting, state.sighted? record = some sighting ∧
          (record.line, sighting) = entry := by simpa using hfirst
      simp only [Sentences.sighted?, Option.bind_eq_bind, Option.bind_eq_some_iff] at hsighted
      obtain ⟨_, -, _, -, hheard⟩ := hsighted
      exact Listener.inMilliseconds_of_hear hheard
    · exact ih hrest

theorem Scan.Founds.inMilliseconds {lockPrimary : Bool} {source : TimeSource} {records : List Record}
    {details : Details} {outcome : Outcome} (h : Founds lockPrimary source records details outcome) :
    details.start.InMilliseconds ∧ details.latest.InMilliseconds := by
  have hknown := h.known
  rw [get?_sentences] at hknown
  have hspans := spans_of_chronological hknown h.chronological
  have hall : ∀ instant ∈ (sightingsOf source (sightings records)).map (·.2), instant.InMilliseconds := by
    intro instant hmem
    simp only [sightingsOf, List.mem_map, List.mem_filterMap] at hmem
    obtain ⟨_, ⟨⟨line, sighting⟩, hsighting, hsome⟩, rfl⟩ := hmem
    split at hsome
    · obtain rfl := Option.some.inj hsome
      exact Sentences.inMilliseconds_of_sightings hsighting
    · cases hsome
  exact ⟨hall _ (List.mem_of_head? hspans.first.symm), hall _ (List.mem_of_getLast? hspans.last.symm)⟩

-- A timeline that does not last whole milliseconds is one of a table.
theorem Scan.span_of_scan {lockPrimary : Bool} {recording : Recording} {outcome : Outcome} {timeline : Timeline}
    (hscan : ofRecording lockPrimary recording = .ok outcome) (htimeline : outcome.clock.timeline = some timeline) :
    outcome.clock.isTable ∨ timeline.span % 1000000 = 0 := by
  rcases timed_of_scan hscan htimeline with ⟨source, hprimary, -⟩ | ⟨columns, -, hlayout⟩
  · obtain ⟨details, hfounds⟩ := founds_of_primary hscan hprimary
    obtain rfl := Option.some.inj (hfounds.timeline.symm.trans htimeline)
    obtain ⟨hstart, hlatest⟩ := hfounds.inMilliseconds
    exact .inr (hlatest.since hstart)
  · exact .inl (by simp [Clock.isTable, hlayout, Layout.isTable])

end VoyageLog
