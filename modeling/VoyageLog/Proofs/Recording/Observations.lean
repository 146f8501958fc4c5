import VoyageLog.Proofs.Recording.Rows

namespace VoyageLog

open Sentence TimeSource

-- A sound sentence of a kind that tells the time.
def tellsTime (sentence : Text) : Bool := ((Header.read? sentence).bind (·.kind?)).isSome

-- What a listener hears of some records, from whatever source.
def TimeSource.Listener.heard (listener : Listener) : List Record → List Sighting
  | [] => []
  | record :: rest => (listener.hear record.text).1.toList ++ (listener.hear record.text).2.heard rest

def observations (records : List Record) : List Sighting :=
  Listener.fresh.heard (records.filter (tellsTime ·.text))

theorem isSound_of_tellsTime {sentence : Text} (h : tellsTime sentence) : isSound sentence := by
  unfold tellsTime at h
  unfold isSound
  cases hread : Header.read? sentence with
  | none => simp [hread] at h
  | some => rfl

theorem told?_of_timeless {sentence : Text} (hsound : isSound sentence) (htimeless : ¬tellsTime sentence) :
    told? sentence = none := by
  unfold tellsTime at htimeless
  obtain ⟨header, hread⟩ := Option.isSome_iff_exists.mp hsound
  exact told?_of_kindless hread (by simpa [hread] using htimeless)

namespace Scan

-- What a scan enters for a record is what its listener hears, if the record is one to listen to.
theorem Sentences.sighted?_of_tellsTime {state : Sentences} {record : Record} (h : tellsTime record.text) :
    state.sighted? record = (state.listener.hear record.text).1 ∧
      (state.read record).listener = (state.listener.hear record.text).2 := by
  have hsound := isSound_of_tellsTime h
  rw [sighted?_eq, listener_read, if_pos hsound, if_pos hsound]
  exact ⟨rfl, rfl⟩

theorem Sentences.sighted?_of_timeless {state : Sentences} {record : Record} (h : ¬tellsTime record.text) :
    state.sighted? record = none ∧ (state.read record).listener = state.listener := by
  rw [sighted?_eq, listener_read]
  by_cases hsound : isSound record.text
  · rw [if_pos hsound, if_pos hsound, Listener.hear_of_untold _ (told?_of_timeless hsound h)]
    exact ⟨rfl, rfl⟩
  · rw [if_neg hsound, if_neg hsound]
    exact ⟨rfl, rfl⟩

theorem Sentences.map_snd_sightings (state : Sentences) (records : List Record) :
    (state.sightings records).map (·.2) = state.listener.heard (records.filter (tellsTime ·.text)) := by
  induction records generalizing state with
  | nil => rfl
  | cons record rest ih =>
    have hrest := ih (state.read record)
    rw [sightings, List.map_append, hrest]
    by_cases h : tellsTime record.text
    · obtain ⟨hsighted, hlistener⟩ := state.sighted?_of_tellsTime h
      simp only [List.filter_cons, h, if_true, Listener.heard, hsighted, hlistener]
      cases (state.listener.hear record.text).1 <;> rfl
    · obtain ⟨hsighted, hlistener⟩ := state.sighted?_of_timeless h
      simp only [List.filter_cons, h, hsighted, hlistener]
      rfl

theorem map_snd_sightings (records : List Record) : (sightings records).map (·.2) = observations records :=
  Sentences.map_snd_sightings _ records

-- How many records are sound, how many are not, and how many sightings there are.
theorem Sentences.tally_read (state : Sentences) (record : Record) :
    (state.read record).tally = state.tally.plus
      ⟨[record].countP (isSound ·.text), [record].countP (!isSound ·.text),
        (state.sighted? record).toList.length⟩ := by
  unfold Sentences.read Sentences.sighted? isSound
  cases hread : Header.read? record.text with
  | none => simp [Tally.plus, hread]
  | some header =>
    cases hkind : header.kind? with
    | none => simp [Tally.plus, hread, hkind]
    | some kind =>
      rcases state.listener.hear record.text with ⟨_ | sighting, listener⟩ <;>
        simp [Tally.plus, hread, hkind]

theorem Sentences.tally_foldl_read (state : Sentences) (records : List Record) :
    (records.foldl Sentences.read state).tally = state.tally.plus
      ⟨records.countP (isSound ·.text), records.countP (!isSound ·.text), (state.sightings records).length⟩ := by
  induction records generalizing state with
  | nil => rfl
  | cons record rest ih =>
    have hcount : ∀ holds : Record → Bool,
        (record :: rest).countP holds = [record].countP holds + rest.countP holds := by
      intro holds
      rw [← List.countP_append, List.singleton_append]
    have hsightings : (state.sightings (record :: rest)).length =
        (state.sighted? record).toList.length + ((state.read record).sightings rest).length := by
      rw [sightings, List.length_append]
      cases state.sighted? record <;> rfl
    rw [List.foldl_cons, ih, tally_read, hcount, hcount, hsightings, Tally.plus_assoc]
    rfl

theorem tally_sentences (records : List Record) :
    (sentences records).tally =
      ⟨records.countP (isSound ·.text), records.countP (!isSound ·.text), (observations records).length⟩ := by
  rw [sentences, Sentences.tally_foldl_read, ← map_snd_sightings, List.length_map, sightings]
  simp [Tally.plus, Tally.zero]

theorem inventory_sentences (records : List Record) :
    (sentences records).inventory =
      Inventory.sightAll [] ((observations records).map fun sighting => (sighting.source, sighting.instant)) := by
  rw [sentences, Sentences.inventory_foldl_read, ← map_snd_sightings, List.map_map, sightings]
  rfl

-- A primary source has its details in the inventory.
theorem map_fst_primaryOf {inventory : Inventory} (hnodup : (inventory.map (·.1)).Nodup) :
    (primaryOf inventory).map (·.1) = inventory.primary? := by
  cases hprimary : inventory.primary? with
  | none => simp [primaryOf, hprimary]
  | some source =>
    obtain ⟨details, hmem, -⟩ := Inventory.primary?_mem hprimary
    simp [primaryOf, hprimary, Inventory.get?_of_mem hnodup hmem]

-- What a scan that locks its listener, or does not, makes of the sentences of a recording.
structure Surveys (lockPrimary : Bool) (dataStart : Nat) (records : List Record) (outcome : Outcome) : Prop where
  layout : outcome.clock.layout = some .sentences
  dataStart : outcome.clock.dataStart = dataStart
  inventory : outcome.clock.inventory =
    Inventory.sightAll [] ((observations records).map fun sighting => (sighting.source, sighting.instant))
  primary : outcome.clock.primary = outcome.clock.inventory.primary?
  timed : ∀ source, outcome.clock.primary = some source →
    ∃ details, outcome.clock.inventory.get? source = some details ∧ details.start ≤ details.latest ∧
      outcome.clock.timeline = some ⟨details.start, details.latest, details.start⟩
  untimed : outcome.clock.primary = none → outcome.clock.timeline = none
  report : outcome.report = ⟨false, outcome.clock.primary.isSome, records.countP (isSound ·.text),
    records.countP (!isSound ·.text), (observations records).length⟩
  lock : outcome.listener.lock = if lockPrimary then outcome.clock.primary else none

theorem surveys (lockPrimary : Bool) (dataStart : Nat) (records : List Record) :
    Surveys lockPrimary dataStart records (outcomeOfSentences lockPrimary dataStart (sentences records)) where
  layout := rfl
  dataStart := rfl
  inventory := inventory_sentences records
  primary := map_fst_primaryOf (nodup_sentences records)
  timed := by
    intro source hsource
    obtain ⟨⟨_, details⟩, hfound, rfl⟩ := Option.map_eq_some_iff.mp hsource
    obtain ⟨-, hget, hchronological⟩ := primaryOf_eq_some (nodup_sentences records) hfound
    have hspans := spans_of_chronological ((get?_sentences records _).symm.trans hget) hchronological
    exact ⟨details, hget, hspans.le, by simp [outcomeOfSentences, hfound]⟩
  untimed := by
    intro hnone
    simp [outcomeOfSentences, Option.map_eq_none_iff.mp hnone]
  report := by
    simp [outcomeOfSentences, Tally.report, tally_sentences, Clock.isTable, Clock.isTimed, Layout.isTable]
  lock := rfl

end Scan

end VoyageLog
