import VoyageLog.Proofs.Recording.Timings
import VoyageLog.Proofs.Sentence.Header
import VoyageLog.Proofs.TimeSource.Ranking
import VoyageLog.Recording.Scan

namespace VoyageLog

open Sentence TimeSource

def isSound (sentence : Text) : Bool := (Header.read? sentence).isSome

-- A sound sentence of another kind would tell nothing if it were heard.
theorem TimeSource.told?_of_kindless {sentence : Text} {header : Header}
    (hread : Header.read? sentence = some header) (hkind : header.kind? = none) :
    told? sentence = none := by
  obtain ⟨rest, hspells⟩ := read?_eq_some_iff.mp hread
  have hnone : Kind.ofCode? header.address.code = none := hkind
  have haddress := hspells.ofParametric?_eq
  split at haddress
  · simp [told?, haddress, hnone]
  · simp [told?, haddress]

namespace Scan

-- What a scan enters in its inventory when it reads a record.
def Sentences.sighted? (state : Sentences) (record : Record) : Option Sighting := do
  let header ← Header.read? record.text
  let _ ← header.kind?
  (state.listener.hear record.text).1

-- All that a scan enters, by line.
def Sentences.sightings (state : Sentences) : List Record → List (Nat × Sighting)
  | [] => []
  | record :: rest =>
    ((state.sighted? record).map (record.line, ·)).toList ++ (state.read record).sightings rest

theorem Sentences.inventory_read (state : Sentences) (record : Record) :
    (state.read record).inventory =
      match state.sighted? record with
      | none => state.inventory
      | some sighting => state.inventory.sight sighting.source sighting.instant := by
  unfold Sentences.read Sentences.sighted?
  cases hread : Header.read? record.text with
  | none => rfl
  | some header =>
    cases hkind : header.kind? with
    | none => simp [hkind]
    | some kind =>
      simp only [hkind, Option.bind_eq_bind, Option.bind_some]
      rcases state.listener.hear record.text with ⟨_ | sighting, listener⟩ <;> rfl

-- The inventory is made of these sightings and of nothing else.
theorem Sentences.inventory_foldl_read (state : Sentences) (records : List Record) :
    (records.foldl Sentences.read state).inventory =
      state.inventory.sightAll
        ((state.sightings records).map fun entry => (entry.2.source, entry.2.instant)) := by
  induction records generalizing state with
  | nil => rfl
  | cons record rest ih =>
    rw [List.foldl_cons, ih, inventory_read]
    simp only [sightings, List.map_append, Inventory.sightAll, List.foldl_append]
    cases state.sighted? record <;> rfl

theorem Sentences.sighted?_eq (state : Sentences) (record : Record) :
    state.sighted? record =
      if isSound record.text then (state.listener.hear record.text).1 else none := by
  unfold Sentences.sighted? isSound
  cases hread : Header.read? record.text with
  | none => rfl
  | some header =>
    cases hkind : header.kind? with
    | none => simp [Listener.hear_of_untold _ (told?_of_kindless hread hkind)]
    | some kind => simp [hkind]

theorem Sentences.listener_read (state : Sentences) (record : Record) :
    (state.read record).listener =
      if isSound record.text then (state.listener.hear record.text).2 else state.listener := by
  unfold Sentences.read isSound
  cases hread : Header.read? record.text with
  | none => rfl
  | some header =>
    cases hkind : header.kind? with
    | none => simp [hkind, Listener.hear_of_untold _ (told?_of_kindless hread hkind)]
    | some kind =>
      simp only [hkind, Option.isSome_some, if_true]
      rcases state.listener.hear record.text with ⟨_ | sighting, listener⟩ <;> rfl

-- The sightings of a scan from its first record on.
def sightings (records : List Record) : List (Nat × Sighting) :=
  Sentences.sightings ⟨Tally.zero, [], Listener.fresh⟩ records

-- The lines at which a scan saw a source, and when.
def sightingsOf (source : TimeSource) (sightings : List (Nat × Sighting)) : List (Nat × Instant) :=
  sightings.filterMap fun (line, sighting) =>
    if sighting.source = source then some (line, sighting.instant) else none

theorem map_snd_sightingsOf (source : TimeSource) (sightings : List (Nat × Sighting)) :
    ((sightings.map fun entry => (entry.2.source, entry.2.instant)).filter (·.1 = source)).map (·.2) =
      (sightingsOf source sightings).map (·.2) := by
  induction sightings with
  | nil => rfl
  | cons entry rest ih =>
    simp only [sightingsOf] at ih ⊢
    by_cases h : entry.2.source = source <;> simp [h, ih]

theorem get?_sentences (records : List Record) (source : TimeSource) :
    (sentences records).inventory.get? source =
      Details.ofInstants ((sightingsOf source (sightings records)).map (·.2)) := by
  rw [sentences, Sentences.inventory_foldl_read, Inventory.get?_sightAll, map_snd_sightingsOf, sightings]

theorem nodup_sentences (records : List Record) :
    ((sentences records).inventory.map (·.1)).Nodup := by
  rw [sentences, Sentences.inventory_foldl_read]
  exact (Inventory.enumerates_sightAll _).once

-- What a scan can come to.
inductive Scanned (lockPrimary : Bool) (recording : Recording) : Except Failure Outcome → Prop
  | empty (hrecords : recording.records = []) :
      Scanned lockPrimary recording (.ok ⟨Clock.unknown, Report.empty, Listener.fresh⟩)
  | table (first : Record) (rest : List Record) (hrecords : recording.records = first :: rest)
      (columns : Columns) (dataStart : Nat) (hlayout : Layout.ofFirst first = (.table columns, dataStart)) :
      Scanned lockPrimary recording
        ((Scan.table columns (recording.recordsAt dataStart)).map (outcomeOfTable columns dataStart))
  | soundless (first : Record) (rest : List Record) (hrecords : recording.records = first :: rest)
      (dataStart : Nat) (hlayout : Layout.ofFirst first = (.sentences, dataStart))
      (hvalid : (Scan.sentences (recording.recordsAt dataStart)).tally.valid = 0) :
      Scanned lockPrimary recording (.error .noSentence)
  | sentences (first : Record) (rest : List Record) (hrecords : recording.records = first :: rest)
      (dataStart : Nat) (hlayout : Layout.ofFirst first = (.sentences, dataStart))
      (hvalid : (Scan.sentences (recording.recordsAt dataStart)).tally.valid ≠ 0) :
      Scanned lockPrimary recording
        (.ok (outcomeOfSentences lockPrimary dataStart (Scan.sentences (recording.recordsAt dataStart))))

theorem scanned (lockPrimary : Bool) (recording : Recording) :
    Scanned lockPrimary recording (ofRecording lockPrimary recording) := by
  rcases hrecords : recording.records with _ | ⟨first, rest⟩
  · simp only [ofRecording, hrecords]
    exact .empty hrecords
  · rcases hlayout : Layout.ofFirst first with ⟨_ | columns, dataStart⟩
    · simp only [ofRecording, hrecords, hlayout]
      split
      · rename_i hvalid
        exact .soundless first rest hrecords dataStart hlayout hvalid
      · rename_i hvalid
        exact .sentences first rest hrecords dataStart hlayout hvalid
    · simp only [ofRecording, hrecords, hlayout]
      exact .table first rest hrecords columns dataStart hlayout

-- What a scan finds that does not fail.
inductive Succeeds (lockPrimary : Bool) (recording : Recording) : Outcome → Prop
  | empty (hrecords : recording.records = []) :
      Succeeds lockPrimary recording ⟨Clock.unknown, Report.empty, Listener.fresh⟩
  | table (first : Record) (rest : List Record) (hrecords : recording.records = first :: rest)
      (columns : Columns) (dataStart : Nat) (hlayout : Layout.ofFirst first = (.table columns, dataStart))
      (rows : Rows) (hrows : Scan.table columns (recording.recordsAt dataStart) = .ok rows) :
      Succeeds lockPrimary recording (outcomeOfTable columns dataStart rows)
  | sentences (first : Record) (rest : List Record) (hrecords : recording.records = first :: rest)
      (dataStart : Nat) (hlayout : Layout.ofFirst first = (.sentences, dataStart))
      (hvalid : (Scan.sentences (recording.recordsAt dataStart)).tally.valid ≠ 0) :
      Succeeds lockPrimary recording
        (outcomeOfSentences lockPrimary dataStart (Scan.sentences (recording.recordsAt dataStart)))

theorem succeeds {lockPrimary : Bool} {recording : Recording} {outcome : Outcome}
    (hscan : ofRecording lockPrimary recording = .ok outcome) : Succeeds lockPrimary recording outcome := by
  have hcase := scanned lockPrimary recording
  rw [hscan] at hcase
  generalize hresult : Except.ok outcome = result at hcase
  cases hcase with
  | empty hrecords =>
    obtain rfl := Except.ok.inj hresult
    exact .empty hrecords
  | soundless => cases hresult
  | sentences first rest hrecords dataStart hlayout hvalid =>
    obtain rfl := Except.ok.inj hresult
    exact .sentences first rest hrecords dataStart hlayout hvalid
  | table first rest hrecords columns dataStart hlayout =>
    cases hrows : Scan.table columns (recording.recordsAt dataStart) with
    | error => simp [hrows, Except.map] at hresult
    | ok rows =>
      simp only [hrows, Except.map, Except.ok.injEq] at hresult
      subst hresult
      exact .table first rest hrecords columns dataStart hlayout rows hrows

-- With another lock a scan finds the same, and only leaves another listener.
theorem ofRecording_lock (lockPrimary other : Bool) (recording : Recording) :
    ofRecording other recording = (ofRecording lockPrimary recording).map fun outcome =>
      { outcome with
        listener := { outcome.listener with lock := if other then outcome.clock.primary else none } } := by
  rcases hrecords : recording.records with _ | ⟨first, rest⟩
  · simp [ofRecording, hrecords, Except.map, Clock.unknown, Listener.fresh]
  · rcases hlayout : Layout.ofFirst first with ⟨_ | columns, dataStart⟩
    · simp only [ofRecording, hrecords, hlayout]
      split <;> rfl
    · simp only [ofRecording, hrecords, hlayout]
      cases Scan.table columns (recording.recordsAt dataStart) with
      | error => rfl
      | ok rows => simp [Except.map, outcomeOfTable, Listener.fresh]

theorem primaryOf_eq_some {inventory : Inventory} {source : TimeSource} {details : Details}
    (hnodup : (inventory.map (·.1)).Nodup) (h : primaryOf inventory = some (source, details)) :
    inventory.primary? = some source ∧ inventory.get? source = some details ∧ details.isChronological := by
  simp only [primaryOf, Option.bind_eq_bind, Option.bind_eq_some_iff, Option.some.injEq, Prod.mk.injEq] at h
  obtain ⟨_, hprimary, _, hget, rfl, rfl⟩ := h
  obtain ⟨found, hmem, hchronological⟩ := Inventory.primary?_mem hprimary
  obtain rfl := Option.some.inj (hget.symm.trans (Inventory.get?_of_mem hnodup hmem))
  exact ⟨hprimary, hget, hchronological⟩

-- A primary source never went back in time, its details bound the timeline, and it is the one to heed if the
-- scan is to lock the listener.
structure Founds (lockPrimary : Bool) (source : TimeSource) (records : List Record) (details : Details)
    (outcome : Outcome) : Prop where
  known : (sentences records).inventory.get? source = some details
  chronological : details.isChronological
  timeline : outcome.clock.timeline = some ⟨details.start, details.latest, details.start⟩
  lock : outcome.listener.lock = if lockPrimary then some source else none

theorem founds_of_primary {lockPrimary : Bool} {recording : Recording} {outcome : Outcome}
    {source : TimeSource} (hscan : ofRecording lockPrimary recording = .ok outcome)
    (hprimary : outcome.clock.primary = some source) :
    ∃ details, Founds lockPrimary source (recording.recordsAt outcome.clock.dataStart) details outcome := by
  cases succeeds hscan with
  | empty | table => cases hprimary
  | sentences first rest _ dataStart =>
    have hnodup := nodup_sentences (recording.recordsAt dataStart)
    obtain ⟨⟨_, details⟩, hfound, rfl⟩ := Option.map_eq_some_iff.mp hprimary
    obtain ⟨-, hget, hchronological⟩ := primaryOf_eq_some hnodup hfound
    exact ⟨details, hget, hchronological, by simp [outcomeOfSentences, hfound],
      by simp [outcomeOfSentences, hfound]⟩

end Scan

end VoyageLog
