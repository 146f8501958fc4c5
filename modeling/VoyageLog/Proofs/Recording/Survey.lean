import VoyageLog.Proofs.Recording.Cursor
import VoyageLog.Proofs.Recording.LooseClock
import VoyageLog.Proofs.Recording.Sightings

namespace VoyageLog

open Sentence TimeSource

namespace Log

variable {σ τ ρ : Type}

-- Reads on to the end, or until a turn breaks off. A turn is given its record and the cursor beyond it.
def readOn (turn : Record → Log → σ → Except ρ σ) (state : σ) (log : Log) : Except ρ σ × Log :=
  match _ : log.read with
  | (none, atEnd) => (.ok state, atEnd)
  | (some record, further) =>
    match turn record further state with
    | .error result => (.error result, further)
    | .ok next => further.readOn turn next
termination_by log.lineCount - log.next
decreasing_by
  apply left_lt_of_read
  assumption

theorem readOn_of_nil {log : Log} (turn : Record → Log → σ → Except ρ σ) (state : σ) (h : log.unread = []) :
    log.readOn turn state = (.ok state, log.moveTo log.lineCount) := by
  have hread := read_of_nil h
  rw [readOn]
  split
  · rename_i atEnd hend
    obtain rfl : log.moveTo log.lineCount = atEnd := congrArg Prod.snd (hread.symm.trans hend)
    rfl
  · rename_i hsome
    simp [hread] at hsome

theorem readOn_of_cons {log : Log} {record : Record} {rest : List Record}
    (turn : Record → Log → σ → Except ρ σ) (state : σ) (h : log.unread = record :: rest) :
    log.readOn turn state =
      match turn record (log.moveTo (record.line + 1)) state with
      | .error result => (.error result, log.moveTo (record.line + 1))
      | .ok next => (log.moveTo (record.line + 1)).readOn turn next := by
  have hread := (read_of_cons h).1
  rw [readOn]
  split
  · rename_i hend
    simp [hread] at hend
  · rename_i found further hsome
    obtain ⟨rfl, rfl⟩ : record = found ∧ log.moveTo (record.line + 1) = further := by
      simpa [hread] using hsome
    rfl

-- What the turns make of a state is what reading the records still to come makes of it, seen another way.
theorem readOn_map {turn : Record → Log → σ → Except ρ σ} (view : τ → σ) (read : τ → Record → Except ρ τ)
    (hturn : ∀ record further state, turn record further (view state) = (read state record).map view)
    (state : τ) (log : Log) :
    ∃ line, log.readOn turn (view state) = ((log.unread.foldlM read state).map view, log.moveTo line) := by
  generalize h : log.unread = records
  induction records generalizing log state with
  | nil => exact ⟨log.lineCount, readOn_of_nil turn _ h⟩
  | cons record rest ih =>
    rw [readOn_of_cons turn _ h, hturn, List.foldlM_cons]
    cases hread : read state record with
    | error result => exact ⟨record.line + 1, rfl⟩
    | ok next =>
      obtain ⟨line, hline⟩ := ih next _ (read_of_cons h).2
      exact ⟨line, hline⟩

end Log

namespace Scan

-- What a survey knows so far, with the listener that it was given.
structure Survey where
  clock : LooseClock
  report : Report
  listener : Listener

namespace Survey

def unsound (survey : Survey) : Survey :=
  { survey with report := { survey.report with invalid := survey.report.invalid + 1 } }

def sound (survey : Survey) : Survey :=
  { survey with report := { survey.report with valid := survey.report.valid + 1 } }

def timestamped (survey : Survey) : Survey :=
  { survey with report := { survey.report with timestamped := survey.report.timestamped + 1 } }

-- Playback starts at the first instant.
def date (instant : Instant) (survey : Survey) : Survey :=
  let clock := { survey.clock with last := some instant }
  let clock := if clock.first.isNone then { clock with first := some instant, current := some instant } else clock
  { survey with clock := { clock with timed := true } }

def sight (sighting : Sighting) (survey : Survey) : Survey :=
  { survey with clock := { survey.clock with
    inventory := Inventory.sight survey.clock.inventory sighting.source sighting.instant } }

-- With the instant of the last row that had one.
def readRow (columns : Columns) (record : Record) (_ : Log) :
    Option Instant × Survey → Except Failure (Option Instant × Survey)
  | (previous, survey) =>
    match columns.row? record.text with
    | none => .ok (previous, survey.unsound)
    | some row =>
      match row.timestamp with
      | none => .ok (previous, survey.sound)
      | some instant =>
        match previous.filter (instant < ·) with
        | some previous => .error (.notChronological previous instant)
        | none => .ok (some instant, (survey.sound.date instant).timestamped)

def readSentence (record : Record) (_ : Log) (survey : Survey) : Except Failure Survey :=
  match Header.read? record.text with
  | none => .ok survey.unsound
  | some header =>
    match header.kind? with
    | none => .ok survey.sound
    | some _ =>
      match survey.listener.hear record.text with
      | (none, listener) => .ok { survey.sound with listener }
      | (some sighting, listener) => .ok { (survey.sound.sight sighting).timestamped with listener }

-- Without a primary source neither the clock nor the listener is touched.
def settle (lockPrimary : Bool) (survey : Survey) : Except Failure Survey :=
  if survey.report.valid = 0 then .error .noSentence
  else
    match primaryOf survey.clock.inventory with
    | none => .ok survey
    | some (primary, details) =>
      let clock := { survey.clock with
        first := some details.start, current := some details.start, last := some details.latest, timed := true }
      let listener := if lockPrimary then survey.listener.lockedTo primary else survey.listener.unlocked
      .ok { survey with listener, clock := { clock with primary := some primary } }

def readData (lockPrimary : Bool) (layout : Layout) (survey : Survey) (log : Log) : Except Failure Survey × Log :=
  match layout with
  | .table columns =>
    let (found, log) := log.readOn (readRow columns) (none, survey)
    (found.map (·.2), log)
  | .sentences =>
    let (found, log) := log.readOn readSentence survey
    (found.bind (settle lockPrimary), log)

def conclude (layout : Layout) (dataStart : Nat) : Except Failure Survey × Log → Except Failure Survey × Log
  | (.error failure, log) => (.error failure, log.moveTo 0)
  | (.ok survey, log) =>
    let report := { survey.report with isTable := layout.isTable, isTimed := survey.clock.isTimed }
    (.ok { survey with report }, log.moveTo dataStart)

end Survey

end Scan

open Scan

-- A scan with the cursor and the listener that it is given, whatever they have been used for.
def Log.survey (lockPrimary : Bool) (listener : Listener) (log : Log) : Except Failure Survey × Log :=
  let survey : Survey := ⟨LooseClock.unknown, Report.empty, listener.undated.unlocked⟩
  match log.detectLayout with
  | (none, atEnd) => (.ok survey, atEnd.moveTo 0)
  | (some (layout, dataStart), log) =>
    let clock := { survey.clock with layout := some layout, dataStart }
    Survey.conclude layout dataStart (Survey.readData lockPrimary layout { survey with clock } log)

namespace Scan

-- The counts without what is added to them in the end.
def Tally.counted (tally : Tally) : Report := ⟨false, false, tally.valid, tally.invalid, tally.timestamped⟩

def Rows.survey (columns : Columns) (dataStart : Nat) (rows : Rows) : Option Instant × Survey :=
  (rows.ends.map (·.2),
    ⟨(outcomeOfTable columns dataStart rows).clock.loosened, rows.tally.counted, Listener.fresh⟩)

def Sentences.survey (dataStart : Nat) (state : Sentences) : Survey :=
  ⟨Clock.loosened ⟨some .sentences, dataStart, none, none, state.inventory⟩, state.tally.counted, state.listener⟩

def Outcome.survey (outcome : Outcome) : Survey := ⟨outcome.clock.loosened, outcome.report, outcome.listener⟩

theorem Survey.readRow_survey (columns : Columns) (dataStart : Nat) (record : Record) (further : Log) (rows : Rows) :
    Survey.readRow columns record further (rows.survey columns dataStart) =
      (rows.read columns record).map (Rows.survey columns dataStart) := by
  obtain ⟨tally, ends⟩ := rows
  cases hrow : columns.row? record.text with
  | none =>
    simp only [Survey.readRow, Rows.read, hrow, Rows.survey]
    rfl
  | some row =>
    cases hinstant : row.timestamp with
    | none =>
      simp only [Survey.readRow, Rows.read, hrow, hinstant, Rows.survey]
      rfl
    | some instant =>
      cases ends with
      | none =>
        simp only [Survey.readRow, Rows.read, hrow, hinstant, Rows.survey]
        rfl
      | some ends =>
        obtain ⟨first, previous⟩ := ends
        by_cases hback : instant < previous
        · simp only [Survey.readRow, Rows.read, hrow, hinstant, Rows.survey, Option.map_some, Option.filter_some,
            hback, decide_true, if_true]
          rfl
        · simp only [Survey.readRow, Rows.read, hrow, hinstant, Rows.survey, Option.map_some, Option.filter_some,
            hback, decide_false, if_false]
          rfl

theorem Survey.readSentence_survey (dataStart : Nat) (record : Record) (further : Log) (state : Sentences) :
    Survey.readSentence record further (state.survey dataStart) = .ok ((state.read record).survey dataStart) := by
  cases hheader : Header.read? record.text with
  | none =>
    simp only [Survey.readSentence, Sentences.read, hheader]
    rfl
  | some header =>
    cases hkind : header.kind? with
    | none =>
      simp only [Survey.readSentence, Sentences.read, hheader, hkind]
      rfl
    | some kind =>
      have hlistener : (state.survey dataStart).listener = state.listener := rfl
      simp only [Survey.readSentence, Sentences.read, hheader, hkind, hlistener]
      rcases state.listener.hear record.text with ⟨_ | sighting, listener⟩ <;> rfl

-- Hearing sets no lock.
theorem lock_sentences (records : List Record) : (sentences records).listener.lock = none := by
  have hkept : ∀ state : Sentences, (records.foldl Sentences.read state).listener.lock = state.listener.lock := by
    induction records with
    | nil => exact fun _ => rfl
    | cons record rest ih =>
      intro state
      rw [List.foldl_cons, ih, Sentences.listener_read]
      by_cases hsound : isSound record.text
      · rw [if_pos hsound, Listener.after_hear]
      · rw [if_neg hsound]
  exact hkept _

theorem settle_survey (lockPrimary : Bool) (dataStart : Nat) {state : Sentences} (hlock : state.listener.lock = none) :
    (state.survey dataStart).settle lockPrimary =
      if state.tally.valid = 0 then .error .noSentence
      else .ok { (outcomeOfSentences lockPrimary dataStart state).survey with report := state.tally.counted } := by
  have hvalid : (state.survey dataStart).report.valid = state.tally.valid := rfl
  have hinventory : (state.survey dataStart).clock.inventory = state.inventory := rfl
  unfold Survey.settle
  rw [hvalid, hinventory]
  by_cases hnone : state.tally.valid = 0
  · rw [if_pos hnone, if_pos hnone]
  rw [if_neg hnone, if_neg hnone]
  obtain ⟨tally, inventory, listener⟩ := state
  obtain ⟨date, lock⟩ := listener
  obtain rfl : lock = none := hlock
  cases hprimary : primaryOf inventory with
  | none =>
    simp only [outcomeOfSentences, Outcome.survey, hprimary]
    cases lockPrimary <;> rfl
  | some found =>
    simp only [outcomeOfSentences, Outcome.survey, hprimary]
    cases lockPrimary <;> rfl

-- What is read by cursor is what the record list holds from there on.
theorem readData_table (lockPrimary : Bool) (columns : Columns) (dataStart : Nat) (log : Log) :
    ∃ line, Survey.readData lockPrimary (.table columns) ((⟨Tally.zero, none⟩ : Rows).survey columns dataStart).2 log =
      ((table columns log.unread).map fun rows => (rows.survey columns dataStart).2, log.moveTo line) := by
  obtain ⟨line, hline⟩ := Log.readOn_map (Rows.survey columns dataStart) (Rows.read columns)
    (Survey.readRow_survey columns dataStart) ⟨Tally.zero, none⟩ log
  refine ⟨line, ?_⟩
  have hstart : (⟨Tally.zero, none⟩ : Rows).survey columns dataStart =
      (none, ((⟨Tally.zero, none⟩ : Rows).survey columns dataStart).2) := rfl
  rw [hstart] at hline
  simp only [Survey.readData, hline, table]
  cases log.unread.foldlM (Rows.read columns) ⟨Tally.zero, none⟩ <;> rfl

theorem readData_sentences (lockPrimary : Bool) (dataStart : Nat) (log : Log) :
    ∃ line, Survey.readData lockPrimary .sentences
        ((⟨Tally.zero, [], Listener.fresh⟩ : Sentences).survey dataStart) log =
      (((sentences log.unread).survey dataStart).settle lockPrimary, log.moveTo line) := by
  obtain ⟨line, hline⟩ := Log.readOn_map (Sentences.survey dataStart)
    (fun state record => (pure (state.read record) : Except Failure Sentences))
    (Survey.readSentence_survey dataStart) ⟨Tally.zero, [], Listener.fresh⟩ log
  refine ⟨line, ?_⟩
  rw [List.foldlM_pure] at hline
  simp only [Survey.readData, hline]
  rfl

-- The scan of the record list is the scan by cursor, in its result and where it leaves the cursor.
theorem survey_eq (lockPrimary : Bool) (listener : Listener) (log : Log) :
    log.survey lockPrimary listener = ((log.scan lockPrimary).1.map Outcome.survey, (log.scan lockPrimary).2) := by
  cases hrecords : log.recording.records with
  | nil =>
    simp only [Log.survey, Log.detectLayout_of_nil hrecords, Log.scan, ofRecording, hrecords]
    rfl
  | cons first rest =>
    have hdetect := Log.detectLayout_of_cons hrecords
    rcases hlayout : Layout.ofFirst first with ⟨_ | columns, dataStart⟩
    · rw [hlayout] at hdetect
      obtain ⟨line, hread⟩ := readData_sentences lockPrimary dataStart (log.moveTo dataStart)
      rw [settle_survey lockPrimary dataStart (lock_sentences _), Log.unread_moveTo] at hread
      have hsurvey : log.survey lockPrimary listener = Survey.conclude .sentences dataStart
          (Survey.readData lockPrimary .sentences
            ((⟨Tally.zero, [], Listener.fresh⟩ : Sentences).survey dataStart) (log.moveTo dataStart)) := by
        simp only [Log.survey, hdetect]
        rfl
      rw [hsurvey, hread]
      simp only [Log.scan, ofRecording, hrecords, hlayout]
      by_cases hvalid : (sentences (log.recording.recordsAt dataStart)).tally.valid = 0
      · rw [if_pos hvalid, if_pos hvalid]
        rfl
      · rw [if_neg hvalid, if_neg hvalid]
        simp only [Survey.conclude, Outcome.survey, Clock.isTimed_loosened]
        rfl
    · rw [hlayout] at hdetect
      obtain ⟨line, hread⟩ := readData_table lockPrimary columns dataStart (log.moveTo dataStart)
      rw [Log.unread_moveTo] at hread
      have hsurvey : log.survey lockPrimary listener = Survey.conclude (.table columns) dataStart
          (Survey.readData lockPrimary (.table columns)
            ((⟨Tally.zero, none⟩ : Rows).survey columns dataStart).2 (log.moveTo dataStart)) := by
        simp only [Log.survey, hdetect]
        rfl
      rw [hsurvey, hread]
      simp only [Log.scan, ofRecording, hrecords, hlayout]
      cases table columns (log.recording.recordsAt dataStart) with
      | error failure => rfl
      | ok rows =>
        simp only [Except.map, Survey.conclude, Rows.survey, Clock.isTimed_loosened]
        rfl

end Scan

end VoyageLog
