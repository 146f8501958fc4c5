import VoyageLog.Recording.Clock
import VoyageLog.TimeSource.Listener

namespace VoyageLog

open TimeSource

structure Scan.Report where
  isTable : Bool
  isTimed : Bool
  valid : Nat
  invalid : Nat
  timestamped : Nat
deriving DecidableEq

-- Why a recording cannot be opened or scanned.
inductive Scan.Failure
  | unreadable (path : String) (cause : String)
  | notLoaded
  | noSentence
  | notChronological (previous current : Instant)
deriving DecidableEq

namespace Scan

def Failure.message : Failure → String
  | unreadable path _ => "Failed to open file: " ++ path
  | notLoaded => "File not open"
  | noSentence => "Invalid file"
  | notChronological _ _ => "Timestamps not in chronological order"

def Report.empty : Report := ⟨false, false, 0, 0, 0⟩

-- How many records are sound, how many are not, and how many tell an instant.
structure Tally where
  valid : Nat
  invalid : Nat
  timestamped : Nat
deriving DecidableEq

def Tally.zero : Tally := ⟨0, 0, 0⟩

-- What the rows so far amount to, with their first and last instant.
structure Rows where
  tally : Tally
  ends : Option (Instant × Instant)

def Rows.read (columns : Columns) (rows : Rows) (record : Record) : Except Failure Rows :=
  match columns.row? record.text with
  | none => .ok { rows with tally := { rows.tally with invalid := rows.tally.invalid + 1 } }
  | some row =>
    let tally := { rows.tally with valid := rows.tally.valid + 1 }
    match row.timestamp, rows.ends with
    | none, ends => .ok ⟨tally, ends⟩
    | some instant, none => .ok ⟨{ tally with timestamped := tally.timestamped + 1 }, some (instant, instant)⟩
    | some instant, some (first, previous) =>
      if instant < previous then .error (.notChronological previous instant)
      else .ok ⟨{ tally with timestamped := tally.timestamped + 1 }, some (first, instant)⟩

def table (columns : Columns) (records : List Record) : Except Failure Rows :=
  records.foldlM (Rows.read columns) ⟨Tally.zero, none⟩

-- What the sentences so far amount to, with the listener that heard them.
structure Sentences where
  tally : Tally
  inventory : Inventory
  listener : Listener

-- Only a sound sentence of a kind that tells the time is asked for it.
def Sentences.read (state : Sentences) (record : Record) : Sentences :=
  match Sentence.Header.read? record.text with
  | none => { state with tally := { state.tally with invalid := state.tally.invalid + 1 } }
  | some header =>
    let tally := { state.tally with valid := state.tally.valid + 1 }
    match header.kind? with
    | none => { state with tally }
    | some _ =>
      match state.listener.hear record.text with
      | (none, listener) => { state with tally, listener }
      | (some sighting, listener) =>
        ⟨{ tally with timestamped := tally.timestamped + 1 },
          Inventory.sight state.inventory sighting.source sighting.instant, listener⟩

def sentences (records : List Record) : Sentences :=
  records.foldl Sentences.read ⟨Tally.zero, [], Listener.fresh⟩

def Tally.report (tally : Tally) (clock : Clock) : Report :=
  ⟨clock.isTable, clock.isTimed, tally.valid, tally.invalid, tally.timestamped⟩

-- What a successful scan finds: the clock, the counts, and the listener as the scan leaves it.
structure Outcome where
  clock : Clock
  report : Report
  listener : Listener

def outcomeOfTable (columns : Columns) (dataStart : Nat) (rows : Rows) : Outcome :=
  let timeline := rows.ends.map fun (first, last) => ⟨first, last, first⟩
  let clock : Clock := ⟨some (.table columns), dataStart, timeline, none, []⟩
  ⟨clock, rows.tally.report clock, Listener.fresh⟩

-- The primary source and its details.
def primaryOf (inventory : Inventory) : Option (TimeSource × Details) := do
  let source ← inventory.primary?
  some (source, ← inventory.get? source)

def outcomeOfSentences (lockPrimary : Bool) (dataStart : Nat) (read : Sentences) : Outcome :=
  let primary := primaryOf read.inventory
  let timeline := primary.map fun (_, details) => ⟨details.start, details.latest, details.start⟩
  let clock : Clock := ⟨some .sentences, dataStart, timeline, primary.map (·.1), read.inventory⟩
  let lock := if lockPrimary then primary.map (·.1) else none
  ⟨clock, read.tally.report clock, { read.listener with lock }⟩

-- A recording without records is no failure: there is just nothing to know.
def ofRecording (lockPrimary : Bool) (recording : Recording) : Except Failure Outcome :=
  match recording.records with
  | [] => .ok ⟨Clock.unknown, Report.empty, Listener.fresh⟩
  | first :: _ =>
    match Layout.ofFirst first with
    | (.table columns, dataStart) =>
      (table columns (recording.recordsAt dataStart)).map (outcomeOfTable columns dataStart)
    | (.sentences, dataStart) =>
      let read := sentences (recording.recordsAt dataStart)
      if read.tally.valid = 0 then .error .noSentence
      else .ok (outcomeOfSentences lockPrimary dataStart read)

end Scan

-- A scan leaves the cursor where the data starts, or at the first line if it fails. A `survey` gets there with the
-- cursor and a listener that it is given.
def Log.scan (log : Log) (lockPrimary : Bool) : Except Scan.Failure Scan.Outcome × Log :=
  match Scan.ofRecording lockPrimary log.recording with
  | .error failure => (.error failure, log.moveTo 0)
  | .ok outcome => (.ok outcome, log.moveTo outcome.clock.dataStart)

end VoyageLog
