import VoyageLog.Sentence.Header
import VoyageLog.Sentence.UtcTime
import VoyageLog.TimeSource.Basic

namespace VoyageLog.TimeSource

open Sentence

structure Sighting where
  source : TimeSource
  instant : Instant
deriving DecidableEq

-- A date and a time of day, either of which may not be known.
structure DateAndTime where
  date : Option Date
  time : Option TimeOfDay
deriving DecidableEq

namespace DateAndTime

def isKnown (told : DateAndTime) : Bool := told.date.isSome && told.time.isSome

def instant? (told : DateAndTime) : Option Instant := do
  some (Instant.onDate (← told.date) (← told.time))

end DateAndTime

-- What the fields of a sentence tell.
structure Telling where
  utc : UtcTime
  date : Option Date

-- The fields that a kind of sentence keeps its time and date in.
def Telling.read? (kind : Kind) (fields : List Text) : Option Telling := do
  match kind with
  | .rmc =>
    let utc ← UtcTime.read? (← fields[1]?)
    let date ← dayMonthYear? (← fields[9]?)
    some ⟨utc, some date⟩
  | .zda =>
    let utc ← UtcTime.read? (← fields[1]?)
    let date ← separateDate? (← fields[2]?) (← fields[3]?) (← fields[4]?)
    some ⟨utc, some date⟩
  | .gll => some ⟨← UtcTime.read? (← fields[5]?), none⟩
  | .gga | .gbs => some ⟨← UtcTime.read? (← fields[1]?), none⟩

-- The last date told, and the only source to heed, if there is one.
structure Listener where
  date : Option Date
  lock : Option TimeSource
deriving DecidableEq

namespace Listener

def fresh : Listener := ⟨none, none⟩

def undated (listener : Listener) : Listener := { listener with date := none }

def lockedTo (listener : Listener) (source : TimeSource) : Listener :=
  { listener with lock := some source }

def unlocked (listener : Listener) : Listener := { listener with lock := none }

-- Takes a sentence for one of a given kind. A date that it tells is kept.
def hearAs (listener : Listener) (kind : Kind) (sentence : Text) : Option (Instant × Nat) × Listener :=
  match Telling.read? kind (fields sentence) with
  | none => (none, listener)
  | some telling =>
    let told : DateAndTime := ⟨telling.date <|> listener.date, some telling.utc.time⟩
    (told.instant?.map fun instant => (instant, telling.utc.precision), { listener with date := told.date })

-- Any source is heard.
def hear (listener : Listener) (sentence : Text) : Option Sighting × Listener :=
  match Address.ofParametric? sentence with
  | none => (none, listener)
  | some address =>
    match Kind.ofCode? address.code with
    | none => (none, listener)
    | some kind =>
      let (found, next) := listener.hearAs kind sentence
      (found.map fun (instant, precision) => ⟨⟨address.talker, kind, precision⟩, instant⟩, next)

def heeds (listener : Listener) (source : TimeSource) : Bool :=
  match listener.lock with
  | none => true
  | some only => only = source

-- A sentence that is heard but not heeded still leaves its date behind.
def heed (listener : Listener) (sentence : Text) : Option Sighting × Listener :=
  let (found, next) := listener.hear sentence
  (found.filter fun sighting => listener.heeds sighting.source, next)

end Listener

end VoyageLog.TimeSource
