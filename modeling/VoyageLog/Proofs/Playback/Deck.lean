import VoyageLog.Proofs.Playback.Lateness
import VoyageLog.Proofs.Recording.Survey

namespace VoyageLog

open Player Scan TimeSource

-- A player as it is kept field by field: its clock is a loose one, it reads record by record, and it does to the
-- outside at once what it has to do.
structure Deck where
  speed : Speed
  lockPrimary : Bool
  capacity : Nat
  log : Option Log
  clock : LooseClock
  listener : Listener
  state : State
  held : List Text
  anchor : Option Anchor
  pending : Option Token
  issued : Nat
  done : List Effect

namespace Deck

def new (config : Config) : Deck where
  speed := (Speed.ofNumber? config.speed).getD Speed.realTime
  lockPrimary := config.lockPrimary
  capacity := max config.capacity batchSize
  log := none
  clock := LooseClock.unknown
  listener := Listener.fresh
  state := .idle
  held := []
  anchor := none
  pending := none
  issued := 0
  done := []

def isTimed (deck : Deck) : Bool := deck.clock.isTimed

def progress (deck : Deck) : Binary64 :=
  if deck.isTimed then
    match deck.clock.span?, deck.clock.elapsed? with
    | some span, some elapsed =>
      if span ≤ 0 then Binary64.zero else share (wholeMilliseconds elapsed) (wholeMilliseconds span)
    | _, _ => Binary64.zero
  else
    match deck.log with
    | some log => if log.lineCount = 0 then Binary64.zero else share log.next log.lineCount
    | none => Binary64.zero

def status (deck : Deck) : Status := ⟨deck.state, deck.progress, deck.clock.current⟩

def act (effect : Effect) (deck : Deck) : Deck := { deck with done := deck.done ++ [effect] }

def announce (deck : Deck) : Deck := deck.act (.update deck.status)

def disarm (deck : Deck) : Deck :=
  match deck.pending with
  | none => deck
  | some token => act (.cancel token) { deck with pending := none }

def arm (delay : Nat) (deck : Deck) : Deck :=
  let deck := deck.disarm
  let token := deck.issued + 1
  act (.wake token delay) { deck with pending := some token, issued := token }

def flush (deck : Deck) : Deck := { deck with held := [], done := deck.done ++ deck.held.map .emit }

def rebase (now : Nat) (deck : Deck) : Deck :=
  { deck with anchor := deck.clock.elapsed?.map fun offset => ⟨now, offset⟩ }

def hold (record : Text) (deck : Deck) : Deck :=
  let grown := deck.held ++ [record]
  { deck with held := if deck.capacity < grown.length then grown.tail else grown }

def delayUntil? (now : Nat) (instant : Instant) (deck : Deck) : Option Nat :=
  match deck.anchor, deck.clock.first with
  | some anchor, some first =>
    let lead := deck.speed.wallMicroseconds (instant.since first - anchor.offset)
    if lead < 0 then none
    else
      let due := anchor.wall + lead.toNat * 1000
      if now < due then some (due - now) else none
  | _, _ => none

-- One record of a tick, which breaks off when the deck has to wait.
def turn (now : Nat) (record : Record) (further : Log) (deck : Deck) : Except Deck Deck :=
  let deck := { deck with log := some further }
  match Reading.ofRecord deck.clock.layout deck.isTimed deck.listener record with
  | (none, listener) => .ok { deck with listener }
  | (some reading, listener) =>
    let deck := hold reading.payload { deck with listener }
    match reading.instant with
    | some instant =>
      let deck := { deck with clock := { deck.clock with current := some instant } }
      match deck.delayUntil? now instant with
      | some delay => .error (deck.flush.arm delay)
      | none => .ok deck
    | none =>
      if !deck.isTimed && batchSize ≤ deck.held.length then .error (deck.flush.arm deck.speed.secondOnWall)
      else .ok deck

def finish (deck : Deck) : Deck :=
  let deck := deck.flush.disarm
  announce { deck with state := .atEnd }

def playOn (now : Nat) (log : Log) (deck : Deck) : Deck :=
  match log.readOn (turn now) deck with
  | (.error deck, _) => deck.announce
  | (.ok deck, atEnd) => finish { deck with log := some atEnd }

def tick (now : Nat) (deck : Deck) : Deck :=
  if deck.state = .playing then
    let deck := deck.disarm
    match deck.log with
    | none => deck.finish
    | some log => deck.playOn now log
  else deck

def reset (deck : Deck) : Deck :=
  { deck.disarm with
    log := none, clock := LooseClock.unknown, listener := deck.disarm.listener.undated.unlocked, state := .idle,
    held := [], anchor := none }

def load (recording : Recording) (deck : Deck) : Deck :=
  announce { deck.reset with log := some (Log.start recording) }

def loadFailed (deck : Deck) : Deck := announce { deck.reset with state := .error }

def cleared (deck : Deck) : Deck :=
  { deck.disarm with held := [], anchor := none, clock := LooseClock.unknown }

def scan (deck : Deck) : Except Failure Report × Deck :=
  let deck := deck.cleared
  match deck.log with
  | none => (.error .notLoaded, deck)
  | some log =>
    match log.survey deck.lockPrimary deck.listener with
    | (.ok survey, log) =>
      (.ok survey.report, announce { deck with
        log := some log, clock := survey.clock, listener := survey.listener.undated, state := .idle })
    | (.error failure, log) =>
      (.error failure, announce { deck with
        log := some log, listener := deck.listener.undated.unlocked, state := .error })

def withLayout (deck : Deck) : Deck :=
  match deck.clock.layout, deck.log with
  | none, some log =>
    match log.detectLayout with
    | (some (layout, dataStart), found) =>
      { deck with
        log := some (found.moveTo (max log.next dataStart)),
        clock := { deck.clock with layout := some layout, dataStart } }
    | (none, found) => { deck with log := some (found.moveTo log.next) }
  | _, _ => deck

-- Looks at the wall twice.
def start (now later : Nat) (deck : Deck) : Deck :=
  if (deck.state = .idle ∨ deck.state = .paused) ∧ deck.log.isSome then
    tick later (announce (rebase now { deck.withLayout with state := .playing }))
  else deck

def pause (deck : Deck) : Deck :=
  if deck.state = .playing then announce { deck.disarm with state := .paused } else deck

-- The first instant takes the place of the current one, whether there is one or not.
def stop (deck : Deck) : Deck :=
  if deck.state = .playing ∨ deck.state = .paused then
    let deck : Deck := { deck.disarm with held := [], anchor := none }
    let deck : Deck :=
      { deck with log := deck.log.map fun log => log.moveTo deck.clock.dataStart, listener := deck.listener.undated }
    announce { deck with clock := { deck.clock with current := deck.clock.first }, state := .idle }
  else deck

def wake (now : Nat) (token : Token) (deck : Deck) : Deck :=
  if deck.pending = some token then tick now { deck with pending := none } else deck

-- By time: the line and the instant of the first record that is not before the target.
def findTime (fraction : Binary64) (log : Log) (deck : Deck) :
    Except SeekAnswer (Nat × Option Instant) × Deck :=
  match deck.clock.first, deck.clock.span? with
  | some first, some span =>
    match first.add? (shareOfSpan span fraction) with
    | none => (.error .outOfRange, deck)
    | some target =>
      let (found, searched) :=
        searchOn deck.clock.layout target deck.listener.undated (log.moveTo deck.clock.dataStart)
      let deck : Deck := { deck with log := some (searched.moveTo log.next) }
      match found with
      | none => (.error .refused, deck)
      | some landing => (.ok (landing.line, landing.instant), { deck with listener := landing.listener })
  | _, _ => (.error .refused, deck)

def findLine (fraction : Binary64) (log : Log) (deck : Deck) : Except SeekAnswer (Nat × Option Instant) × Deck :=
  if log.lineCount = 0 then (.error .refused, deck)
  else (.ok (max (lineOfShare log.lineCount fraction) deck.clock.dataStart, none), deck)

def replan (now : Nat) (deck : Deck) : Deck :=
  announce (if deck.state = .playing then (deck.rebase now).arm 0 else deck)

-- Only an instant that was found is written.
def land (now line : Nat) (instant : Option Instant) (deck : Deck) : Deck :=
  let deck : Deck := { deck.disarm with held := [] }
  let deck : Deck := { deck with log := deck.log.map fun log => log.moveTo line }
  let deck : Deck := if instant.isSome then { deck with clock := { deck.clock with current := instant } } else deck
  deck.replan now

def isSeekable (deck : Deck) : Bool := deck.state = .idle || deck.state = .playing || deck.state = .paused

def seek (now : Nat) (fraction : Binary64) (deck : Deck) : SeekAnswer × Deck :=
  match deck.log with
  | none => (.refused, deck)
  | some log =>
    if fraction.within (Binary64.Finite.zero false) Binary64.Finite.one && deck.isSeekable then
      match if deck.isTimed then deck.findTime fraction log else deck.findLine fraction log with
      | (.error answer, deck) => (answer, deck)
      | (.ok (line, instant), deck) => (.moved, deck.land now line instant)
    else (.refused, deck)

def setSpeed (now : Nat) (number : Binary64) (deck : Deck) : Deck :=
  match Speed.ofNumber? number with
  | none => deck
  | some speed =>
    let deck := { deck with speed }
    if deck.state = .playing then
      let deck := deck.rebase now
      announce (deck.arm (if deck.isTimed then 0 else speed.secondOnWall))
    else deck.announce

def run (now later : Nat) (deck : Deck) : Command → Answer × Deck
  | .load recording => (.done, deck.load recording)
  | .loadFailed => (.done, deck.loadFailed)
  | .scan =>
    let (outcome, deck) := deck.scan
    (.scanned outcome, deck)
  | .start => (.done, deck.start now later)
  | .pause => (.done, deck.pause)
  | .stop => (.done, deck.stop)
  | .tick => (.done, deck.tick now)
  | .rebase => (.done, deck.rebase now)
  | .wake token => (.done, deck.wake now token)
  | .seek fraction =>
    let (answer, deck) := deck.seek now fraction
    (.sought answer, deck)
  | .setSpeed number => (.done, deck.setSpeed now number)

def handle (deck : Deck) : List SlowOrder → List Answer × Deck
  | [] => ([], deck)
  | order :: rest =>
    let (answer, deck) := deck.run order.now order.later order.command
    let (answers, deck) := deck.handle rest
    (answer :: answers, deck)

end Deck

end VoyageLog
