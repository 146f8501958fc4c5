import VoyageLog.Playback.Player

namespace VoyageLog.Player

open TimeSource

-- What a record has to say and when, if it is readable and paces playback.
structure Reading where
  payload : Text
  instant : Option Instant

def Reading.ofRecord (layout : Option Layout) (timed : Bool) (listener : Listener) (record : Record) :
    Option Reading × Listener :=
  match layout with
  | some (.table columns) =>
    ((columns.row? record.text).map fun row =>
      ⟨row.message, if timed then row.timestamp else none⟩, listener)
  | _ =>
    if timed then
      let (found, next) := listener.heed record.text
      (some ⟨record.text, found.map (·.instant)⟩, next)
    else (some ⟨record.text, none⟩, listener)

-- The oldest record gives way.
def hold (record : Text) (player : Player) : Player :=
  let grown := player.held ++ [record]
  { player with held := if player.capacity < grown.length then grown.tail else grown }

-- Nanoseconds from now until an instant of the recording is due. What is due has to wait no longer.
def delayUntil? (now : Nat) (instant : Instant) (player : Player) : Option Nat :=
  match player.anchor, player.clock.timeline with
  | some anchor, some timeline =>
    let lead := player.speed.wallMicroseconds (instant.since timeline.first - anchor.offset)
    if lead < 0 then none
    else
      let due := anchor.wall + lead.toNat * 1000
      if now < due then some (due - now) else none
  | _, _ => none

-- The player after one record, and the delay if it has to wait for the next one.
def take (now : Nat) (record : Record) (player : Player) : Player × Option Nat :=
  match Reading.ofRecord player.clock.layout player.isTimed player.listener record with
  | (none, listener) => ({ player with listener }, none)
  | (some reading, listener) =>
    let player := hold reading.payload { player with listener }
    match reading.instant with
    | some instant =>
      ({ player with clock := player.clock.withCurrent instant }, delayUntil? now instant player)
    | none =>
      (player,
        if !player.isTimed && batchSize ≤ player.held.length then some player.speed.secondOnWall
        else none)

-- The player after as many records as it can take without waiting, and where and how long it waits.
def takeAll (now : Nat) : List Record → Player → Player × Option (Nat × Nat)
  | [], player => (player, none)
  | record :: rest, player =>
    match player.take now record with
    | (player, some delay) => (player, some (record.line + 1, delay))
    | (player, none) => takeAll now rest player

def finish (player : Player) : Step :=
  player.flush.andThen fun player => player.disarm.andThen fun player =>
    announce { player with state := .atEnd }

-- Sends out all that is due, and then waits or ends.
def playOn (now : Nat) (log : Log) (player : Player) : Step :=
  match player.takeAll now log.unread with
  | (player, none) => finish { player with log := some (log.moveTo log.lineCount) }
  | (player, some (line, delay)) =>
    (flush { player with log := some (log.moveTo line) }).andThen fun player =>
      (player.arm delay).andThen announce

def tick (now : Nat) (player : Player) : Step :=
  if player.state = .playing then
    player.disarm.andThen fun player =>
      match player.log with
      | none => player.finish
      | some log => player.playOn now log
  else quietly player

end VoyageLog.Player
