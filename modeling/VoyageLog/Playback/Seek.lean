import VoyageLog.Playback.Player

namespace VoyageLog.Player

open TimeSource

-- A target beyond the calendar is out of range.
inductive SeekAnswer
  | refused
  | moved
  | outOfRange
deriving DecidableEq

-- Where a seek lands.
structure Landing where
  line : Nat
  instant : Option Instant
  listener : Listener

def instantOf (layout : Option Layout) (listener : Listener) (record : Record) :
    Option Instant × Listener :=
  match layout with
  | some (.table columns) => ((columns.row? record.text).bind (·.timestamp), listener)
  | _ =>
    let (found, next) := listener.heed record.text
    (found.map (·.instant), next)

-- Reads on to the first record that is not before the target.
def searchOn (layout : Option Layout) (target : Instant) (listener : Listener) (log : Log) :
    Option Landing × Log :=
  match _ : log.read with
  | (none, atEnd) => (none, atEnd)
  | (some record, further) =>
    match instantOf layout listener record with
    | (some instant, heard) =>
      if target ≤ instant then (some ⟨record.line, some instant, heard⟩, further)
      else searchOn layout target heard further
    | (none, heard) => searchOn layout target heard further
termination_by log.lineCount - log.next
decreasing_by
  all_goals
    apply Log.left_lt_of_read
    assumption

-- A share of a span, to the nearest millisecond, in nanoseconds.
def shareOfSpan (span : Int) (fraction : Binary64) : Int :=
  (Binary64.ofInt (wholeMilliseconds span) * fraction).round * 1000000

def seekTarget? (timeline : Timeline) (fraction : Binary64) : Option Instant :=
  timeline.first.add? (shareOfSpan timeline.span fraction)

def lineOfShare (lineCount : Nat) (fraction : Binary64) : Nat :=
  (fraction * Binary64.ofNat lineCount).round.toNat

-- A search by time starts at the data without a date, as playback from there does, and puts the cursor back.
def search (target : Instant) (log : Log) (player : Player) : Option Landing × Log :=
  let (found, searched) :=
    searchOn player.clock.layout target player.listener.undated (log.moveTo player.clock.dataStart)
  (found, searched.moveTo log.next)

-- What a seek comes to, and the cursor after looking for it.
def lookUp (fraction : Binary64) (log : Log) (player : Player) : Except SeekAnswer Landing × Log :=
  match player.clock.timeline with
  | some timeline =>
    match seekTarget? timeline fraction with
    | none => (.error .outOfRange, log)
    | some target =>
      match player.search target log with
      | (none, log) => (.error .refused, log)
      | (some landing, log) => (.ok landing, log)
  | none =>
    if log.lineCount = 0 then (.error .refused, log)
    else
      (.ok ⟨max (lineOfShare log.lineCount fraction) player.clock.dataStart, none, player.listener⟩, log)

def isSeekable (player : Player) : Bool :=
  player.state = .idle || player.state = .playing || player.state = .paused

def land (now : Nat) (landing : Landing) (log : Log) (player : Player) : Step :=
  (disarm { player with listener := landing.listener }).andThen fun player =>
    let player :=
      { player with
        held := [], log := some (log.moveTo landing.line),
        clock := match landing.instant with
          | some instant => player.clock.withCurrent instant
          | none => player.clock }
    (if player.state = .playing then (player.rebase now).arm 0 else quietly player).andThen announce

def seek (now : Nat) (fraction : Binary64) (player : Player) : SeekAnswer × Step :=
  match player.log with
  | none => (.refused, quietly player)
  | some log =>
    if fraction.within (Binary64.Finite.zero false) Binary64.Finite.one && player.isSeekable then
      match player.lookUp fraction log with
      | (.error answer, log) => (answer, quietly { player with log := some log })
      | (.ok landing, log) => (.moved, land now landing log player)
    else (.refused, quietly player)

end VoyageLog.Player
