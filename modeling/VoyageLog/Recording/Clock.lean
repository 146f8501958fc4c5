import VoyageLog.Recording.Layout
import VoyageLog.TimeSource.Inventory

namespace VoyageLog

-- The first and last instant of a recording and the one that playback has reached.
structure Timeline where
  first : Instant
  last : Instant
  current : Instant
deriving DecidableEq

-- A timeline is there exactly if playback can follow it. A `LooseClock` has its instants one by one.
structure Clock where
  layout : Option Layout
  dataStart : Nat
  timeline : Option Timeline
  primary : Option TimeSource
  inventory : TimeSource.Inventory
deriving DecidableEq

namespace Timeline

def span (timeline : Timeline) : Int := timeline.last.since timeline.first

def elapsed (timeline : Timeline) : Int := timeline.current.since timeline.first

end Timeline

namespace Clock

def unknown : Clock := ⟨none, 0, none, none, []⟩

def isTable (clock : Clock) : Bool :=
  match clock.layout with
  | some layout => layout.isTable
  | none => false

def isTimed (clock : Clock) : Bool := clock.timeline.isSome

def current? (clock : Clock) : Option Instant := clock.timeline.map (·.current)

def withCurrent (clock : Clock) (instant : Instant) : Clock :=
  { clock with timeline := clock.timeline.map fun timeline => { timeline with current := instant } }

def backToFirst (clock : Clock) : Clock :=
  { clock with timeline := clock.timeline.map fun timeline => { timeline with current := timeline.first } }

end Clock

end VoyageLog
