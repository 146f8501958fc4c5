import VoyageLog.Playback.Config
import VoyageLog.Playback.Speed
import VoyageLog.Playback.Timer
import VoyageLog.Recording.Scan

namespace VoyageLog

open TimeSource

namespace Player

inductive State
  | idle
  | playing
  | paused
  | atEnd
  | error
deriving DecidableEq

-- When the wall showed `wall`, in nanoseconds from any fixed origin, playback was `offset` of them into the recording.
structure Anchor where
  wall : Nat
  offset : Int
deriving DecidableEq

structure Status where
  state : State
  progress : Binary64
  current : Option Instant
deriving DecidableEq

inductive Effect
  | emit (record : Text)
  | update (status : Status)
  | wake (token : Token) (delay : Nat)
  | cancel (token : Token)

def emitted : List Effect → List Text
  | [] => []
  | .emit record :: rest => record :: emitted rest
  | _ :: rest => emitted rest

end Player

open Player

structure Player where
  speed : Speed
  lockPrimary : Bool
  capacity : Nat
  log : Option Log
  clock : Clock
  listener : Listener
  state : State
  held : List Text
  anchor : Option Anchor
  pending : Option Token
  issued : Nat

namespace Player

structure Step where
  player : Player
  effects : List Effect

def Step.andThen (step : Step) (next : Player → Step) : Step :=
  let after := next step.player
  ⟨after.player, step.effects ++ after.effects⟩

def quietly (player : Player) : Step := ⟨player, []⟩

def batchSize : Nat := 10

-- A batch always fits.
def new (config : Config) : Player where
  speed := (Speed.ofNumber? config.speed).getD Speed.realTime
  lockPrimary := config.lockPrimary
  capacity := max config.capacity batchSize
  log := none
  clock := Clock.unknown
  listener := Listener.fresh
  state := .idle
  held := []
  anchor := none
  pending := none
  issued := 0

def isTimed (player : Player) : Bool := player.clock.isTimed

-- The share of a part in a whole, both whole numbers.
def share (part whole : Int) : Binary64 :=
  (Binary64.ofInt part / Binary64.ofInt whole).clamp (Binary64.Finite.zero false) Binary64.Finite.one

def wholeMilliseconds (nanoseconds : Int) : Int := nanoseconds.tdiv 1000000

-- By time where there is a timeline, by lines where there is none.
def progress (player : Player) : Binary64 :=
  match player.clock.timeline, player.log with
  | some timeline, _ =>
    if timeline.span ≤ 0 then Binary64.zero
    else share (wholeMilliseconds timeline.elapsed) (wholeMilliseconds timeline.span)
  | none, some log => if log.lineCount = 0 then Binary64.zero else share log.next log.lineCount
  | none, none => Binary64.zero

def status (player : Player) : Status := ⟨player.state, player.progress, player.clock.current?⟩

def announce (player : Player) : Step := ⟨player, [.update player.status]⟩

def disarm (player : Player) : Step :=
  match player.pending with
  | none => ⟨player, []⟩
  | some token => ⟨{ player with pending := none }, [.cancel token]⟩

def arm (delay : Nat) (player : Player) : Step :=
  player.disarm.andThen fun player =>
    let token := player.issued + 1
    ⟨{ player with pending := some token, issued := token }, [.wake token delay]⟩

def flush (player : Player) : Step := ⟨{ player with held := [] }, player.held.map .emit⟩

-- Ties the instant that playback has reached to the time on the wall.
def rebase (now : Nat) (player : Player) : Player :=
  { player with anchor := player.clock.timeline.map fun timeline => ⟨now, timeline.elapsed⟩ }

end Player

end VoyageLog
