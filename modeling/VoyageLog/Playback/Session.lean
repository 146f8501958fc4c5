import VoyageLog.Playback.Command

namespace VoyageLog

open Player

structure Session where
  player : Player
  timer : ManualTimer
  wall : Nat

namespace Session

def new (config : Config) : Session := ⟨Player.new config, ManualTimer.fresh, 0⟩

def applyEffect (timer : ManualTimer) : Effect → ManualTimer
  | .wake _ delay => (timer.schedule delay).2
  | .cancel token => timer.cancel token
  | .emit _ | .update _ => timer

def advance (session : Session) (nanoseconds : Nat) : Session :=
  { session with wall := session.wall + nanoseconds }

def perform (session : Session) (command : Command) : Answer × Session × List Effect :=
  let (answer, step) := command.run session.wall session.player
  (answer, { session with player := step.player, timer := step.effects.foldl applyEffect session.timer },
    step.effects)

-- Delivers the pending token without waiting for it.
def deliver (session : Session) : Option (Session × List Effect) :=
  match session.timer.fire with
  | (none, _) => none
  | (some token, timer) => some (perform { session with timer } (.wake token)).2

-- Delivers the pending token so long after it is due.
def fire (session : Session) (late : Nat) : Option (Session × List Effect) :=
  (session.advance (session.timer.pendingDelay?.getD 0 + late)).deliver

-- Plays on with every token delivered in time, for so many deliveries at most.
def playOut : Nat → Session → List Effect
  | 0, _ => []
  | deliveries + 1, session =>
    match session.fire 0 with
    | none => []
    | some (next, effects) => effects ++ playOut deliveries next

end Session

end VoyageLog
