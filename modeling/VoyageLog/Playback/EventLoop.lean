import VoyageLog.Playback.Command

namespace VoyageLog

open Player

structure EventLoop where
  player : Player
  timer : SleepingTimer

namespace EventLoop

def new (config : Config) : EventLoop := ⟨Player.new config, SleepingTimer.fresh⟩

-- Only the loop wakes the player; all other commands can come at any time.
inductive Action
  | operate (now : Nat) (command : Command) (notWake : ∀ token, command ≠ .wake token)
  | elapse (token : Token)
  | deliver (now : Nat)

def ask (timer : SleepingTimer) : Effect → SleepingTimer
  | .wake _ _ => timer.schedule.2
  | .cancel token => timer.cancel token
  | .emit _ | .update _ => timer

-- A step of the player, whose effects the timer sees in their order.
def absorb (timer : SleepingTimer) (step : Step) : EventLoop × List Effect :=
  (⟨step.player, step.effects.foldl ask timer⟩, step.effects)

def act (loop : EventLoop) : Action → EventLoop × List Effect
  | .operate now command _ => absorb loop.timer (command.run now loop.player).2
  | .elapse token => ({ loop with timer := loop.timer.elapse token }, [])
  | .deliver now =>
    match loop.timer.receive with
    | (none, _) => (loop, [])
    | (some token, timer) => absorb timer (loop.player.wake now token)

def run (loop : EventLoop) : List Action → EventLoop × List Effect
  | [] => (loop, [])
  | action :: rest =>
    let (next, effects) := loop.act action
    let (last, later) := next.run rest
    (last, effects ++ later)

end EventLoop

end VoyageLog
