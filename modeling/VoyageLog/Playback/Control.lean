import VoyageLog.Playback.Tick

namespace VoyageLog.Player

open TimeSource

def reset (player : Player) : Step :=
  player.disarm.andThen fun player =>
    quietly { player with
      log := none, clock := Clock.unknown, listener := Listener.fresh, state := .idle, held := [],
      anchor := none }

def load (recording : Recording) (player : Player) : Step :=
  player.reset.andThen fun player => announce { player with log := some (Log.start recording) }

def loadFailed (player : Player) : Step :=
  player.reset.andThen fun player => announce { player with state := .error }

-- A scanned recording stands at its first record, where no date is known.
def scan (player : Player) : Except Scan.Failure Scan.Report × Step :=
  let cleared := player.disarm.andThen fun player =>
    quietly { player with held := [], anchor := none, clock := Clock.unknown }
  match cleared.player.log with
  | none => (.error .notLoaded, cleared)
  | some log =>
    match log.scan cleared.player.lockPrimary with
    | (.ok outcome, log) =>
      (.ok outcome.report, cleared.andThen fun player =>
        announce { player with
          log := some log, clock := outcome.clock, listener := outcome.listener.undated,
          state := .idle })
    | (.error failure, log) =>
      (.error failure, cleared.andThen fun player =>
        announce { player with log := some log, listener := Listener.fresh, state := .error })

-- A player that was never told the layout looks for it, so that no header is played.
def withLayout (player : Player) : Player :=
  match player.clock.layout, player.log with
  | none, some log =>
    match log.detectLayout with
    | (some (layout, dataStart), found) =>
      { player with
        log := some (found.moveTo (max log.next dataStart)),
        clock := { player.clock with layout := some layout, dataStart } }
    | (none, found) => { player with log := some (found.moveTo log.next) }
  | _, _ => player

-- One look at the wall ties playback to it and serves the first tick; `startLate` takes two.
def start (now : Nat) (player : Player) : Step :=
  if (player.state = .idle ∨ player.state = .paused) ∧ player.log.isSome then
    (announce (rebase now { player.withLayout with state := .playing })).andThen (tick now)
  else quietly player

def pause (player : Player) : Step :=
  if player.state = .playing then
    player.disarm.andThen fun player => announce { player with state := .paused }
  else quietly player

-- Back to the first record, where no date is known.
def stop (player : Player) : Step :=
  if player.state = .playing ∨ player.state = .paused then
    player.disarm.andThen fun player =>
      announce { player with
        held := [], anchor := none, log := player.log.map (·.moveTo player.clock.dataStart),
        listener := player.listener.undated, clock := player.clock.backToFirst, state := .idle }
  else quietly player

-- Only the token that is waited for has a say.
def wake (now : Nat) (token : Token) (player : Player) : Step :=
  if player.pending = some token then tick now { player with pending := none } else quietly player

-- A playing player plans its next record anew.
def setSpeed (now : Nat) (number : Binary64) (player : Player) : Step :=
  match Speed.ofNumber? number with
  | none => quietly player
  | some speed =>
    let player := { player with speed }
    if player.state = .playing then
      let player := player.rebase now
      (player.arm (if player.isTimed then 0 else speed.secondOnWall)).andThen announce
    else announce player

end VoyageLog.Player
