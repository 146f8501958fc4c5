import Mathlib.Tactic.Convert
import VoyageLog.Proofs.Playback.Landings
import VoyageLog.Proofs.Playback.Step

namespace VoyageLog.Player

open TimeSource

-- A player that may start, made ready for its first tick.
def readied (now : Nat) (player : Player) : Player :=
  rebase now { player.withLayout with state := .playing }

-- A player that a seek has moved, before it asks to be woken.
def landed (landing : Landing) (log : Log) (player : Player) : Player :=
  { player with
    listener := landing.listener, held := [], log := some (log.moveTo landing.line), pending := none,
    clock := match landing.instant with
      | some instant => player.clock.withCurrent instant
      | none => player.clock }

def CanStart (player : Player) : Prop :=
  (player.state = .idle ∨ player.state = .paused) ∧ player.log.isSome

instance (player : Player) : Decidable player.CanStart := inferInstanceAs (Decidable (_ ∧ _))

-- A start that looks at the wall twice: when it ties playback to it, and when it ticks.
def startLate (now later : Nat) (player : Player) : Step :=
  if player.CanStart then (announce (player.readied now)).andThen (tick later) else quietly player

theorem startLate_self (now : Nat) (player : Player) : player.startLate now now = player.start now := rfl

inductive Obeyed (now : Nat) (player : Player) : Command → Answer × Step → Prop
  | load (recording : Recording) :
      Obeyed now player (.load recording) (.done, reporting player.calledOff { player with
        log := some (Log.start recording), clock := Clock.unknown, listener := Listener.fresh,
        state := .idle, held := [], anchor := none, pending := none })
  | loadFailed :
      Obeyed now player .loadFailed (.done, reporting player.calledOff { player with
        log := none, clock := Clock.unknown, listener := Listener.fresh, state := .error, held := [],
        anchor := none, pending := none })
  | scanUnloaded (hlog : player.log = none) :
      Obeyed now player .scan (.scanned (.error .notLoaded), ⟨{ player with
        held := [], anchor := none, clock := Clock.unknown, pending := none }, player.calledOff⟩)
  | scanFailed (log : Log) (hlog : player.log = some log) (failure : Scan.Failure)
      (hscan : Scan.ofRecording player.lockPrimary log.recording = .error failure) :
      Obeyed now player .scan (.scanned (.error failure), reporting player.calledOff { player with
        log := some (log.moveTo 0), clock := Clock.unknown, listener := Listener.fresh, state := .error,
        held := [], anchor := none, pending := none })
  | scan (log : Log) (hlog : player.log = some log) (outcome : Scan.Outcome)
      (hscan : Scan.ofRecording player.lockPrimary log.recording = .ok outcome) :
      Obeyed now player .scan (.scanned (.ok outcome.report), reporting player.calledOff { player with
        log := some (log.moveTo outcome.clock.dataStart), clock := outcome.clock,
        listener := outcome.listener.undated, state := .idle, held := [], anchor := none,
        pending := none })
  | start (hstart : player.CanStart) :
      Obeyed now player .start
        (.done, (announce (player.readied now)).andThen (tick now))
  | startRefused (hstart : ¬player.CanStart) : Obeyed now player .start (.done, quietly player)
  | pause (hstate : player.state = .playing) :
      Obeyed now player .pause (.done, reporting player.calledOff { player with
        state := .paused, pending := none })
  | pauseRefused (hstate : player.state ≠ .playing) :
      Obeyed now player .pause (.done, quietly player)
  | stop (hstate : player.state = .playing ∨ player.state = .paused) :
      Obeyed now player .stop (.done, reporting player.calledOff { player with
        held := [], anchor := none, log := player.log.map (·.moveTo player.clock.dataStart),
        listener := player.listener.undated, clock := player.clock.backToFirst, state := .idle,
        pending := none })
  | stopRefused (hstate : ¬(player.state = .playing ∨ player.state = .paused)) :
      Obeyed now player .stop (.done, quietly player)
  | tick : Obeyed now player .tick (.done, player.tick now)
  | rebase : Obeyed now player .rebase (.done, quietly (player.rebase now))
  | wake (token : Token) (hpending : player.pending = some token) :
      Obeyed now player (.wake token) (.done, Player.tick now { player with pending := none })
  | wakeRefused (token : Token) (hpending : player.pending ≠ some token) :
      Obeyed now player (.wake token) (.done, quietly player)
  | seekRefused (fraction : Binary64) (answer : SeekAnswer) (hanswer : answer ≠ .moved)
      (hseek : (player.seek now fraction).1 = answer) :
      Obeyed now player (.seek fraction) (.sought answer, quietly player)
  | seekPlaying (fraction : Binary64) (log : Log) (hlog : player.log = some log) (landing : Landing)
      (hlanding : player.landing? fraction log = .ok landing) (hstate : player.state = .playing) :
      Obeyed now player (.seek fraction) (.sought .moved, reporting
        (player.calledOff ++ [.wake (player.issued + 1) 0])
        { rebase now (player.landed landing log) with
          pending := some (player.issued + 1), issued := player.issued + 1 })
  | seek (fraction : Binary64) (log : Log) (hlog : player.log = some log) (landing : Landing)
      (hlanding : player.landing? fraction log = .ok landing)
      (hstate : player.state = .idle ∨ player.state = .paused) :
      Obeyed now player (.seek fraction)
        (.sought .moved, reporting player.calledOff (player.landed landing log))
  | speedRefused (number : Binary64) (hspeed : Speed.ofNumber? number = none) :
      Obeyed now player (.setSpeed number) (.done, quietly player)
  | speedPlaying (number : Binary64) (speed : Speed) (hspeed : Speed.ofNumber? number = some speed)
      (hstate : player.state = .playing) :
      Obeyed now player (.setSpeed number) (.done, reporting
        (player.calledOff ++
          [.wake (player.issued + 1) (if player.isTimed then 0 else speed.secondOnWall)])
        { player.rebase now with
          speed, pending := some (player.issued + 1), issued := player.issued + 1 })
  | speed (number : Binary64) (speed : Speed) (hspeed : Speed.ofNumber? number = some speed)
      (hstate : player.state ≠ .playing) :
      Obeyed now player (.setSpeed number) (.done, reporting [] { player with speed })

theorem scan_of_failure {player : Player} {log : Log} {failure : Scan.Failure} (hlog : player.log = some log)
    (hscan : Scan.ofRecording player.lockPrimary log.recording = .error failure) :
    player.scan = (.error failure, reporting player.calledOff { player with
      log := some (log.moveTo 0), clock := Clock.unknown, listener := Listener.fresh, state := .error,
      held := [], anchor := none, pending := none }) := by
  simp [Player.scan, Log.scan, Step.andThen, hlog, hscan, reporting, calledOff]

theorem scan_of_outcome {player : Player} {log : Log} {outcome : Scan.Outcome} (hlog : player.log = some log)
    (hscan : Scan.ofRecording player.lockPrimary log.recording = .ok outcome) :
    player.scan = (.ok outcome.report, reporting player.calledOff { player with
      log := some (log.moveTo outcome.clock.dataStart), clock := outcome.clock,
      listener := outcome.listener.undated, state := .idle, held := [], anchor := none,
      pending := none }) := by
  simp [Player.scan, Log.scan, Step.andThen, hlog, hscan, reporting, calledOff]

theorem obeyed_scan (now : Nat) (player : Player) :
    Obeyed now player .scan (Command.run now player .scan) := by
  cases hlog : player.log with
  | none =>
    convert Obeyed.scanUnloaded hlog using 1
    simp [Command.run, Player.scan, Step.andThen, hlog, calledOff]
  | some log =>
    cases hscan : Scan.ofRecording player.lockPrimary log.recording with
    | error failure =>
      convert Obeyed.scanFailed log hlog failure hscan using 1
      rw [Command.run, scan_of_failure hlog hscan]
    | ok outcome =>
      convert Obeyed.scan log hlog outcome hscan using 1
      rw [Command.run, scan_of_outcome hlog hscan]

theorem landing?_ne_moved {fraction : Binary64} {log : Log} {player : Player} {answer : SeekAnswer}
    (h : player.landing? fraction log = .error answer) : answer ≠ .moved := by
  rintro rfl
  unfold landing? at h
  split at h
  · split at h
    · cases h
    · split at h <;> cases h
  · split at h <;> cases h

theorem obeyed_seek (now : Nat) (player : Player) (fraction : Binary64) :
    Obeyed now player (.seek fraction) (Command.run now player (.seek fraction)) := by
  have hrefused : ∀ answer, answer ≠ .moved → player.seek now fraction = (answer, quietly player) →
      Obeyed now player (.seek fraction) (Command.run now player (.seek fraction)) := by
    intro answer hanswer hseek
    rw [Command.run, hseek]
    exact .seekRefused fraction answer hanswer (by rw [hseek])
  cases hlog : player.log with
  | none => exact hrefused .refused (by decide) (by simp [seek_eq, hlog])
  | some log =>
    by_cases hready : fraction.within (Binary64.Finite.zero false) Binary64.Finite.one && player.isSeekable
    · cases hlanding : player.landing? fraction log with
      | error answer =>
        exact hrefused answer (landing?_ne_moved hlanding) (by simp [seek_eq, hlog, hready, hlanding])
      | ok landing =>
        have hseek : player.seek now fraction = (.moved, player.land now landing log) := by
          simp [seek_eq, hlog, hready, hlanding]
        by_cases hstate : player.state = .playing
        · convert Obeyed.seekPlaying fraction log hlog landing hlanding hstate using 1
          rcases landing with ⟨line, _ | instant, listener⟩ <;>
            simp [Command.run, hseek, land, landed, hstate, Step.andThen, reporting, calledOff, Player.rebase]
        · have hseekable : player.isSeekable := (Bool.and_eq_true_iff.mp hready).2
          have hidle : player.state = .idle ∨ player.state = .paused := by
            simpa [isSeekable, hstate] using hseekable
          convert Obeyed.seek fraction log hlog landing hlanding hidle using 1
          rcases landing with ⟨line, _ | instant, listener⟩ <;>
            simp [Command.run, hseek, land, landed, hstate, Step.andThen, reporting, calledOff]
    · exact hrefused .refused (by decide) (by simp [seek_eq, hlog, hready])

-- A seek that does not move the player leaves everything to be as it was, though it may have read on to the end.
theorem seek_of_not_moved {now : Nat} {player : Player} {fraction : Binary64}
    (h : (player.seek now fraction).1 ≠ .moved) : (player.seek now fraction).2 = quietly player := by
  have hcase := obeyed_seek now player fraction
  change (Command.run now player (.seek fraction)).2 = quietly player
  generalize hrun : Command.run now player (.seek fraction) = result at hcase
  have hanswer : Answer.sought (player.seek now fraction).1 = result.1 := congrArg Prod.fst hrun
  cases hcase with
  | seekRefused => rfl
  | seekPlaying | seek => exact absurd (Answer.sought.inj hanswer) h

theorem obeyed (now : Nat) (player : Player) (command : Command) :
    Obeyed now player command (command.run now player) := by
  cases command with
  | load recording =>
    convert Obeyed.load recording using 1
    simp [Command.run, Player.load, reset, Step.andThen, reporting, calledOff]
  | loadFailed =>
    convert Obeyed.loadFailed using 1
    simp [Command.run, Player.loadFailed, reset, Step.andThen, reporting, calledOff]
  | scan => exact obeyed_scan now player
  | start =>
    by_cases hstart : player.CanStart
    · convert Obeyed.start hstart using 1
      rw [Command.run, Player.start]
      exact congrArg (Prod.mk Answer.done) (if_pos hstart)
    · convert Obeyed.startRefused hstart using 1
      rw [Command.run, Player.start]
      exact congrArg (Prod.mk Answer.done) (if_neg hstart)
  | pause =>
    by_cases hstate : player.state = .playing
    · convert Obeyed.pause hstate using 1
      simp [Command.run, Player.pause, hstate, Step.andThen, reporting, calledOff]
    · convert Obeyed.pauseRefused hstate using 1
      simp [Command.run, Player.pause, hstate]
  | stop =>
    by_cases hstate : player.state = .playing ∨ player.state = .paused
    · convert Obeyed.stop hstate using 1
      simp [Command.run, Player.stop, hstate, Step.andThen, reporting, calledOff]
    · convert Obeyed.stopRefused hstate using 1
      simp [Command.run, Player.stop, hstate]
  | tick => exact .tick
  | rebase => exact .rebase
  | wake token =>
    by_cases hpending : player.pending = some token
    · convert Obeyed.wake token hpending using 1
      simp [Command.run, Player.wake, hpending]
    · convert Obeyed.wakeRefused token hpending using 1
      simp [Command.run, Player.wake, hpending]
  | seek fraction => exact obeyed_seek now player fraction
  | setSpeed number =>
    cases hspeed : Speed.ofNumber? number with
    | none =>
      convert Obeyed.speedRefused number hspeed using 1
      simp [Command.run, Player.setSpeed, hspeed]
    | some speed =>
      by_cases hstate : player.state = .playing
      · convert Obeyed.speedPlaying number speed hspeed hstate using 1
        simp [Command.run, Player.setSpeed, hspeed, hstate, Step.andThen, reporting, calledOff,
          Player.rebase]
        rfl
      · convert Obeyed.speed number speed hspeed hstate using 1
        simp [Command.run, Player.setSpeed, hspeed, hstate, reporting, announce]

end VoyageLog.Player
