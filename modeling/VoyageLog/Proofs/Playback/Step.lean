import VoyageLog.Playback.Command
import VoyageLog.Proofs.TimeSource.Hearing

namespace VoyageLog

open TimeSource

theorem Clock.backToFirst_withCurrent (clock : Clock) (instant : Instant) :
    (clock.withCurrent instant).backToFirst = clock.backToFirst := by
  cases h : clock.timeline <;> simp [Clock.withCurrent, Clock.backToFirst, h]

theorem Clock.withCurrent_withCurrent (clock : Clock) (earlier later : Instant) :
    (clock.withCurrent earlier).withCurrent later = clock.withCurrent later := by
  cases h : clock.timeline <;> simp [Clock.withCurrent, h]

theorem Clock.isTimed_backToFirst (clock : Clock) : clock.backToFirst.isTimed = clock.isTimed := by
  simp [Clock.backToFirst, Clock.isTimed]

namespace Player

theorem Step.andThen_assoc (step : Step) (next last : Player → Step) :
    (step.andThen next).andThen last = step.andThen fun player => (next player).andThen last := by
  simp [Step.andThen]

theorem Step.andThen_congr {step : Step} {next other : Player → Step} (h : next step.player = other step.player) :
    step.andThen next = step.andThen other := by
  simp only [Step.andThen, h]

section Parts

variable (player : Player)

@[simp] theorem andThen_player (step : Step) (next : Player → Step) :
    (step.andThen next).player = (next step.player).player := rfl

@[simp] theorem andThen_effects (step : Step) (next : Player → Step) :
    (step.andThen next).effects = step.effects ++ (next step.player).effects := rfl

@[simp] theorem quietly_player : (quietly player).player = player := rfl

@[simp] theorem quietly_effects : (quietly player).effects = [] := rfl

@[simp] theorem announce_player : (announce player).player = player := rfl

@[simp] theorem announce_effects : (announce player).effects = [.update player.status] := rfl

@[simp] theorem flush_player : (flush player).player = { player with held := [] } := rfl

@[simp] theorem flush_effects : (flush player).effects = player.held.map .emit := rfl

@[simp] theorem disarm_player : (disarm player).player = { player with pending := none } := by
  unfold disarm
  split
  · rename_i h
    rw [← h]
  · rfl

@[simp] theorem disarm_effects : (disarm player).effects = player.pending.toList.map .cancel := by
  unfold disarm
  split <;> rename_i h <;> rw [h] <;> rfl

@[simp] theorem arm_player (delay : Nat) :
    (arm delay player).player =
      { player with pending := some (player.issued + 1), issued := player.issued + 1 } := by
  simp [arm]

@[simp] theorem arm_effects (delay : Nat) :
    (arm delay player).effects =
      player.pending.toList.map .cancel ++ [.wake (player.issued + 1) delay] := by
  simp [arm]

@[simp] theorem finish_player :
    (finish player).player = { player with held := [], pending := none, state := .atEnd } := by
  simp [finish]

end Parts

-- The player without all that reading on changes.
def rested (player : Player) : Player :=
  { player with
    listener := player.listener.undated, held := [], clock := player.clock.backToFirst }

theorem Reading.undated_ofRecord (layout : Option Layout) (timed : Bool) (listener : Listener)
    (record : Record) : (Reading.ofRecord layout timed listener record).2.undated = listener.undated := by
  unfold Reading.ofRecord
  split
  · rfl
  · split
    · exact listener.undated_heed record.text
    · rfl

theorem rested_take (now : Nat) (record : Record) (player : Player) :
    (player.take now record).1.rested = player.rested := by
  have hundated := Reading.undated_ofRecord player.clock.layout player.isTimed player.listener record
  unfold take
  split
  · rename_i listener hreading
    rw [hreading] at hundated
    simp only [rested, hundated]
  · rename_i reading listener hreading
    rw [hreading] at hundated
    dsimp only
    split
    · simp only [rested, hold, hundated, Clock.backToFirst_withCurrent]
    · simp only [rested, hold, hundated]

theorem rested_takeAll (now : Nat) (records : List Record) (player : Player) :
    (takeAll now records player).1.rested = player.rested := by
  induction records generalizing player with
  | nil => rfl
  | cons record rest ih =>
    have hone := rested_take now record player
    unfold takeAll
    split
    · rename_i next delay htake
      rw [htake] at hone
      exact hone
    · rename_i next htake
      rw [htake] at hone
      rw [ih, hone]

theorem rested_of_takeAll {now : Nat} {records : List Record} {player taken : Player}
    {ending : Option (Nat × Nat)} (h : takeAll now records player = (taken, ending)) :
    taken.rested = player.rested := by
  have hrested := rested_takeAll now records player
  rw [h] at hrested
  exact hrested

-- The tokens that a player has to call off before it asks for a new one.
def calledOff (player : Player) : List Effect := player.pending.toList.map .cancel

-- A step that ends with the news of its player.
def reporting (effects : List Effect) (player : Player) : Step :=
  ⟨player, effects ++ [.update player.status]⟩

@[simp] theorem reporting_player (effects : List Effect) (player : Player) :
    (reporting effects player).player = player := rfl

@[simp] theorem reporting_effects (effects : List Effect) (player : Player) :
    (reporting effects player).effects = effects ++ [.update player.status] := rfl

-- What a tick can do. A playing player without a recording would end at once, but there is none such.
inductive Ticked (now : Nat) (player : Player) : Step → Prop
  | still (hstate : player.state ≠ .playing) : Ticked now player (quietly player)
  | unloaded (hstate : player.state = .playing) (hlog : player.log = none) :
      Ticked now player (reporting (player.calledOff ++ player.held.map .emit)
        { player with held := [], pending := none, state := .atEnd })
  | ended (hstate : player.state = .playing) (log : Log) (hlog : player.log = some log) (taken : Player)
      (htaken : takeAll now log.unread { player with pending := none } = (taken, none)) :
      Ticked now player (reporting (player.calledOff ++ taken.held.map .emit)
        { taken with
          log := some (log.moveTo log.lineCount), held := [], pending := none, state := .atEnd })
  | waits (hstate : player.state = .playing) (log : Log) (hlog : player.log = some log) (taken : Player)
      (line delay : Nat)
      (htaken : takeAll now log.unread { player with pending := none } = (taken, some (line, delay))) :
      Ticked now player (reporting
        (player.calledOff ++ taken.held.map .emit ++ [.wake (player.issued + 1) delay])
        { taken with
          log := some (log.moveTo line), held := [], pending := some (player.issued + 1),
          issued := player.issued + 1 })

section Ticking

variable {player taken : Player} {log : Log} {now line delay : Nat}

theorem tick_of_unloaded (now : Nat) (hstate : player.state = .playing) (hlog : player.log = none) :
    tick now player = reporting (player.calledOff ++ player.held.map .emit)
      { player with held := [], pending := none, state := .atEnd } := by
  have htick : tick now player = player.disarm.andThen finish := by
    simp [tick, hstate, hlog, Step.andThen]
  rw [htick]
  simp [Step.andThen, finish, reporting, calledOff]

theorem tick_of_end (hstate : player.state = .playing) (hlog : player.log = some log)
    (htaken : takeAll now log.unread { player with pending := none } = (taken, none)) :
    tick now player = reporting (player.calledOff ++ taken.held.map .emit)
      { taken with log := some (log.moveTo log.lineCount), held := [], pending := none, state := .atEnd } := by
  have htick : tick now player = player.disarm.andThen fun player => player.playOn now log := by
    simp [tick, hstate, hlog, Step.andThen]
  have hpending : taken.pending = none := congrArg Player.pending (rested_of_takeAll htaken)
  rw [htick]
  simp [Step.andThen, playOn, htaken, finish, hpending, reporting, calledOff]

theorem tick_of_wait (hstate : player.state = .playing) (hlog : player.log = some log)
    (htaken : takeAll now log.unread { player with pending := none } = (taken, some (line, delay))) :
    tick now player = reporting
      (player.calledOff ++ taken.held.map .emit ++ [.wake (player.issued + 1) delay])
      { taken with
        log := some (log.moveTo line), held := [], pending := some (player.issued + 1),
        issued := player.issued + 1 } := by
  have htick : tick now player = player.disarm.andThen fun player => player.playOn now log := by
    simp [tick, hstate, hlog, Step.andThen]
  have hpending : taken.pending = none := congrArg Player.pending (rested_of_takeAll htaken)
  have hissued : taken.issued = player.issued := by
    have hrested := congrArg Player.issued (rested_of_takeAll htaken)
    exact hrested
  rw [htick]
  simp [Step.andThen, playOn, htaken, hpending, hissued, reporting, calledOff]

end Ticking

theorem ticked (now : Nat) (player : Player) : Ticked now player (tick now player) := by
  by_cases hstate : player.state = .playing
  · cases hlog : player.log with
    | none =>
      rw [tick_of_unloaded now hstate hlog]
      exact .unloaded hstate hlog
    | some log =>
      rcases htaken : takeAll now log.unread { player with pending := none } with ⟨taken, _ | ⟨line, delay⟩⟩
      · rw [tick_of_end hstate hlog htaken]
        exact .ended hstate log hlog taken htaken
      · rw [tick_of_wait hstate hlog htaken]
        exact .waits hstate log hlog taken line delay htaken
  · have htick : tick now player = quietly player := by simp [tick, hstate]
    rw [htick]
    exact .still hstate

-- What a tick leaves as it is.
theorem rested_tick (now : Nat) (player : Player) :
    ∃ log state pending issued, (tick now player).player.rested =
      { player.rested with log := log, state := state, pending := pending, issued := issued } := by
  have hcase := ticked now player
  generalize tick now player = step at hcase
  cases hcase with
  | still => exact ⟨_, _, _, _, rfl⟩
  | unloaded => exact ⟨_, _, _, _, rfl⟩
  | ended _ log _ taken htaken =>
    have hrested := rested_of_takeAll htaken
    refine ⟨some (log.moveTo log.lineCount), .atEnd, none, player.issued, ?_⟩
    change { taken.rested with
      log := some (log.moveTo log.lineCount), state := .atEnd, pending := none } = _
    rw [hrested]
    rfl
  | waits _ log _ taken line delay htaken =>
    have hrested := rested_of_takeAll htaken
    refine ⟨some (log.moveTo line), player.state, some (player.issued + 1), player.issued + 1, ?_⟩
    change { taken.rested with
      log := some (log.moveTo line), pending := some (player.issued + 1),
      issued := player.issued + 1 } = _
    rw [hrested]
    rfl

end Player

end VoyageLog
