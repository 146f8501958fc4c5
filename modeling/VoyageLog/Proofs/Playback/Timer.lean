import VoyageLog.Playback.EventLoop
import VoyageLog.Proofs.Playback.Run

namespace VoyageLog

namespace Player

def Effect.isCall : Effect → Bool
  | .wake _ _ | .cancel _ => true
  | .emit _ | .update _ => false

-- What the timer is asked for.
def calls (effects : List Effect) : List Effect := effects.filter (·.isCall)

@[simp] theorem calls_append (first second : List Effect) :
    calls (first ++ second) = calls first ++ calls second := List.filter_append ..

@[simp] theorem calls_nil : calls [] = [] := rfl

@[simp] theorem calls_wake (token : Token) (delay : Nat) (rest : List Effect) :
    calls (.wake token delay :: rest) = .wake token delay :: calls rest := rfl

@[simp] theorem calls_update (status : Status) (rest : List Effect) :
    calls (.update status :: rest) = calls rest := rfl

@[simp] theorem calls_map_emit (records : List Text) : calls (records.map .emit) = [] := by
  simp [calls, Effect.isCall]

@[simp] theorem calls_map_update (news : List Status) : calls (news.map .update) = [] := by
  simp [calls, Effect.isCall]

@[simp] theorem calls_calledOff (player : Player) : calls player.calledOff = player.calledOff := by
  cases h : player.pending <;> simp [calledOff, h, calls, Effect.isCall]

-- All that a step can ask of the timer: nothing, to call off what is waited for, or that and a new wake-up.
inductive Asks (player : Player) (step : Step) : Prop
  | nothing (hpending : step.player.pending = player.pending)
      (hissued : step.player.issued = player.issued) (hcalls : calls step.effects = [])
  | callOff (hpending : step.player.pending = none) (hissued : step.player.issued = player.issued)
      (hcalls : calls step.effects = player.calledOff)
  | rearm (delay : Nat) (hpending : step.player.pending = some (player.issued + 1))
      (hissued : step.player.issued = player.issued + 1)
      (hcalls : calls step.effects = player.calledOff ++ [.wake (player.issued + 1) delay])

theorem asks_tick (now : Nat) (player : Player) : Asks player (tick now player) := by
  have hcase := ticked now player
  generalize tick now player = step at hcase
  cases hcase with
  | still => exact .nothing rfl rfl rfl
  | unloaded => exact .callOff rfl rfl (by simp)
  | ended _ log _ taken htaken =>
    have hrested := rested_of_takeAll htaken
    have hissued := congrArg Player.issued hrested
    exact .callOff rfl hissued (by simp)
  | waits _ log _ taken line delay htaken => exact .rearm delay rfl rfl (by simp)

theorem tokens_readied (now : Nat) (player : Player) :
    (player.readied now).pending = player.pending ∧ (player.readied now).issued = player.issued := by
  have hcase := player.laidOut
  unfold readied
  generalize player.withLayout = known at hcase
  cases hcase <;> exact ⟨rfl, rfl⟩

theorem asks_start (now : Nat) (player : Player) :
    Asks player ((announce (player.readied now)).andThen (tick now)) := by
  have hready := tokens_readied now player
  have hoff : (player.readied now).calledOff = player.calledOff := by
    rw [calledOff, hready.1, calledOff]
  cases asks_tick now (player.readied now) with
  | nothing hpending hissued hcalls =>
    exact .nothing (hpending.trans hready.1) (hissued.trans hready.2) (by simpa using hcalls)
  | callOff hpending hissued hcalls =>
    exact .callOff hpending (hissued.trans hready.2) (by simpa [hoff] using hcalls)
  | rearm delay hpending hissued hcalls =>
    rw [hready.2] at hpending hissued hcalls
    exact .rearm delay hpending hissued (by simpa [hoff] using hcalls)

theorem asks_run (now : Nat) (player : Player) (command : Command)
    (hwake : ∀ token, command ≠ .wake token) : Asks player (command.run now player).2 := by
  have hcase := obeyed now player command
  generalize command.run now player = result at hcase
  cases hcase with
  | load | loadFailed | scanFailed | scan | pause | stop | seek =>
    exact .callOff rfl rfl (by simp)
  | scanUnloaded => exact .callOff rfl rfl (by simp)
  | start => exact asks_start now player
  | tick => exact asks_tick now player
  | wake token => exact absurd rfl (hwake token)
  | wakeRefused token => exact absurd rfl (hwake token)
  | seekPlaying => exact .rearm 0 rfl rfl (by simp)
  | speedPlaying _ speed =>
    exact .rearm (if player.isTimed then 0 else speed.secondOnWall) rfl rfl (by simp)
  | startRefused | pauseRefused | stopRefused | rebase | seekRefused | speedRefused | speed =>
    exact .nothing rfl rfl (by simp)

-- A token that a player waits for, or will only ask for later on.
def MayAwait (player : Player) (token : Token) : Prop :=
  player.pending = some token ∨ player.issued < token

theorem Asks.mayAwait {player : Player} {step : Step} {token : Token} (h : Asks player step)
    (htoken : step.player.MayAwait token) : player.MayAwait token := by
  unfold MayAwait at htoken ⊢
  cases h with
  | nothing hpending hissued _ =>
    rw [hpending, hissued] at htoken
    exact htoken
  | callOff hpending hissued _ =>
    rw [hpending, hissued] at htoken
    exact htoken.imp_left (by simp)
  | rearm _ hpending hissued _ =>
    rw [hpending, hissued, Option.some.injEq] at htoken
    omega

end Player

namespace SleepingTimer

-- What a timer has under way for a player that waits for a token, or for none.
inductive Expects (timer : SleepingTimer) : Option Token → Prop
  | nothing (hasleep : timer.asleep = []) : Expects timer none
  | asleep (hlatest : timer.latest = some timer.issued) (hasleep : timer.asleep = [timer.issued])
      (hdelivered : timer.issued ∉ timer.delivered) : Expects timer (some timer.issued)
  | delivered (hasleep : timer.asleep = []) (hcount : timer.delivered.count timer.issued = 1) :
      Expects timer (some timer.issued)

@[simp] theorem issued_cancel (timer : SleepingTimer) (token : Token) :
    (timer.cancel token).issued = timer.issued := by
  unfold cancel callOff
  split
  · split <;> rfl
  · rfl

@[simp] theorem delivered_cancel (timer : SleepingTimer) (token : Token) :
    (timer.cancel token).delivered = timer.delivered := by
  unfold cancel callOff
  split
  · split <;> rfl
  · rfl

theorem Expects.cancel {timer : SleepingTimer} {token : Token} (h : timer.Expects (some token)) :
    (timer.cancel token).Expects none := by
  cases h with
  | asleep hlatest hasleep _ => exact .nothing (by simp [SleepingTimer.cancel, callOff, hlatest, hasleep])
  | delivered hasleep _ =>
    apply Expects.nothing
    unfold SleepingTimer.cancel callOff
    split
    · split <;> simp [hasleep]
    · exact hasleep

theorem Expects.schedule {timer : SleepingTimer} (h : timer.Expects none)
    (hnumbered : ∀ token ∈ timer.delivered, token ≤ timer.issued) :
    timer.schedule.2.Expects (some timer.schedule.2.issued) := by
  cases h with
  | nothing hasleep =>
    apply Expects.asleep rfl
    · cases hlatest : timer.latest <;> simp [SleepingTimer.schedule, callOff, hlatest, hasleep]
    · intro hmem
      exact Nat.not_succ_le_self timer.issued (hnumbered _ hmem)

theorem Expects.elapse {timer : SleepingTimer} {pending : Option Token} (token : Token)
    (h : timer.Expects pending) : (timer.elapse token).Expects pending := by
  unfold SleepingTimer.elapse
  split
  · rename_i hmem
    cases h with
    | nothing hasleep => simp [hasleep] at hmem
    | asleep hlatest hasleep hdelivered =>
      obtain rfl : token = timer.issued := by simpa [hasleep] using hmem
      exact .delivered (by simp [hasleep]) (by simp [List.count_eq_zero_of_not_mem hdelivered])
    | delivered hasleep hcount => simp [hasleep] at hmem
  · exact h

theorem Expects.received {timer : SleepingTimer} {token : Token} {rest : List Token}
    (h : timer.Expects (some token)) (hdelivered : timer.delivered = token :: rest) :
    Expects { timer with delivered := rest } none := by
  cases h with
  | asleep _ _ hnot => simp [hdelivered] at hnot
  | delivered hasleep _ => exact .nothing hasleep

theorem Expects.passedOver {timer : SleepingTimer} {pending : Option Token} {token : Token}
    {rest : List Token} (h : timer.Expects pending) (hdelivered : timer.delivered = token :: rest)
    (hpending : pending ≠ some token) : Expects { timer with delivered := rest } pending := by
  cases h with
  | nothing hasleep => exact .nothing hasleep
  | asleep hlatest hasleep hnot =>
    refine .asleep hlatest hasleep ?_
    intro hmem
    exact hnot (by simp [hdelivered, show timer.issued ∈ rest from hmem])
  | delivered hasleep hcount =>
    refine .delivered hasleep ?_
    have hne : token ≠ timer.issued := fun heq => hpending (by rw [heq])
    simpa [hdelivered, List.count_cons_of_ne hne] using hcount

end SleepingTimer

end VoyageLog
