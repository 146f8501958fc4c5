import VoyageLog.Proofs.Playback.Timer

namespace VoyageLog

namespace EventLoop

open Player

theorem foldl_ask_calls (timer : SleepingTimer) (effects : List Effect) :
    effects.foldl ask timer = (calls effects).foldl ask timer := by
  induction effects generalizing timer with
  | nil => rfl
  | cons effect rest ih => cases effect <;> exact ih _

-- The tokens of the wake-ups that were asked for.
def asked (effects : List Effect) : List Token :=
  effects.filterMap fun
    | .wake token _ => some token
    | _ => none

theorem asked_append (first second : List Effect) : asked (first ++ second) = asked first ++ asked second :=
  List.filterMap_append ..

theorem asked_calls (effects : List Effect) : asked (calls effects) = asked effects := by
  induction effects with
  | nil => rfl
  | cons effect rest ih => cases effect <;> simpa [calls, Effect.isCall, asked] using ih

theorem mem_asked {token : Token} {effects : List Effect} :
    token ∈ asked effects ↔ ∃ delay, .wake token delay ∈ effects := by
  induction effects with
  | nil => simp [asked]
  | cons effect rest ih => cases effect <;> simp_all [asked, exists_or]

theorem cancel_mem_calls {token : Token} {effects : List Effect} :
    .cancel token ∈ calls effects ↔ .cancel token ∈ effects := by
  simp [calls, Effect.isCall]

-- How the player and the timer of a loop fit together, given all that the player has done so far.
structure Attuned (loop : EventLoop) (effects : List Effect) : Prop where
  issued : loop.player.issued = loop.timer.issued
  expects : loop.timer.Expects loop.player.pending
  numbered : ∀ token ∈ loop.timer.delivered, token ≤ loop.timer.issued
  asked : asked effects = List.range' 1 loop.timer.issued
  cancelled : ∀ token, .cancel token ∈ effects →
    token ≤ loop.timer.issued ∧ loop.player.pending ≠ some token

theorem foldl_ask_calledOff (timer : SleepingTimer) (player : Player)
    (h : timer.Expects player.pending) :
    (player.calledOff.foldl ask timer).Expects none ∧
      (player.calledOff.foldl ask timer).issued = timer.issued ∧
      (player.calledOff.foldl ask timer).delivered = timer.delivered := by
  cases hpending : player.pending with
  | none =>
    rw [hpending] at h
    simpa [calledOff, hpending] using h
  | some token =>
    rw [hpending] at h
    simpa [calledOff, hpending, ask] using h.cancel

@[simp] theorem asked_calledOff (player : Player) : asked player.calledOff = [] := by
  cases hpending : player.pending <;> simp [calledOff, hpending, asked]

theorem cancel_mem_calledOff {player : Player} {token : Token} :
    .cancel token ∈ player.calledOff ↔ player.pending = some token := by
  simp [calledOff]

theorem Attuned.eq_issued {loop : EventLoop} {effects : List Effect} {token : Token}
    (h : Attuned loop effects) (hpending : loop.player.pending = some token) :
    token = loop.timer.issued := by
  have hexpects := h.expects
  rw [hpending] at hexpects
  cases hexpects <;> rfl

section Steps

variable {player : Player} {timer : SleepingTimer} {effects : List Effect}

-- Of a player and its effects only what concerns the timer matters.
theorem Attuned.of_calls {other : Player} {others : List Effect} (h : Attuned ⟨player, timer⟩ effects)
    (hpending : other.pending = player.pending) (hissued : other.issued = player.issued)
    (hcalls : calls others = calls effects) : Attuned ⟨other, timer⟩ others where
  issued := hissued.trans h.issued
  expects := hpending.symm ▸ h.expects
  numbered := h.numbered
  asked := by
    rw [← asked_calls, hcalls, asked_calls]
    exact h.asked
  cancelled := by
    intro token hmem
    rw [← cancel_mem_calls, hcalls, cancel_mem_calls] at hmem
    exact hpending.symm ▸ h.cancelled token hmem

theorem Attuned.calledOff (h : Attuned ⟨player, timer⟩ effects) :
    Attuned ⟨{ player with pending := none }, player.calledOff.foldl ask timer⟩
      (effects ++ player.calledOff) := by
  obtain ⟨hexpects, hissued, hdelivered⟩ := foldl_ask_calledOff timer player h.expects
  refine ⟨h.issued.trans hissued.symm, hexpects, ?_, ?_, ?_⟩
  · rw [hdelivered, hissued]
    exact h.numbered
  · rw [asked_append, asked_calledOff, List.append_nil, hissued]
    exact h.asked
  · intro token hmem
    rw [hissued]
    refine ⟨?_, by simp⟩
    rcases List.mem_append.mp hmem with hmem | hmem
    · exact (h.cancelled token hmem).1
    · exact Nat.le_of_eq (h.eq_issued (cancel_mem_calledOff.mp hmem))

-- A player that waits for no token asks for a new one.
theorem Attuned.asks (h : Attuned ⟨player, timer⟩ effects) (hpending : player.pending = none)
    (delay : Nat) :
    Attuned ⟨{ player with pending := some (player.issued + 1), issued := player.issued + 1 },
      timer.schedule.2⟩ (effects ++ [.wake (player.issued + 1) delay]) := by
  have hissued : player.issued = timer.issued := h.issued
  have hexpects : timer.Expects none := hpending ▸ h.expects
  have hasked : EventLoop.asked effects = List.range' 1 timer.issued := h.asked
  refine ⟨congrArg (· + 1) hissued, ?_, ?_, ?_, ?_⟩
  · rw [hissued]
    exact hexpects.schedule h.numbered
  · intro token hmem
    exact Nat.le_succ_of_le (h.numbered token hmem)
  · have hnext : timer.schedule.2.issued = timer.issued + 1 := rfl
    rw [asked_append, hasked, hnext, hissued, List.range'_concat, Nat.one_mul, Nat.add_comm 1]
    rfl
  · intro token hmem
    have hle : token ≤ timer.issued := (h.cancelled token (by simpa using hmem)).1
    refine ⟨Nat.le_succ_of_le hle, ?_⟩
    intro heq
    have hnew : player.issued + 1 = token := Option.some.inj heq
    omega

-- A step of the player keeps the loop attuned, since it calls off what it gives up.
theorem Attuned.absorb {step : Step} (h : Attuned ⟨player, timer⟩ effects) (hasks : Asks player step) :
    Attuned (EventLoop.absorb timer step).1 (effects ++ step.effects) := by
  have hfold : (EventLoop.absorb timer step).1 =
      ⟨step.player, (calls step.effects).foldl ask timer⟩ := by
    rw [EventLoop.absorb, foldl_ask_calls]
  rw [hfold]
  cases hasks with
  | nothing hpending hissued hcalls =>
    rw [hcalls]
    exact h.of_calls hpending hissued (by simp [hcalls])
  | callOff hpending hissued hcalls =>
    rw [hcalls]
    exact h.calledOff.of_calls hpending hissued (by simp [hcalls])
  | rearm delay hpending hissued hcalls =>
    rw [hcalls, List.foldl_append]
    exact (h.calledOff.asks rfl delay).of_calls hpending hissued (by simp [hcalls])

end Steps

-- A player that takes up its token waits for none.
theorem Attuned.received {loop : EventLoop} {effects : List Effect} {token : Token} {rest : List Token}
    (h : Attuned loop effects) (hdelivered : loop.timer.delivered = token :: rest)
    (hpending : loop.player.pending = some token) :
    Attuned ⟨{ loop.player with pending := none }, { loop.timer with delivered := rest }⟩ effects := by
  have hexpects := h.expects
  rw [hpending] at hexpects
  refine ⟨h.issued, hexpects.received hdelivered, ?_, h.asked, ?_⟩
  · intro other hmem
    exact h.numbered other (by simp [hdelivered, show other ∈ rest from hmem])
  · intro other hmem
    exact ⟨(h.cancelled other hmem).1, by simp⟩

theorem Attuned.passedOver {loop : EventLoop} {effects : List Effect} {token : Token}
    {rest : List Token} (h : Attuned loop effects) (hdelivered : loop.timer.delivered = token :: rest)
    (hpending : loop.player.pending ≠ some token) :
    Attuned { loop with timer := { loop.timer with delivered := rest } } effects := by
  refine ⟨h.issued, h.expects.passedOver hdelivered hpending, ?_, h.asked, h.cancelled⟩
  intro other hmem
  exact h.numbered other (by simp [hdelivered, show other ∈ rest from hmem])

theorem Attuned.elapse {loop : EventLoop} {effects : List Effect} (token : Token)
    (h : Attuned loop effects) : Attuned { loop with timer := loop.timer.elapse token } effects := by
  have hissued : (loop.timer.elapse token).issued = loop.timer.issued := by
    unfold SleepingTimer.elapse
    split <;> rfl
  refine ⟨h.issued.trans hissued.symm, h.expects.elapse token, ?_, hissued ▸ h.asked,
    fun other hmem => hissued ▸ h.cancelled other hmem⟩
  rw [hissued]
  unfold SleepingTimer.elapse
  split
  · rename_i hasleep
    have hexpects := h.expects
    intro other hmem
    rcases List.mem_append.mp hmem with hmem | hmem
    · exact h.numbered other hmem
    · obtain rfl : other = token := by simpa using hmem
      generalize loop.player.pending = pending at hexpects
      cases hexpects with
      | nothing hnone => simp [hnone] at hasleep
      | asleep _ hone _ => simpa [hone] using Nat.le_of_eq (List.mem_singleton.mp (hone ▸ hasleep))
      | delivered hnone _ => simp [hnone] at hasleep
  · exact h.numbered

-- What taking the oldest token from the channel comes to.
theorem act_deliver {loop : EventLoop} {token : Token} {rest : List Token}
    (hdelivered : loop.timer.delivered = token :: rest) (now : Nat) :
    loop.act (.deliver now) =
      if loop.player.pending = some token then
        absorb { loop.timer with delivered := rest } (tick now { loop.player with pending := none })
      else ({ loop with timer := { loop.timer with delivered := rest } }, []) := by
  simp only [act, SleepingTimer.receive, hdelivered, wake]
  split
  · rfl
  · rfl

theorem act_deliver_nothing {loop : EventLoop} (hdelivered : loop.timer.delivered = []) (now : Nat) :
    loop.act (.deliver now) = (loop, []) := by
  simp only [act, SleepingTimer.receive, hdelivered]

theorem Attuned.act {loop : EventLoop} {effects : List Effect} (action : Action)
    (h : Attuned loop effects) : Attuned (loop.act action).1 (effects ++ (loop.act action).2) := by
  cases action with
  | operate now command hwake => exact h.absorb (asks_run now loop.player command hwake)
  | elapse token =>
    have helapse := h.elapse token
    simpa [EventLoop.act] using helapse
  | deliver now =>
    cases hdelivered : loop.timer.delivered with
    | nil => simpa [act_deliver_nothing hdelivered now] using h
    | cons token rest =>
      rw [act_deliver hdelivered now]
      split
      · rename_i hpending
        exact (h.received hdelivered hpending).absorb (asks_tick now _)
      · rename_i hpending
        simpa using h.passedOver hdelivered hpending

theorem steady_act {loop : EventLoop} (action : Action) (h : Steady loop.player) :
    Steady (loop.act action).1.player := by
  cases action with
  | operate now command _ => exact h.obey ⟨now, command⟩
  | elapse _ => exact h
  | deliver now =>
    cases hdelivered : loop.timer.delivered with
    | nil => simpa [act_deliver_nothing hdelivered now] using h
    | cons token rest =>
      have hwake := h.obey ⟨now, .wake token⟩
      simp only [EventLoop.act, SleepingTimer.receive, hdelivered]
      exact hwake

-- The token that an action has the player wake for, if it has it wake for one.
def woken? (loop : EventLoop) : Action → Option Token
  | .operate _ _ _ | .elapse _ => none
  | .deliver _ => loop.timer.delivered.head?.filter fun token => loop.player.pending = some token

def woken (loop : EventLoop) : List Action → List Token
  | [] => []
  | action :: rest => (loop.woken? action).toList ++ (loop.act action).1.woken rest

theorem Attuned.mayAwait {loop : EventLoop} {effects : List Effect} {action : Action} {token : Token}
    (h : Attuned loop effects) (htoken : (loop.act action).1.player.MayAwait token) :
    loop.player.MayAwait token ∧ ∀ woken ∈ loop.woken? action, woken < token := by
  cases action with
  | operate now command hwake =>
    exact ⟨(asks_run now loop.player command hwake).mayAwait htoken, by simp [woken?]⟩
  | elapse => exact ⟨htoken, by simp [woken?]⟩
  | deliver now =>
    cases hdelivered : loop.timer.delivered with
    | nil =>
      rw [act_deliver_nothing hdelivered now] at htoken
      exact ⟨htoken, by simp [woken?, hdelivered]⟩
    | cons first rest =>
      rw [act_deliver hdelivered now] at htoken
      split at htoken
      · rename_i hpending
        -- The player waits for no token when it ticks, so what it awaits then is a new one.
        have hnew := (asks_tick now { loop.player with pending := none }).mayAwait htoken
        have hlater : loop.player.issued < token := hnew.resolve_left (by simp)
        have hfirst : first = loop.player.issued := (h.eq_issued hpending).trans h.issued.symm
        refine ⟨.inr hlater, ?_⟩
        simp [woken?, hdelivered, hpending, hfirst, hlater]
      · rename_i hpending
        exact ⟨htoken, by simp [woken?, hdelivered, hpending]⟩

theorem mayAwait_of_woken {loop : EventLoop} {action : Action} {token : Token}
    (htoken : token ∈ loop.woken? action) : loop.player.MayAwait token := by
  cases action with
  | operate | elapse => simp [woken?] at htoken
  | deliver =>
    simp only [woken?, Option.mem_def, Option.filter_eq_some_iff, decide_eq_true_eq] at htoken
    exact .inl htoken.2

-- A player wakes for ever newer tokens.
theorem Attuned.pairwise_woken {loop : EventLoop} {effects : List Effect} (actions : List Action)
    (h : Attuned loop effects) :
    (loop.woken actions).Pairwise (· < ·) ∧
      ∀ token ∈ loop.woken actions, loop.player.MayAwait token := by
  induction actions generalizing loop effects with
  | nil => simp [woken]
  | cons action rest ih =>
    obtain ⟨hsorted, hlater⟩ := ih (h.act action)
    simp only [woken, List.pairwise_append, List.mem_append]
    refine ⟨⟨by cases loop.woken? action <;> simp, hsorted, ?_⟩, ?_⟩
    · intro first hfirst token htoken
      exact (h.mayAwait (hlater token htoken)).2 first (by simpa using hfirst)
    · rintro token (htoken | htoken)
      · exact mayAwait_of_woken (by simpa using htoken)
      · exact (h.mayAwait (hlater token htoken)).1

theorem Attuned.run {loop : EventLoop} {before : List Effect} (actions : List Action)
    (h : Attuned loop before) : Attuned (loop.run actions).1 (before ++ (loop.run actions).2) := by
  induction actions generalizing loop before with
  | nil => simpa [EventLoop.run] using h
  | cons action rest ih =>
    have hrest := ih (h.act action)
    rw [List.append_assoc] at hrest
    exact hrest

theorem steady_run {loop : EventLoop} (actions : List Action) (h : Steady loop.player) :
    Steady (loop.run actions).1.player := by
  induction actions generalizing loop with
  | nil => exact h
  | cons action rest ih => exact ih (steady_act action h)

theorem Attuned.new (config : Config) : Attuned (EventLoop.new config) [] :=
  ⟨rfl, .nothing rfl, by simp [EventLoop.new, SleepingTimer.fresh], rfl, by simp⟩

-- What can be relied on between two actions of a loop, given all that its player has done so far. A token
-- that was called off, or whose place a newer one took, comes too late.
structure Reliable (loop : EventLoop) (effects : List Effect) : Prop where
  oneAsleep : loop.timer.asleep.length ≤ 1
  armed : loop.player.state = .playing ↔ loop.player.pending.isSome
  awaited : loop.player.state = .playing → loop.timer.asleep ≠ [] ∨ loop.timer.delivered ≠ []
  notLost : ∀ token, loop.player.pending = some token →
    (token ∈ loop.timer.asleep ∧ token ∉ loop.timer.delivered) ∨
      (token ∉ loop.timer.asleep ∧ loop.timer.delivered.count token = 1)
  notReused : (asked effects).Nodup
  delivery : ∀ token rest now, loop.timer.delivered = token :: rest →
    loop.act (.deliver now) =
      if loop.player.pending = some token then
        absorb { loop.timer with delivered := rest } (tick now { loop.player with pending := none })
      else ({ loop with timer := { loop.timer with delivered := rest } }, [])
  tooLate : ∀ token, .cancel token ∈ effects ∨
      (∃ later delay, .wake later delay ∈ effects ∧ token < later) → loop.player.pending ≠ some token

theorem Attuned.reliable {loop : EventLoop} {effects : List Effect} (h : Attuned loop effects)
    (hsteady : Steady loop.player) : Reliable loop effects where
  oneAsleep := by
    have hexpects := h.expects
    generalize loop.player.pending = pending at hexpects
    cases hexpects with
    | nothing hasleep | asleep _ hasleep _ | delivered hasleep _ => simp [hasleep]
  armed := hsteady.armed
  awaited := by
    intro hplaying
    have hexpects := h.expects
    obtain ⟨token, hpending⟩ := Option.isSome_iff_exists.mp (hsteady.armed.mp hplaying)
    rw [hpending] at hexpects
    cases hexpects with
    | asleep _ hasleep _ => exact .inl (by simp [hasleep])
    | delivered _ hcount =>
      right
      intro hnone
      simp [hnone] at hcount
  notLost := by
    intro token hpending
    have hexpects := h.expects
    rw [hpending] at hexpects
    cases hexpects with
    | asleep _ hasleep hdelivered => exact .inl ⟨by simp [hasleep], hdelivered⟩
    | delivered hasleep hcount => exact .inr ⟨by simp [hasleep], hcount⟩
  notReused := by
    rw [h.asked]
    exact List.nodup_range'
  delivery := fun _ _ now hdelivered => act_deliver hdelivered now
  tooLate := by
    rintro token (hcancelled | ⟨later, delay, hlater, hlt⟩) hpending
    · exact (h.cancelled token hcancelled).2 hpending
    · have hasked : later ∈ List.range' 1 loop.timer.issued := h.asked ▸ mem_asked.mpr ⟨delay, hlater⟩
      have htoken : token = loop.timer.issued := h.eq_issued hpending
      have hle : later ≤ loop.timer.issued := Nat.lt_one_add_iff.mp (List.mem_range'_1.mp hasked).2
      exact Nat.not_lt.mpr hle (htoken ▸ hlt)

-- Whatever the interleaving, no wake-up is lost, and none wakes the player twice.
theorem run_reliable (config : Config) (actions : List Action) :
    Reliable ((new config).run actions).1 ((new config).run actions).2 ∧
      ((new config).woken actions).Nodup := by
  have hstart := Attuned.new config
  have hend := hstart.run actions
  refine ⟨hend.reliable (steady_run actions (Steady.new config)), ?_⟩
  exact (hstart.pairwise_woken actions).1.imp fun hlt => Nat.ne_of_lt hlt

end EventLoop

end VoyageLog
