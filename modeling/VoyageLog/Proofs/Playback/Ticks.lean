import VoyageLog.Proofs.Playback.Run

namespace VoyageLog.Player

-- The player that an order hands to its tick, and why it has one.
inductive Readies (player : Player) : Order → Player → Prop
  | start (now : Nat) (hstart : player.CanStart) : Readies player ⟨now, .start⟩ (player.readied now)
  | tick (now : Nat) (hstate : player.state = .playing) : Readies player ⟨now, .tick⟩ player
  | wake (now : Nat) (token : Token) (hpending : player.pending = some token)
      (hstate : player.state = .playing) :
      Readies player ⟨now, .wake token⟩ { player with pending := none }

theorem readies {player ready : Player} {order : Order} (h : player.ticking? order = some ready) :
    Readies player order ready := by
  obtain ⟨now, command⟩ := order
  obtain ⟨hready, hplaying⟩ := Option.filter_eq_some_iff.mp h
  have hstate : ready.state = .playing := by simpa using hplaying
  cases command with
  | start =>
    obtain ⟨hstart, rfl⟩ : player.CanStart ∧ player.readied now = ready := by simpa using hready
    exact .start now hstart
  | tick =>
    obtain rfl : player = ready := by simpa using hready
    exact .tick now hstate
  | wake token =>
    obtain ⟨hpending, rfl⟩ : player.pending = some token ∧ { player with pending := none } = ready := by
      simpa using hready
    exact .wake now token hpending hstate
  | load | loadFailed | scan | pause | stop | rebase | seek | setSpeed => simp at hready

theorem playing_of_ticking {player ready : Player} {order : Order} (h : player.ticking? order = some ready) :
    ready.state = .playing := by
  cases readies h with
  | start => rfl
  | tick _ hstate | wake _ _ _ hstate => exact hstate

theorem ready_of_ticking {player ready : Player} {order : Order} (hsteady : Steady player)
    (h : player.ticking? order = some ready) : Ready ready := by
  cases readies h with
  | start now hstart => exact hsteady.readied now hstart
  | tick => exact hsteady.toReady
  | wake => exact hsteady.toReady.withPending none

theorem capacity_of_ticking {player ready : Player} {order : Order} (h : player.ticking? order = some ready) :
    ready.capacity = player.capacity := by
  cases readies h with
  | start now => exact (sameSetup_readied now player).capacity
  | tick | wake => rfl

-- Before its tick an order makes the player known at most.
theorem obey_eq_of_ticking {player ready : Player} {order : Order} (h : player.ticking? order = some ready) :
    ∃ news : List Status, player.obey order =
      ⟨(tick order.now ready).player, news.map .update ++ (tick order.now ready).effects⟩ := by
  cases readies h with
  | start now hstart =>
    have hrun : player.start now = (announce (player.readied now)).andThen (tick now) := if_pos hstart
    exact ⟨[(player.readied now).status], hrun⟩
  | tick now => exact ⟨[], rfl⟩
  | wake now token hpending => exact ⟨[], by simp [obey, Command.run, Player.wake, hpending]⟩

theorem obey_of_ticking {player ready : Player} {order : Order} (h : player.ticking? order = some ready) :
    (player.obey order).player = (tick order.now ready).player := by
  obtain ⟨news, hobey⟩ := obey_eq_of_ticking h
  rw [hobey]

theorem emitted_of_ticking {player ready : Player} {order : Order} (h : player.ticking? order = some ready) :
    emitted (player.obey order).effects = emitted (tick order.now ready).effects := by
  obtain ⟨news, hobey⟩ := obey_eq_of_ticking h
  simp [hobey]

theorem tick_of_not_playing (now : Nat) (player : Player) (hstate : player.state ≠ .playing) :
    tick now player = quietly player := by
  simp [tick, hstate]

-- Whatever has no tick sends nothing.
theorem emitted_of_still {player : Player} {order : Order} (h : player.ticking? order = none) :
    emitted (player.obey order).effects = [] := by
  obtain ⟨now, command⟩ := order
  obtain ⟨result, -, hcase, hobey⟩ := player.obeying now command
  rw [hobey]
  cases hcase with
  | load | loadFailed | scanUnloaded | scanFailed | scan | pause | stop | seekPlaying | seek | speedPlaying =>
    simp [calledOff]
  | start hstart => simp [ticking?, hstart, readied, Player.rebase] at h
  | tick =>
    have hstill : player.state ≠ .playing := fun hplaying => by simp [ticking?, hplaying] at h
    rw [tick_of_not_playing now player hstill]
    rfl
  | wake token hpending =>
    have hstill : player.state ≠ .playing := fun hplaying => by simp [ticking?, hpending, hplaying] at h
    rw [tick_of_not_playing now { player with pending := none } hstill]
    rfl
  | speed => rfl
  | rebase | startRefused | pauseRefused | stopRefused | wakeRefused | seekRefused | speedRefused => rfl

end VoyageLog.Player
