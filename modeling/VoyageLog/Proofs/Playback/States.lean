import VoyageLog.Proofs.Playback.Ticks

namespace VoyageLog.Player

-- A state that a step makes known, or ends in.
def Step.Shows (step : Step) (state : State) : Prop :=
  state = step.player.state ∨ ∃ status, .update status ∈ step.effects ∧ status.state = state

-- Orders that put another recording into a player, or try to.
def Command.Loads : Command → Prop
  | .load _ | .loadFailed => True
  | .scan | .start | .pause | .stop | .tick | .rebase | .wake _ | .seek _ | .setSpeed _ => False

-- Every way for a player to leave its state.
inductive Changes (player : Player) : Command → State → Prop
  | load (recording : Recording) : Changes player (.load recording) .idle
  | loadFailed : Changes player .loadFailed .error
  | scan (log : Log) (hlog : player.log = some log) (outcome : Scan.Outcome)
      (hscan : Scan.ofRecording player.lockPrimary log.recording = .ok outcome) :
      Changes player .scan .idle
  | scanFailed (log : Log) (hlog : player.log = some log) (failure : Scan.Failure)
      (hscan : Scan.ofRecording player.lockPrimary log.recording = .error failure) :
      Changes player .scan .error
  | start (hstart : player.CanStart) : Changes player .start .playing
  | startEnds (hstart : player.CanStart) : Changes player .start .atEnd
  | pause (hstate : player.state = .playing) : Changes player .pause .paused
  | stop (hstate : player.state = .playing ∨ player.state = .paused) : Changes player .stop .idle
  | tickEnds (hstate : player.state = .playing) : Changes player .tick .atEnd
  | wakeEnds (token : Token) (hstate : player.state = .playing) : Changes player (.wake token) .atEnd

section Showing

variable {player : Player} {state : State}

theorem shows_quietly (h : (quietly player).Shows state) : state = player.state := by
  rcases h with h | ⟨status, hmem, -⟩
  · exact h
  · simp at hmem

-- A report tells nothing but the state that its player is in.
theorem shows_reporting {effects : List Effect} (hquiet : ∀ status, .update status ∉ effects)
    (h : (reporting effects player).Shows state) : state = player.state := by
  rcases h with h | ⟨status, hmem, rfl⟩
  · exact h
  · rw [reporting_effects, List.mem_append] at hmem
    rcases hmem with hmem | hmem
    · exact absurd hmem (hquiet status)
    · obtain rfl : status = player.status := by simpa using hmem
      rfl

theorem update_not_mem_calledOff (player : Player) (status : Status) :
    .update status ∉ player.calledOff := by
  simp [calledOff]

theorem shows_calledOff {other : Player} (h : (reporting other.calledOff player).Shows state) :
    state = player.state :=
  shows_reporting (update_not_mem_calledOff other) h

theorem shows_tick {now : Nat} (h : (tick now player).Shows state) :
    state = player.state ∨ player.state = .playing ∧ state = .atEnd := by
  have hcase := ticked now player
  generalize tick now player = step at hcase h
  cases hcase with
  | still => exact .inl (shows_quietly h)
  | unloaded hstate =>
    refine .inr ⟨hstate, shows_reporting ?_ h⟩
    simp [calledOff]
  | ended hstate =>
    refine .inr ⟨hstate, shows_reporting ?_ h⟩
    simp [calledOff]
  | waits hstate log hlog taken line delay htaken =>
    have hrested := rested_of_takeAll htaken
    have hsame := congrArg Player.state hrested
    refine .inl ((shows_reporting ?_ h).trans hsame)
    simp [calledOff]

-- A player that is ready makes itself known before its first tick.
theorem shows_announced {now : Nat} (hready : player.state = .playing)
    (h : ((announce player).andThen (tick now)).Shows state) : state = .playing ∨ state = .atEnd := by
  have hticked : (tick now player).Shows state → state = .playing ∨ state = .atEnd := by
    intro hshown
    rcases shows_tick hshown with hsame | ⟨-, hend⟩
    · exact .inl (hsame.trans hready)
    · exact .inr hend
  rcases h with h | ⟨status, hmem, hstatus⟩
  · exact hticked (.inl h)
  · rw [andThen_effects, announce_effects, List.singleton_append, List.mem_cons] at hmem
    rcases hmem with hmem | hmem
    · obtain rfl : status = player.status := by simpa using hmem
      exact .inl (hstatus.symm.trans hready)
    · exact hticked (.inr ⟨status, hmem, hstatus⟩)

theorem shows_obey {order : Order} (h : (player.obey order).Shows state) :
    state = player.state ∨ Changes player order.command state := by
  obtain ⟨now, command⟩ := order
  obtain ⟨result, -, hcase, hobey⟩ := player.obeying now command
  rw [hobey] at h
  cases hcase with
  | load recording =>
    obtain rfl := shows_calledOff h
    exact .inr (.load recording)
  | loadFailed =>
    obtain rfl := shows_calledOff h
    exact .inr .loadFailed
  | scanUnloaded =>
    rcases h with h | ⟨status, hmem, -⟩
    · exact .inl h
    · exact absurd hmem (update_not_mem_calledOff player status)
  | scanFailed log hlog failure hscan =>
    obtain rfl := shows_calledOff h
    exact .inr (.scanFailed log hlog failure hscan)
  | scan log hlog outcome hscan =>
    obtain rfl := shows_calledOff h
    exact .inr (.scan log hlog outcome hscan)
  | start hstart =>
    rcases shows_announced rfl h with rfl | rfl
    · exact .inr (.start hstart)
    · exact .inr (.startEnds hstart)
  | pause hstate =>
    obtain rfl := shows_calledOff h
    exact .inr (.pause hstate)
  | stop hstate =>
    obtain rfl := shows_calledOff h
    exact .inr (.stop hstate)
  | tick =>
    rcases shows_tick h with h | ⟨hstate, rfl⟩
    · exact .inl h
    · exact .inr (.tickEnds hstate)
  | wake token =>
    rcases shows_tick h with h | ⟨hstate, rfl⟩
    · exact .inl h
    · exact .inr (.wakeEnds token hstate)
  | seek =>
    obtain rfl := shows_calledOff h
    exact .inl rfl
  | seekPlaying | speedPlaying =>
    obtain rfl := shows_reporting (by simp [calledOff]) h
    exact .inl rfl
  | speed =>
    obtain rfl := shows_reporting (by simp) h
    exact .inl rfl
  | rebase => exact .inl (shows_quietly h)
  | startRefused | pauseRefused | stopRefused | wakeRefused | seekRefused | speedRefused =>
    exact .inl (shows_quietly h)

end Showing

-- A player that neither plays nor can be started or paused sends nothing.
theorem emitted_obey_of_over {player : Player} (order : Order)
    (hstate : player.state = .atEnd ∨ player.state = .error) : emitted (player.obey order).effects = [] := by
  cases hticking : player.ticking? order with
  | none => exact emitted_of_still hticking
  | some ready =>
    cases readies hticking with
    | start _ hstart =>
      have hidle := hstart.1
      rcases hstate with h | h <;> simp [h] at hidle
    | tick _ hplaying | wake _ _ _ hplaying => rcases hstate with h | h <;> simp [h] at hplaying

-- A player in error has nothing loaded, or something that no scan of it will ever accept.
def Hopeless (player : Player) : Prop :=
  ∀ log, player.log = some log →
    ∃ failure, Scan.ofRecording player.lockPrimary log.recording = .error failure

theorem hopeless_obey {player : Player} (order : Order) (hsteady : Steady player)
    (h : player.state = .error → player.Hopeless) (herror : (player.obey order).player.state = .error) :
    (player.obey order).player.Hopeless := by
  have hlock := (sameSetup_obey player order).lockPrimary
  obtain ⟨now, command⟩ := order
  obtain ⟨result, -, hcase, hobey⟩ := player.obeying now command
  rw [hobey] at herror hlock ⊢
  -- Whatever has a tick ends in another state than error.
  have hticks : ∀ ready : Player, ready.state = .playing →
      (Player.tick now ready).player.state ≠ .error := by
    intro ready hplaying herror
    rcases shows_tick (.inl rfl : (Player.tick now ready).Shows _) with h | ⟨-, h⟩ <;>
      simp [herror, hplaying] at h
  cases hcase with
  | load | scan | pause | stop => simp at herror
  | loadFailed => simp [Hopeless]
  | scanUnloaded hlog => simp [Hopeless, hlog]
  | scanFailed log hlog failure hscan =>
    rintro _ hmoved
    obtain rfl := Option.some.inj hmoved
    exact ⟨failure, hscan⟩
  | start => exact absurd herror (hticks (player.readied now) rfl)
  | tick =>
    by_cases hplaying : player.state = .playing
    · exact absurd herror (hticks player hplaying)
    · rw [tick_of_not_playing now player hplaying] at herror ⊢
      exact h herror
  | wake token hpending =>
    have hplaying : player.state = .playing := hsteady.armed.mpr (by simp [hpending])
    exact absurd herror (hticks { player with pending := none } hplaying)
  | seekPlaying _ _ _ _ _ hstate | speedPlaying _ _ _ hstate =>
    have hplaying : player.state = .error := herror
    simp [hstate] at hplaying
  | seek _ _ _ _ _ hstate =>
    have hidle : player.state = .error := herror
    simp [hidle] at hstate
  | rebase | speed => exact h herror
  | startRefused | pauseRefused | stopRefused | wakeRefused | seekRefused | speedRefused => exact h herror

theorem Reachable.hopeless {config : Config} {player : Player} (h : Reachable config player)
    (herror : player.state = .error) : player.Hopeless := by
  induction h with
  | new => simp [Player.new] at herror
  | obey order hreach ih => exact hopeless_obey order hreach.steady ih herror

-- A player that has come to the end has nothing left to read.
def Finished (player : Player) : Prop :=
  player.state = .atEnd → ∀ log, player.log = some log → log.unread = []

theorem finished_of_ne {player : Player} (h : player.state ≠ .atEnd) : player.Finished :=
  fun hend => absurd hend h

theorem finished_tick {player : Player} (now : Nat) (h : player.Finished) :
    (tick now player).player.Finished := by
  have hcase := ticked now player
  generalize tick now player = step at hcase
  cases hcase with
  | still => exact h
  | unloaded _ hlog => simp [Finished, hlog]
  | ended _ log =>
    rintro - _ hmoved
    obtain rfl := Option.some.inj hmoved
    rw [Log.unread_moveTo]
    exact log.recording.recordsAt_lineCount
  | waits hstate log hlog taken line delay htaken =>
    have hrested := rested_of_takeAll htaken
    have hsame := congrArg Player.state hrested
    have hplaying : taken.state = .playing := hsame.trans hstate
    exact finished_of_ne (by simp [hplaying])

theorem finished_scan (now : Nat) (player : Player) : (player.obey ⟨now, .scan⟩).player.Finished := by
  obtain ⟨result, -, hcase, hobey⟩ := player.obeying now .scan
  rw [hobey]
  cases hcase with
  | scanUnloaded hlog => simp [Finished, hlog]
  | scanFailed | scan => exact finished_of_ne (by simp)

theorem finished_obey {player : Player} (order : Order) (h : player.Finished) :
    (player.obey order).player.Finished := by
  obtain ⟨now, command⟩ := order
  obtain ⟨result, -, hcase, hobey⟩ := player.obeying now command
  rw [hobey]
  cases hcase with
  | load | loadFailed | scanFailed | scan | pause | stop => exact finished_of_ne (by simp)
  | scanUnloaded hlog => simp [Finished, hlog]
  | start =>
    have hready : (player.readied now).Finished := finished_of_ne (by simp [readied, Player.rebase])
    exact finished_tick now hready
  | tick => exact finished_tick now h
  | wake =>
    have hready : Finished { player with pending := none } := h
    exact finished_tick now hready
  | seekPlaying _ _ _ landing _ hstate => exact finished_of_ne (by simp [Player.rebase, landed, hstate])
  | seek _ _ _ landing _ hstate => exact finished_of_ne (by rcases hstate with h | h <;> simp [landed, h])
  | rebase | speedPlaying | speed => exact h
  | startRefused | pauseRefused | stopRefused | wakeRefused | seekRefused | speedRefused => exact h

theorem finished_obeyAll {player : Player} (orders : List Order) (h : player.Finished) :
    (player.obeyAll orders).player.Finished := by
  induction orders generalizing player with
  | nil => exact h
  | cons order rest ih => exact ih (finished_obey order h)

theorem Reachable.loaded_of_over {config : Config} {player : Player} (h : Reachable config player)
    (hstate : player.state = .atEnd) : ∃ log, player.log = some log := by
  cases hlog : player.log with
  | none =>
    have hidle := h.steady.loaded hlog
    simp [hstate] at hidle
  | some log => exact ⟨log, rfl⟩

-- A scan of what is loaded always takes a player that has come to the end back.
theorem Reachable.leaves_end_by_scan {config : Config} {player : Player} (h : Reachable config player)
    (now : Nat) (hstate : player.state = .atEnd) :
    (player.obey ⟨now, .scan⟩).player.state ≠ .atEnd := by
  obtain ⟨log, hlog⟩ := h.loaded_of_over hstate
  obtain ⟨result, -, hcase, hobey⟩ := player.obeying now .scan
  rw [hobey]
  cases hcase with
  | scanUnloaded hnone => simp [hnone] at hlog
  | scanFailed => simp
  | scan => simp

-- Apart from a scan at the end, only loading takes a player out of a state in which it is over; that scan sends
-- nothing either. A player gets to play by a start only, and to rest by a pause only.
theorem over_until_loaded_or_rescanned {config : Config} {player : Player}
    (h : Reachable config player) (order : Order) :
    (player.state = .atEnd ∨ player.state = .error → ¬order.command.Loads →
      emitted (player.obey order).effects = [] ∧
        ((∀ state, (player.obey order).Shows state → state = player.state) ↔
          ¬(player.state = .atEnd ∧ order.command = .scan))) ∧
    ((player.obey order).Shows .playing → player.state ≠ .playing →
      order.command = .start ∧ (player.state = .idle ∨ player.state = .paused) ∧ player.log.isSome) ∧
    ((player.obey order).Shows .paused → player.state ≠ .paused →
      order.command = .pause ∧ player.state = .playing) := by
  obtain ⟨now, command⟩ := order
  refine ⟨?_, ?_, ?_⟩
  · intro hstate hloads
    refine ⟨emitted_obey_of_over _ hstate, ?_, ?_⟩
    · rintro hstays ⟨hend, rfl⟩
      exact h.leaves_end_by_scan now hend ((hstays _ (.inl rfl)).trans hend)
    · intro hscan state hshown
      rcases shows_obey hshown with hsame | hchange
      · exact hsame
      · dsimp only at hchange hloads hscan
        cases hchange with
        | load | loadFailed => exact (hloads trivial).elim
        | scan log hlog outcome hfound =>
          have herror : player.state = .error := hstate.resolve_left fun hend => hscan ⟨hend, rfl⟩
          obtain ⟨failure, hfailed⟩ := h.hopeless herror log hlog
          cases hfound.symm.trans hfailed
        | scanFailed => exact (hstate.resolve_left fun hend => hscan ⟨hend, rfl⟩).symm
        | start hstart | startEnds hstart =>
          have hidle := hstart.1
          rcases hstate with h | h <;> simp [h] at hidle
        | pause hplaying | tickEnds hplaying | wakeEnds _ hplaying | stop hplaying =>
          rcases hstate with h | h <;> simp [h] at hplaying
  · intro hshown hstate
    rcases shows_obey hshown with hsame | hchange
    · exact absurd hsame.symm hstate
    · cases hchange with
      | start hstart => exact ⟨rfl, hstart⟩
  · intro hshown hstate
    rcases shows_obey hshown with hsame | hchange
    · exact absurd hsame.symm hstate
    · cases hchange with
      | pause hplaying => exact ⟨rfl, hplaying⟩

def oneLine : Recording := Recording.ofLines "one line" ["$GPTXT,*".toList]

-- Its only sentence tells no time, so that a start plays it to the end at once.
def endedPlayer : Player := ((Player.new Config.default).obeyAll [⟨0, .load oneLine⟩, ⟨0, .start⟩]).player

theorem endedPlayer_reachable : Reachable Config.default endedPlayer := Reachable.new.obeyAll _

-- A second start takes it nowhere.
theorem over_until_loaded_after_end :
    Reachable Config.default endedPlayer ∧ endedPlayer.state = .atEnd ∧
      ∀ state, (endedPlayer.obey ⟨7, .start⟩).Shows state → state = .atEnd := by
  have hstate : endedPlayer.state = .atEnd := by decide +kernel
  obtain ⟨hover, -, -⟩ := over_until_loaded_or_rescanned endedPlayer_reachable ⟨7, .start⟩
  obtain ⟨-, hstays⟩ := hover (.inl hstate) id
  refine ⟨endedPlayer_reachable, hstate, ?_⟩
  intro state hshown
  exact (hstays.mpr (by simp) state hshown).trans hstate

-- The end is not the last state until something is loaded: a scan makes the player ready to play again.
theorem rescan_revives_ended_player :
    Reachable Config.default endedPlayer ∧ endedPlayer.state = .atEnd ∧
      (endedPlayer.obey ⟨0, .scan⟩).player.state = .idle := by
  refine ⟨endedPlayer_reachable, ?_, ?_⟩
  · decide +kernel
  · decide +kernel

end VoyageLog.Player
