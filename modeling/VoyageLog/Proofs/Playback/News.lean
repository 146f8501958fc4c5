import VoyageLog.Proofs.Playback.Anchors

namespace VoyageLog.Player

def latestNews? : List Effect → Option Status
  | [] => none
  | .update status :: rest => (latestNews? rest).or (some status)
  | .emit _ :: rest | .wake _ _ :: rest | .cancel _ :: rest => latestNews? rest

@[simp] theorem latestNews?_nil : latestNews? [] = none := rfl

@[simp] theorem latestNews?_append (first second : List Effect) :
    latestNews? (first ++ second) = (latestNews? second).or (latestNews? first) := by
  induction first with
  | nil => simp
  | cons effect rest ih =>
    cases effect <;> simp [latestNews?, ih]

@[simp] theorem latestNews?_calledOff (player : Player) : latestNews? player.calledOff = none := by
  cases h : player.pending <;> simp [calledOff, h, latestNews?]

theorem latestNews?_reporting (effects : List Effect) (player : Player) :
    latestNews? (reporting effects player).effects = some player.status := by
  simp [latestNews?]

-- A player shows its state, and what it makes of its clock and its cursor.
structure SameView (player other : Player) : Prop where
  state : other.state = player.state
  log : other.log = player.log
  clock : other.clock = player.clock

namespace SameView

variable {player other : Player}

theorem refl (player : Player) : player.SameView player := ⟨rfl, rfl, rfl⟩

theorem status (h : player.SameView other) : other.status = player.status := by
  simp only [Player.status, progress, h.state, h.log, h.clock]

end SameView

-- A step brings the news of what has come of its player after all else, or there is nothing to be told.
inductive Reports (player : Player) (step : Step) : Prop
  | told (effects : List Effect) (hstep : step = reporting effects step.player)
  | unchanged (hquiet : latestNews? step.effects = none) (hsame : player.SameView step.player)

theorem reports_quietly (player : Player) : Reports player (quietly player) :=
  .unchanged rfl (.refl player)

theorem reports_tick (now : Nat) (player : Player) : Reports player (tick now player) := by
  have hcase := ticked now player
  generalize tick now player = step at hcase
  cases hcase with
  | still => exact reports_quietly player
  | unloaded | ended | waits => exact .told _ rfl

-- A player that has started is told of before and after its first tick.
theorem reports_announced {player ready : Player} (now : Nat) (hready : ready.state = .playing) :
    Reports player ((announce ready).andThen (tick now)) := by
  cases reports_tick now ready with
  | told effects hstep =>
    apply Reports.told (.update ready.status :: effects)
    rw [Step.andThen, announce_player, hstep]
    rfl
  | unchanged hquiet =>
    -- A tick of a playing player is never without news.
    have hcase := ticked now ready
    generalize tick now ready = step at hcase hquiet
    cases hcase with
    | still hstate => exact absurd hready hstate
    | unloaded | ended | waits =>
      rw [latestNews?_reporting] at hquiet
      cases hquiet

-- Without a recording nothing is known of its time.
def Blank (player : Player) : Prop := player.log = none → player.clock = Clock.unknown

theorem blank_of_log {player : Player} {log : Log} (h : player.log = some log) : player.Blank := by
  intro hnone
  simp [h] at hnone

theorem Blank.tick {player : Player} (now : Nat) (hsteady : Ready player) (h : player.Blank) :
    (tick now player).player.Blank := by
  cases hlog : player.log with
  | some log =>
    obtain ⟨after, hafter, -⟩ := tick_stretch now hlog
    exact blank_of_log hafter
  | none =>
    have hidle := hsteady.loaded hlog
    have hstill : player.state ≠ .playing := by rcases hidle with h | h <;> simp [h]
    rw [tick_of_not_playing now player hstill]
    exact h

theorem blank_obey {player : Player} (order : Order) (hsteady : Steady player) (h : player.Blank) :
    (player.obey order).player.Blank := by
  cases hticking : player.ticking? order with
  | some ready =>
    rw [obey_of_ticking hticking]
    have hready := ready_of_ticking hsteady hticking
    refine Blank.tick order.now hready ?_
    intro hnone
    have hidle := hready.loaded hnone
    simp [playing_of_ticking hticking] at hidle
  | none =>
    obtain ⟨now, command⟩ := order
    obtain ⟨result, -, hcase, hobey⟩ := player.obeying now command
    rw [hobey]
    cases hcase with
    | load | scanFailed | scan | seekPlaying | seek => exact blank_of_log rfl
    | loadFailed | scanUnloaded => exact fun _ => rfl
    | start hstart => simp [ticking?, hstart, readied, Player.rebase] at hticking
    | tick => exact h.tick now hsteady.toReady
    | wake token hpending =>
      exact Blank.tick now (hsteady.toReady.withPending none) h
    | stop hstate =>
      intro hnone
      have hidle := hsteady.loaded (by simpa using hnone)
      rcases hstate with hstate | hstate <;> simp [hstate] at hidle
    | pause | rebase | speedPlaying | speed => exact h
    | startRefused | pauseRefused | stopRefused | wakeRefused | seekRefused | speedRefused => exact h

theorem Reachable.blank {config : Config} {player : Player} (h : Reachable config player) : player.Blank := by
  induction h with
  | new => exact fun _ => rfl
  | obey order hreach ih => exact blank_obey order hreach.steady ih

theorem reports_obey {player : Player} (order : Order) (h : player.Blank) :
    Reports player (player.obey order) := by
  obtain ⟨now, command⟩ := order
  obtain ⟨result, -, hcase, hobey⟩ := player.obeying now command
  rw [hobey]
  cases hcase with
  | load | loadFailed | scanFailed | scan | pause | stop | seekPlaying | seek | speedPlaying | speed =>
    exact .told _ rfl
  | scanUnloaded hlog => exact .unchanged (by simp) ⟨rfl, rfl, (h hlog).symm⟩
  | start hstart => exact reports_announced now rfl
  | tick => exact reports_tick now player
  | wake token hpending =>
    -- The token that is waited for no longer is not shown.
    cases reports_tick now { player with pending := none } with
    | told effects hstep => exact .told effects hstep
    | unchanged hquiet hsame => exact .unchanged hquiet ⟨hsame.state, hsame.log, hsame.clock⟩
  | rebase => exact .unchanged rfl ⟨rfl, rfl, rfl⟩
  | startRefused | pauseRefused | stopRefused | wakeRefused | seekRefused | speedRefused =>
    exact reports_quietly player

theorem Reports.latest {player : Player} {step : Step} (h : Reports player step) :
    latestNews? step.effects = some step.player.status ∨
      latestNews? step.effects = none ∧ step.player.status = player.status := by
  cases h with
  | told effects hstep =>
    left
    rw [hstep]
    exact latestNews?_reporting effects step.player
  | unchanged hquiet hsame => exact .inr ⟨hquiet, hsame.status⟩

-- The same of many orders, since each is told of by the last news before the next one.
theorem latest_obeyAll {config : Config} {player : Player} (orders : List Order) (h : Reachable config player) :
    latestNews? (player.obeyAll orders).effects = some (player.obeyAll orders).player.status ∨
      latestNews? (player.obeyAll orders).effects = none ∧
        (player.obeyAll orders).player.status = player.status := by
  induction orders generalizing player with
  | nil => exact .inr ⟨rfl, rfl⟩
  | cons order rest ih =>
    have hone := (reports_obey order h.blank).latest
    have hrest := ih (h.obey order)
    simp only [obeyAll, andThen_player, andThen_effects, latestNews?_append]
    rcases hrest with hrest | ⟨hrest, hstatus⟩
    · rw [hrest]
      exact .inl rfl
    · rw [hrest, hstatus, Option.none_or]
      exact hone

-- Orders that a player turns down, or takes no notice of.
def Refuses (player : Player) (order : Order) : Prop :=
  match order.command with
  | .scan => player.log = none
  | .start => ¬player.CanStart
  | .pause | .tick => player.state ≠ .playing
  | .stop => ¬(player.state = .playing ∨ player.state = .paused)
  | .wake token => player.pending ≠ some token
  | .seek fraction => (player.seek order.now fraction).1 ≠ .moved
  | .setSpeed number => Speed.ofNumber? number = none
  | .load _ | .loadFailed | .rebase => False

theorem sameView_of_refuses {player : Player} {order : Order} (hblank : player.Blank)
    (h : player.Refuses order) :
    latestNews? (player.obey order).effects = none ∧ player.SameView (player.obey order).player := by
  obtain ⟨now, command⟩ := order
  obtain ⟨result, hrun, hcase, hobey⟩ := player.obeying now command
  rw [hobey]
  cases hcase with
  | load | loadFailed | rebase => exact h.elim
  | scanUnloaded hlog => exact ⟨by simp, rfl, rfl, (hblank hlog).symm⟩
  | scanFailed log hlog | scan log hlog =>
    have hnone : player.log = none := h
    simp [hlog] at hnone
  | start hstart => exact absurd hstart h
  | pause hstate | stop hstate => exact absurd hstate h
  | tick =>
    rw [tick_of_not_playing now player h]
    exact ⟨rfl, .refl player⟩
  | wake token hpending => exact absurd hpending h
  | seekPlaying | seek =>
    have hmoved : Answer.sought (player.seek now _).1 = .sought .moved := congrArg Prod.fst hrun
    exact absurd (by simpa using hmoved) h
  | speedPlaying number speed hspeed | speed number speed hspeed =>
    have hnone : Speed.ofNumber? number = none := h
    simp [hspeed] at hnone
  | startRefused | pauseRefused | stopRefused | wakeRefused | seekRefused | speedRefused =>
    exact ⟨rfl, .refl player⟩

-- From whenever on the news of a player are followed, the latest ones tell its status: each order ends with the
-- news of its player, or leaves the state, the cursor and the clock, as all do that are refused.
theorem latest_news_tell_status {config : Config} {player : Player} (h : Reachable config player) :
    (∀ orders status, latestNews? (player.obeyAll orders).effects = some status →
      status = (player.obeyAll orders).player.status) ∧
    (∀ order, Reports player (player.obey order)) ∧
    ∀ order, player.Refuses order → latestNews? (player.obey order).effects = none ∧
      player.SameView (player.obey order).player ∧ (player.obey order).player.status = player.status := by
  refine ⟨?_, fun order => reports_obey order h.blank, ?_⟩
  · intro orders status hlatest
    rcases latest_obeyAll orders h with hnews | ⟨hquiet, -⟩
    · exact Option.some.inj (hlatest.symm.trans hnews)
    · simp [hquiet] at hlatest
  · intro order hrefuses
    obtain ⟨hquiet, hsame⟩ := sameView_of_refuses h.blank hrefuses
    exact ⟨hquiet, hsame, hsame.status⟩

-- The token that a paused player no longer waits for, a speed that is none, and a second pause.
def vainOrders : List Order := [⟨2, .wake 1⟩, ⟨3, .setSpeed .nan⟩, ⟨4, .pause⟩]

-- It is paused while it waits, and of what it is told then nothing is news.
theorem latest_news_tell_status_of_paused :
    let paused := (waitingPlayer.obey ⟨1, .pause⟩).player
    Reachable Config.default paused ∧ (∀ order ∈ vainOrders, paused.Refuses order) ∧
      (paused.obey ⟨2, .wake 1⟩).player.status = paused.status ∧
      ∃ status, latestNews? (waitingPlayer.obeyAll (⟨1, .pause⟩ :: vainOrders)).effects = some status ∧
        status.state = .paused ∧
        status = (waitingPlayer.obeyAll (⟨1, .pause⟩ :: vainOrders)).player.status := by
  intro paused
  have hwaiting : Reachable Config.default waitingPlayer := Reachable.new.obeyAll _
  have hpaused : Reachable Config.default paused := hwaiting.obey _
  have hstate : paused.state = .paused := by decide +kernel
  have hpending : paused.pending ≠ some 1 := by decide +kernel
  have hrefuses : ∀ order ∈ vainOrders, paused.Refuses order := by
    simp [vainOrders, Refuses, hpending, hstate, Speed.ofNumber?]
  obtain ⟨-, -, hsame⟩ := (latest_news_tell_status hpaused).2.2 ⟨2, .wake 1⟩ hpending
  have hnews : (latestNews? (waitingPlayer.obeyAll (⟨1, .pause⟩ :: vainOrders)).effects).map (·.state) =
      some .paused := by
    decide +kernel
  obtain ⟨status, hstatus, hshown⟩ := Option.map_eq_some_iff.mp hnews
  exact ⟨hpaused, hrefuses, hsame, status, hstatus, hshown,
    (latest_news_tell_status hwaiting).1 _ status hstatus⟩

end VoyageLog.Player
