import VoyageLog.Proofs.Playback.Dates
import VoyageLog.Proofs.Playback.States

namespace VoyageLog.Player

-- Whether a recording is played by time, from when to when, by whose time, and whom the listener heeds.
structure Pacing where
  timed : Bool
  first : Option Instant
  last : Option Instant
  primary : Option TimeSource
  inventory : TimeSource.Inventory
  lock : Option TimeSource

def pacing (player : Player) : Pacing where
  timed := player.isTimed
  first := player.clock.timeline.map (·.first)
  last := player.clock.timeline.map (·.last)
  primary := player.clock.primary
  inventory := player.clock.inventory
  lock := player.listener.lock

theorem pacing_rested (player : Player) : player.rested.pacing = player.pacing := by
  simp only [pacing, rested, isTimed, Clock.isTimed_backToFirst, TimeSource.Listener.undated]
  cases htimeline : player.clock.timeline <;> simp [Clock.backToFirst, htimeline]

theorem pacing_of_rested {player other : Player} (h : other.rested = player.rested) :
    other.pacing = player.pacing := by
  rw [← pacing_rested, h, pacing_rested]

theorem isTimed_of_rested {player other : Player} (h : other.rested = player.rested) :
    other.isTimed = player.isTimed :=
  congrArg Pacing.timed (pacing_of_rested h)

theorem pacing_tick (now : Nat) (player : Player) : (tick now player).player.pacing = player.pacing := by
  obtain ⟨log, state, pending, issued, hrested⟩ := rested_tick now player
  rw [← pacing_rested, hrested]
  exact pacing_rested player

theorem pacing_readied (now : Nat) (player : Player) : (player.readied now).pacing = player.pacing := by
  have hcase := player.laidOut
  unfold readied
  generalize player.withLayout = known at hcase
  cases hcase <;> rfl

theorem pacing_landed {player : Player} {log : Log} {fraction : Binary64} {landing : Landing}
    (hlanding : player.landing? fraction log = .ok landing) :
    (player.landed landing log).pacing = player.pacing := by
  have hlock : landing.listener.lock = player.listener.lock :=
    congrArg (·.lock) (undated_of_lands (lands hlanding))
  cases hinstant : landing.instant with
  | none => simp [pacing, landed, isTimed, hinstant, hlock]
  | some instant =>
    cases htimeline : player.clock.timeline <;>
      simp [pacing, landed, isTimed, Clock.isTimed, Clock.withCurrent, hinstant, hlock, htimeline]

-- No order but a load or a scan changes what paces the playback.
theorem pacing_obey (player : Player) {order : Order} (horder : order.command.Plays) :
    (player.obey order).player.pacing = player.pacing := by
  obtain ⟨now, command⟩ := order
  obtain ⟨result, -, hcase, hobey⟩ := player.obeying now command
  rw [hobey]
  cases hcase with
  | load | loadFailed | scanUnloaded | scanFailed | scan => exact horder.elim
  | start => exact (pacing_tick now (player.readied now)).trans (pacing_readied now player)
  | stop =>
    cases htimeline : player.clock.timeline <;>
      simp [pacing, isTimed, Clock.isTimed, Clock.backToFirst, TimeSource.Listener.undated, htimeline]
  | tick => exact pacing_tick now player
  | wake => exact pacing_tick now { player with pending := none }
  | seekPlaying fraction log hlog landing hlanding => exact pacing_landed hlanding
  | seek fraction log hlog landing hlanding => exact pacing_landed hlanding
  | pause | rebase | speedPlaying | speed => rfl
  | startRefused | pauseRefused | stopRefused | wakeRefused | seekRefused | speedRefused => rfl

theorem pacing_obeyAll {player : Player} (orders : List Order)
    (horders : ∀ order ∈ orders, order.command.Plays) :
    (player.obeyAll orders).player.pacing = player.pacing := by
  induction orders generalizing player with
  | nil => rfl
  | cons order rest ih =>
    have hone := pacing_obey player (horders order (by simp))
    exact (ih fun other hother => horders other (by simp [hother])).trans hone

-- A player that plays by time knows how the time on the wall goes with that of the recording.
def Anchored (player : Player) : Prop := player.isTimed → player.anchor.isSome

theorem anchored_rebase (now : Nat) (player : Player) : (player.rebase now).Anchored := by
  intro htimed
  obtain ⟨timeline, htimeline⟩ := Option.isSome_iff_exists.mp htimed
  have hsame : player.clock.timeline = some timeline := htimeline
  simp [rebase, hsame]

theorem anchor_of_rested {player other : Player} (h : other.rested = player.rested) :
    other.anchor = player.anchor := by
  have hanchor : other.rested.anchor = player.rested.anchor := congrArg Player.anchor h
  exact hanchor

theorem anchor_tick (now : Nat) (player : Player) : (tick now player).player.anchor = player.anchor := by
  obtain ⟨log, state, pending, issued, hrested⟩ := rested_tick now player
  change (tick now player).player.rested.anchor = player.rested.anchor
  rw [hrested]

theorem Anchored.of_rested {player other : Player} (h : player.Anchored)
    (hrested : other.rested = player.rested) : other.Anchored := by
  have htimed := isTimed_of_rested hrested
  intro hother
  rw [htimed] at hother
  exact anchor_of_rested hrested ▸ h hother

theorem Anchored.tick {player : Player} (now : Nat) (h : player.Anchored) :
    (tick now player).player.Anchored := by
  obtain ⟨log, state, pending, issued, hrested⟩ := rested_tick now player
  have hsame : Anchored { player with log, state, pending, issued } := h
  exact hsame.of_rested hrested

theorem anchored_obey {player : Player} (order : Order) (hsteady : Steady player)
    (h : player.state = .playing → player.Anchored)
    (hplaying : (player.obey order).player.state = .playing) : (player.obey order).player.Anchored := by
  obtain ⟨now, command⟩ := order
  obtain ⟨result, -, hcase, hobey⟩ := player.obeying now command
  rw [hobey] at hplaying ⊢
  cases hcase with
  | load | loadFailed | scanFailed | scan | pause | stop => simp at hplaying
  | scanUnloaded => simp [Anchored, isTimed, Clock.unknown, Clock.isTimed]
  | start => exact (anchored_rebase now _).tick now
  | tick =>
    by_cases hstate : player.state = .playing
    · exact (h hstate).tick now
    · rw [tick_of_not_playing now player hstate] at hplaying
      exact absurd hplaying hstate
  | wake token hpending =>
    have hstate : player.state = .playing := hsteady.armed.mpr (by simp [hpending])
    have hready : Anchored { player with pending := none } := h hstate
    exact hready.tick now
  | seekPlaying fraction log hlog landing hlanding => exact anchored_rebase now (player.landed landing log)
  | seek _ _ _ landing _ hstate =>
    have hsame : player.state = .playing := hplaying
    rcases hstate with hstate | hstate <;> simp [hstate] at hsame
  | rebase => exact anchored_rebase now player
  | speedPlaying => exact anchored_rebase now player
  | speed => exact h hplaying
  | startRefused | pauseRefused | stopRefused | wakeRefused | seekRefused | speedRefused => exact h hplaying

theorem Reachable.anchored {config : Config} {player : Player} (h : Reachable config player)
    (hstate : player.state = .playing) : player.Anchored := by
  induction h with
  | new => simp [Player.new] at hstate
  | obey order hreach ih => exact anchored_obey order hreach.steady ih hstate

-- An order hands its tick a player that is tied to the wall and paced as before.
theorem anchored_of_ticking {player ready : Player} {order : Order}
    (h : player.state = .playing → player.Anchored) (hticking : player.ticking? order = some ready) :
    ready.Anchored ∧ ready.pacing = player.pacing := by
  cases readies hticking with
  | start now => exact ⟨anchored_rebase now _, pacing_readied now player⟩
  | tick _ hstate | wake _ _ _ hstate => exact ⟨h hstate, rfl⟩

theorem rested_of_mem_reads {now : Nat} {records : List Record} {player : Player} {read : Record × Player}
    (h : read ∈ reads now records player) : read.2.rested = player.rested := by
  induction records generalizing player with
  | nil => cases h
  | cons record rest ih =>
    have hone := rested_take now record player
    rcases List.mem_cons.mp h with rfl | h
    · rfl
    · rcases htake : player.take now record with ⟨next, _ | delay⟩
      · rw [htake] at h hone
        exact (ih h).trans hone
      · simp [htake] at h

theorem rested_of_mem_tickReads {now : Nat} {player : Player} {read : Record × Player}
    (h : read ∈ tickReads now player) : read.2.rested = rested { player with pending := none } := by
  unfold tickReads at h
  split at h
  · exact rested_of_mem_reads h
  · cases h

-- Whatever is ordered between two scans, the playback is paced by the same; and whenever a player plays by
-- time, above all when it takes a record, it is tied to the wall.
theorem paced_alike_and_anchored {config : Config} {player : Player} (h : Reachable config player) :
    (∀ orders : List Order, (∀ order ∈ orders, order.command.Plays) →
      (player.obeyAll orders).player.pacing = player.pacing) ∧
    (player.state = .playing → player.isTimed → player.anchor.isSome) ∧
    ∀ order, ∀ read ∈ player.orderReads order,
      read.2.pacing = player.pacing ∧ (read.2.isTimed → read.2.anchor.isSome) := by
  refine ⟨pacing_obeyAll, fun hstate => h.anchored hstate, ?_⟩
  intro order read hread
  cases hticking : player.ticking? order with
  | none => simp [orderReads, hticking] at hread
  | some ready =>
    obtain ⟨hanchored, hpacing⟩ := anchored_of_ticking h.anchored hticking
    simp only [orderReads, hticking] at hread
    have hrested := rested_of_mem_tickReads hread
    have hbare : Anchored { ready with pending := none } := hanchored
    exact ⟨(pacing_of_rested hrested).trans hpacing, hbare.of_rested hrested⟩

-- A recording of two sentences that are two seconds apart, and one between them that tells no time.
def threeSentences : Recording :=
  Recording.ofLines "three sentences"
    ["$GPRMC,120005,A,,,,,,,010124*".toList, "$GPTXT,*".toList, "$GPRMC,120007,A,,,,,,,010124*".toList]

-- Two seconds are to wait for the last sentence.
def waitingPlayer : Player :=
  ((Player.new Config.default).obeyAll [⟨0, .load threeSentences⟩, ⟨0, .scan⟩, ⟨0, .start⟩]).player

-- It is paced by time and stays so when it has been paused, sought and stopped.
theorem paced_alike_two_seconds_apart :
    Reachable Config.default waitingPlayer ∧ waitingPlayer.state = .playing ∧ waitingPlayer.isTimed ∧
      waitingPlayer.anchor.isSome ∧
      (waitingPlayer.obeyAll [⟨1, .pause⟩, ⟨2, .seek Binary64.one⟩, ⟨3, .start⟩, ⟨4, .stop⟩]).player.pacing =
        waitingPlayer.pacing := by
  have hreach : Reachable Config.default waitingPlayer := Reachable.new.obeyAll _
  have hstate : waitingPlayer.state = .playing := by decide +kernel
  have htimed : waitingPlayer.isTimed := by decide +kernel
  obtain ⟨hpaced, hanchored, -⟩ := paced_alike_and_anchored hreach
  exact ⟨hreach, hstate, htimed, hanchored hstate htimed, hpaced _ (by simp [Command.Plays])⟩

end VoyageLog.Player
