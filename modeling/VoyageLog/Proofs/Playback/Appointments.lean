import Mathlib.Data.List.Nodup
import VoyageLog.Proofs.Playback.Schedule

namespace VoyageLog.Player

-- A wake-up that was asked for: the record that was sent ahead, and the time on the wall.
structure Appointment where
  record : Record
  wall : Nat
deriving DecidableEq

def delayAsked? (effects : List Effect) : Option Nat :=
  effects.findSome? fun
    | .wake _ delay => some delay
    | _ => none

-- The last record that an order reads is the one that it has the player wait for.
def appointment? (player : Player) (order : Order) : Option Appointment := do
  let last ← (player.orderReads order).getLast?
  let delay ← delayAsked? (player.obey order).effects
  some ⟨last.1, order.now + delay⟩

def appointments (player : Player) : List Order → List Appointment
  | [] => []
  | order :: rest => (player.appointment? order).toList ++ (player.obey order).player.appointments rest

def Order.Wakes (order : Order) : Prop := ∃ token, order.command = .wake token

theorem delayAsked?_calls (effects : List Effect) : delayAsked? (calls effects) = delayAsked? effects := by
  induction effects with
  | nil => rfl
  | cons effect rest ih =>
    cases effect with
    | wake => rfl
    | cancel | emit | update => exact ih

theorem delayAsked?_calledOff (player : Player) (rest : List Effect) :
    delayAsked? (player.calledOff ++ rest) = delayAsked? rest := by
  cases hpending : player.pending <;> simp [calledOff, hpending, delayAsked?]

-- What an order asks for is told by its tick.
theorem appointment?_eq {player ready : Player} {order : Order} {schedule : Schedule}
    (hticking : player.ticking? order = some ready)
    (h : CatchesUp schedule order.now ready (player.obey order)) :
    (∃ before record instant wall, player.appointment? order = some ⟨record, wall⟩ ∧
      (wall : Int) = schedule.due instant ∧
      ready.ahead = before ++ (record, some instant) :: (player.obey order).player.ahead ∧
      (player.obey order).player.clock = ready.clock.withCurrent instant) ∨
    (player.appointment? order = none ∧ (player.obey order).player.ahead = []) := by
  cases h with
  | waits before record instant delay hahead hdue hnot hreads hlast hclock hcalls hdelay =>
    have hread : ((player.orderReads order).getLast?).map (·.1) = some record := by
      rw [← List.getLast?_map]
      simp [orderReads, hticking, hreads]
    have hasked : delayAsked? (player.obey order).effects = some delay := by
      rw [← delayAsked?_calls, hcalls, delayAsked?_calledOff]
      rfl
    obtain ⟨last, hlastRead, rfl⟩ := Option.map_eq_some_iff.mp hread
    exact .inl ⟨before, last.1, instant, order.now + delay, by simp [appointment?, hlastRead, hasked],
      by push_cast; exact hdelay, hahead, hclock⟩
  | ends hdue hreads hahead hclock hcalls =>
    have hasked : delayAsked? (player.obey order).effects = none := by
      rw [← delayAsked?_calls, hcalls, ← List.append_nil ready.calledOff, delayAsked?_calledOff]
      rfl
    exact .inr ⟨by simp [appointment?, hasked], hahead⟩

section Waking

variable {player : Player} {schedule : Schedule} {told : List (Record × Option Instant)}

-- A player that keeps to a schedule for what is told, as far as it has not come to it yet.
structure OnSchedule (schedule : Schedule) (told : List (Record × Option Instant)) (player : Player) : Prop where
  steady : Steady player
  capacity : 0 < player.capacity
  schedule : player.schedule? = some schedule
  ahead : player.ahead <:+ told

-- A wake-up that nobody waits for changes nothing and asks for nothing.
theorem obey_wake_of_stale (now : Nat) {token : Token} (h : player.pending ≠ some token) :
    player.obey ⟨now, .wake token⟩ = quietly player ∧ player.appointment? ⟨now, .wake token⟩ = none := by
  refine ⟨if_neg h, ?_⟩
  simp [appointment?, orderReads, ticking?, h]

-- An order that has the player tick by the schedule, and what it asks for then.
theorem onSchedule_of_ticking {order : Order} {ready : Player} (hsteady : Steady player)
    (hpos : 0 < player.capacity) (hticking : player.ticking? order = some ready)
    (hschedule : ready.schedule? = some schedule) (hahead : ready.ahead <:+ told) :
    OnSchedule schedule told (player.obey order).player ∧
      ∀ appointment ∈ player.appointment? order, ∃ instant,
        (appointment.record, some instant) ∈ told ∧ (appointment.wall : Int) = schedule.due instant := by
  have hroom : 0 < (player.obey order).player.capacity := by
    rw [capacity_obey]
    exact hpos
  have hafter : (player.obey order).player.schedule? = some schedule := by
    rw [obey_of_ticking hticking, schedule?_tick]
    exact hschedule
  have hcatches := catchesUp_obey hsteady hpos hticking hschedule
  rcases appointment?_eq hticking hcatches with
    ⟨before, record, instant, wall, hasks, hwall, hsplit, -⟩ | ⟨hnone, hover⟩
  · have hwhole : before ++ [(record, some instant)] ++ (player.obey order).player.ahead = ready.ahead := by
      rw [List.append_assoc]
      exact hsplit.symm
    have hmem : (record, some instant) ∈ ready.ahead := by simp [← hwhole]
    refine ⟨⟨hsteady.obey order, hroom, hafter, List.IsSuffix.trans ⟨_, hwhole⟩ hahead⟩, ?_⟩
    intro appointment happointment
    obtain rfl : ⟨record, wall⟩ = appointment := by simpa [hasks] using happointment
    exact ⟨instant, hahead.subset hmem, hwall⟩
  · exact ⟨⟨hsteady.obey order, hroom, hafter, hover ▸ List.nil_suffix⟩, by simp [hnone]⟩

theorem OnSchedule.wake (now : Nat) (token : Token) (h : OnSchedule schedule told player) :
    OnSchedule schedule told (player.obey ⟨now, .wake token⟩).player ∧
      ∀ appointment ∈ player.appointment? ⟨now, .wake token⟩, ∃ instant,
        (appointment.record, some instant) ∈ told ∧ (appointment.wall : Int) = schedule.due instant := by
  by_cases hpending : player.pending = some token
  · have hstate : player.state = .playing := h.steady.armed.mpr (by simp [hpending])
    have hticking : player.ticking? ⟨now, .wake token⟩ = some { player with pending := none } := by
      simp [ticking?, hpending, hstate]
    exact onSchedule_of_ticking h.steady h.capacity hticking h.schedule h.ahead
  · obtain ⟨hstay, hnone⟩ := obey_wake_of_stale now hpending
    rw [hstay, hnone]
    exact ⟨h, by simp⟩

-- In whatever way the player is woken, it keeps to the schedule.
theorem OnSchedule.due_appointments {orders : List Order} (h : OnSchedule schedule told player)
    (horders : ∀ order ∈ orders, order.Wakes) :
    ∀ appointment ∈ player.appointments orders, ∃ instant,
      (appointment.record, some instant) ∈ told ∧ (appointment.wall : Int) = schedule.due instant := by
  induction orders generalizing player with
  | nil => simp [appointments]
  | cons order rest ih =>
    obtain ⟨now, command⟩ := order
    obtain ⟨token, rfl⟩ : ∃ token, command = .wake token := horders ⟨now, command⟩ (by simp)
    obtain ⟨hnext, hone⟩ := h.wake now token
    intro appointment happointment
    rcases List.mem_append.mp happointment with hnow | hlater
    · exact hone appointment (by simpa using hnow)
    · exact ih hnext (fun order horder => horders order (by simp [horder])) appointment hlater

end Waking

-- Of what is told, a line tells one instant only.
theorem told_once {player : Player} {record other : Record} {instant found : Instant}
    (h : (record, some instant) ∈ player.ahead) (hother : (other, some found) ∈ player.ahead)
    (hline : record.line = other.line) : instant = found := by
  cases hlog : player.log with
  | none => simp [ahead, hlog] at h
  | some log =>
    have hlines : (player.ahead.map (·.1.line)).Nodup := by
      have hsorted := log.recording.pairwise_recordsAt log.next
      have hrecords : player.ahead.map (·.1.line) = log.unread.map (·.line) := by
        rw [← records_tellings player.clock.layout player.listener log.unread, List.map_map, ahead_of_log hlog]
        rfl
      rw [hrecords]
      exact List.Pairwise.map _ (fun _ _ hlt => Nat.ne_of_lt hlt) hsorted
    have hsame := List.inj_on_of_nodup_map hlines h hother hline
    exact Option.some.inj (congrArg (·.2) hsame)

-- The player whose instant an order ties to the wall: one that starts or resumes, one that lands or changes its speed
-- while it plays, and one that is told to.
def tied? (player : Player) (order : Order) : Option Player :=
  match order.command with
  | .start => if player.CanStart then some player else none
  | .rebase => some player
  | .seek fraction =>
    if player.state = .playing ∧ (player.seek order.now fraction).1 = .moved then some (player.obey order).player
    else none
  | .setSpeed number => if player.state = .playing ∧ (Speed.ofNumber? number).isSome then some player else none
  | _ => none

-- It is tied as far on as it has got.
def newAnchor? (player : Player) (order : Order) : Option Anchor :=
  (player.tied? order).bind fun tied => tied.clock.timeline.map fun timeline => ⟨order.now, timeline.elapsed⟩

-- All anchors that are let down in a run.
def anchors (player : Player) : List Order → List Anchor
  | [] => []
  | order :: rest => (player.newAnchor? order).toList ++ (player.obey order).player.anchors rest

theorem timeline_withLayout (player : Player) : player.withLayout.clock.timeline = player.clock.timeline := by
  have hcase := player.laidOut
  generalize player.withLayout = known at hcase
  cases hcase <;> rfl

theorem anchor_rebase {player : Player} (now : Nat) (htimed : player.isTimed) :
    ∃ timeline, player.clock.timeline = some timeline ∧
      (player.rebase now).anchor = some ⟨now, timeline.elapsed⟩ := by
  obtain ⟨timeline, htimeline⟩ := Option.isSome_iff_exists.mp htimed
  exact ⟨timeline, htimeline, by simp [Player.rebase, htimeline]⟩

-- Whoever plays by time after an order has just been tied to the wall, or it has played on as it was tied before.
inductive Ties (player : Player) (order : Order) : Prop
  | anew (anchor : Anchor) (hnew : player.newAnchor? order = some anchor)
      (hanchor : (player.obey order).player.anchor = some anchor)
  | asBefore (hnone : player.newAnchor? order = none) (hstate : player.state = .playing) (htimed : player.isTimed)
      (hanchor : (player.obey order).player.anchor = player.anchor)

theorem ties {player : Player} {order : Order} (hsteady : Steady player)
    (hplaying : (player.obey order).player.state = .playing) (htimed : (player.obey order).player.isTimed) :
    Ties player order := by
  obtain ⟨now, command⟩ := order
  obtain ⟨result, hrun, hcase, hobey⟩ := player.obeying now command
  cases hcase with
  | load | loadFailed | scanFailed | scan | pause | stop => simp [hobey] at hplaying
  | scanUnloaded => simp [hobey, isTimed, Clock.unknown, Clock.isTimed] at htimed
  | start hstart =>
    have hbefore : player.isTimed := by
      have hpacing := (pacing_tick now (player.readied now)).trans (pacing_readied now player)
      rw [hobey] at htimed
      exact (congrArg Pacing.timed hpacing).symm.trans htimed
    obtain ⟨timeline, htimeline⟩ := Option.isSome_iff_exists.mp hbefore
    refine .anew ⟨now, timeline.elapsed⟩ (by simp [newAnchor?, tied?, hstart, htimeline]) ?_
    rw [hobey]
    change (tick now (player.readied now)).player.anchor = _
    have hsame : player.withLayout.clock.timeline = some timeline := (timeline_withLayout player).trans htimeline
    rw [anchor_tick, readied]
    simp [Player.rebase, hsame]
  | tick =>
    have hstate : player.state = .playing := by
      by_contra hstill
      rw [hobey, tick_of_not_playing now player hstill] at hplaying
      exact hstill hplaying
    rw [hobey] at htimed
    exact .asBefore rfl hstate ((congrArg Pacing.timed (pacing_tick now player)).symm.trans htimed)
      (by rw [hobey, anchor_tick])
  | wake token hpending =>
    have hstate : player.state = .playing := hsteady.armed.mpr (by simp [hpending])
    have hpacing := pacing_tick now { player with pending := none }
    rw [hobey] at htimed
    exact .asBefore rfl hstate ((congrArg Pacing.timed hpacing).symm.trans htimed) (by rw [hobey, anchor_tick])
  | rebase =>
    rw [hobey] at htimed
    obtain ⟨timeline, htimeline, hanchor⟩ := anchor_rebase now (show player.isTimed from htimed)
    exact .anew ⟨now, timeline.elapsed⟩ (by simp [newAnchor?, tied?, htimeline]) (by rw [hobey]; exact hanchor)
  | seekPlaying fraction log hlog landing hlanding hstate =>
    have hmoved : (player.seek now fraction).1 = .moved := Answer.sought.inj (congrArg Prod.fst hrun)
    have hafter := hobey
    rw [hobey] at htimed
    obtain ⟨timeline, htimeline, hanchor⟩ :=
      anchor_rebase now (show (player.landed landing log).isTimed from htimed)
    refine .anew ⟨now, timeline.elapsed⟩ ?_ (by rw [hobey]; exact hanchor)
    have hclock : (player.obey ⟨now, .seek fraction⟩).player.clock.timeline = some timeline := by
      rw [hobey]
      exact htimeline
    simp [newAnchor?, tied?, hstate, hmoved, hclock]
  | seek _ _ _ _ _ hstate =>
    rw [hobey] at hplaying
    have hsame : player.state = .playing := hplaying
    rcases hstate with hstate | hstate <;> simp [hstate] at hsame
  | speedPlaying number speed hspeed hstate =>
    rw [hobey] at htimed
    obtain ⟨timeline, htimeline, hanchor⟩ := anchor_rebase now (show player.isTimed from htimed)
    exact .anew ⟨now, timeline.elapsed⟩ (by simp [newAnchor?, tied?, hstate, hspeed, htimeline])
      (by rw [hobey]; exact hanchor)
  | speed _ _ _ hstill =>
    rw [hobey] at hplaying
    exact absurd hplaying hstill
  | startRefused hstart =>
    rw [hobey] at hplaying htimed
    exact .asBefore (by simp [newAnchor?, tied?, hstart]) hplaying htimed (by rw [hobey]; rfl)
  | seekRefused fraction answer hanswer hseek =>
    rw [hobey] at hplaying htimed
    have hnot : (player.seek now fraction).1 ≠ .moved := hseek ▸ hanswer
    exact .asBefore (by simp [newAnchor?, tied?, hnot]) hplaying htimed (by rw [hobey]; rfl)
  | speedRefused number hspeed =>
    rw [hobey] at hplaying htimed
    exact .asBefore (by simp [newAnchor?, tied?, hspeed]) hplaying htimed (by rw [hobey]; rfl)
  | pauseRefused | stopRefused | wakeRefused =>
    rw [hobey] at hplaying htimed
    exact .asBefore rfl hplaying htimed (by rw [hobey]; rfl)

-- The last anchor that was let down holds.
theorem anchor_obeyAll {player : Player} (orders : List Order) (hsteady : Steady player)
    (hplaying : (player.obeyAll orders).player.state = .playing) (htimed : (player.obeyAll orders).player.isTimed) :
    (∃ anchor, (player.anchors orders).getLast? = some anchor ∧
      (player.obeyAll orders).player.anchor = some anchor) ∨
    (player.anchors orders = [] ∧ player.state = .playing ∧ player.isTimed ∧
      (player.obeyAll orders).player.anchor = player.anchor) := by
  induction orders generalizing player with
  | nil => exact .inr ⟨rfl, hplaying, htimed, rfl⟩
  | cons order rest ih =>
    rcases ih (hsteady.obey order) hplaying htimed with ⟨anchor, hlast, hanchor⟩ | ⟨hnone, hstate, hpaced, hkept⟩
    · refine .inl ⟨anchor, ?_, hanchor⟩
      rw [anchors, List.getLast?_append, hlast]
      rfl
    · cases ties hsteady hstate hpaced with
      | anew anchor hnew hanchor =>
        refine .inl ⟨anchor, ?_, hkept.trans hanchor⟩
        rw [anchors, hnone, hnew]
        rfl
      | asBefore hold hbefore hpacedBefore hanchor =>
        refine .inr ⟨?_, hbefore, hpacedBefore, hkept.trans hanchor⟩
        rw [anchors, hnone, hold]
        rfl

-- What is due at an anchor is what was due at the instant that it ties.
theorem Schedule.isDue_at_anchor {schedule : Schedule} (instant : Instant) :
    schedule.IsDue schedule.anchor.wall instant ↔ schedule.lead instant ≤ 0 := by
  unfold Schedule.IsDue Schedule.due
  omega

-- A player that is paused and resumed is tied to the wall anew, by the instant that it had got to.
theorem ticking_resumed {player : Player} {timeline : Timeline} (hsteady : Steady player)
    (hstate : player.state = .playing) (htimeline : player.clock.timeline = some timeline)
    (pausedAt resumedAt : Nat) :
    ∃ ready, (player.obey ⟨pausedAt, .pause⟩).player.ticking? ⟨resumedAt, .start⟩ = some ready ∧
      ready.ahead = player.ahead ∧ ready.clock.layout = player.clock.layout ∧
      ready.schedule? = some ⟨⟨resumedAt, timeline.elapsed⟩, timeline.first, player.speed⟩ := by
  have hpaused : (player.obey ⟨pausedAt, .pause⟩).player = { player with state := .paused, pending := none } := by
    simp [obey, Command.run, Player.pause, hstate]
  have hrests := hsteady.obey ⟨pausedAt, .pause⟩
  rw [hpaused] at hrests ⊢
  obtain ⟨log, hlog⟩ := hrests.loaded_of_begun (.inr rfl)
  have hstart : CanStart { player with state := .paused, pending := none } :=
    ⟨.inr rfl, Option.isSome_of_eq_some hlog⟩
  refine ⟨_, by rw [ticking?, if_pos hstart]; rfl, ?_⟩
  rw [readied, hrests.withLayout_of_begun (.inr rfl)]
  exact ⟨rfl, rfl, by simp [schedule?, Player.rebase, htimeline]⟩

-- However a player that plays by time has come there, the last anchor that was let down says when everything to come
-- is due. Whoever only wakes it, in time or late and with whatever tokens, has it ask for a wake-up at just that time,
-- the same in any two runs; and a resumed player has nothing more to catch up with, however long it was paused.
theorem pacing_does_not_drift {config : Config} {history : List Order} {player : Player} {timeline : Timeline}
    (hplayer : ((Player.new config).obeyAll history).player = player) (hstate : player.state = .playing)
    (htimeline : player.clock.timeline = some timeline) :
    ∃ anchor, ((Player.new config).anchors history).getLast? = some anchor ∧
      let schedule : Schedule := ⟨anchor, timeline.first, player.speed⟩
      (∀ orders, (∀ order ∈ orders, order.Wakes) → ∀ appointment ∈ player.appointments orders,
        ∃ instant, (appointment.record, some instant) ∈ player.ahead ∧
          (appointment.wall : Int) = schedule.due instant) ∧
      (∀ orders others, (∀ order ∈ orders, order.Wakes) → (∀ order ∈ others, order.Wakes) →
        ∀ appointment ∈ player.appointments orders, ∀ other ∈ player.appointments others,
          appointment.record.line = other.record.line → appointment.wall = other.wall) ∧
      ∀ pausedAt resumedAt,
        let resumed : Schedule := { schedule with anchor := ⟨resumedAt, timeline.elapsed⟩ }
        (∃ ready, (player.obey ⟨pausedAt, .pause⟩).player.ticking? ⟨resumedAt, .start⟩ = some ready ∧
          ready.schedule? = some resumed) ∧
        ∀ instant, resumed.IsDue resumedAt instant ↔
          player.speed.wallMicroseconds (instant.since timeline.first - timeline.elapsed) ≤ 0 := by
  have hreach : Reachable config player := hplayer ▸ Reachable.new.obeyAll history
  have htimed : player.isTimed := by simp [isTimed, Clock.isTimed, htimeline]
  obtain ⟨anchor, hlast, hanchor⟩ : ∃ anchor, ((Player.new config).anchors history).getLast? = some anchor ∧
      player.anchor = some anchor := by
    subst hplayer
    -- A new player does not play.
    exact (anchor_obeyAll history (Steady.new config) hstate htimed).resolve_right (by simp [Player.new])
  have hschedule : player.schedule? = some ⟨anchor, timeline.first, player.speed⟩ := by
    simp [schedule?, hanchor, htimeline]
  have hkeeps : OnSchedule ⟨anchor, timeline.first, player.speed⟩ player.ahead player :=
    ⟨hreach.steady, hreach.capacity_pos, hschedule, List.suffix_refl _⟩
  refine ⟨anchor, hlast, fun orders horders => hkeeps.due_appointments horders, ?_, ?_⟩
  · intro orders others horders hothers appointment happointment other hother hline
    obtain ⟨instant, hmem, hdue⟩ := hkeeps.due_appointments horders appointment happointment
    obtain ⟨found, hfound, hdueOther⟩ := hkeeps.due_appointments hothers other hother
    obtain rfl := told_once hmem hfound hline
    exact Int.ofNat.inj (hdue.trans hdueOther.symm)
  · intro pausedAt resumedAt
    obtain ⟨ready, hticking, -, -, hresumed⟩ :=
      ticking_resumed hreach.steady hstate htimeline pausedAt resumedAt
    exact ⟨⟨ready, hticking, hresumed⟩, fun instant => Schedule.isDue_at_anchor instant⟩

-- In one run both wake-ups come in time, in the other one only one comes, and late; both wait for the same row then.
theorem pacing_does_not_drift_three_seconds_late :
    gappedPlayer.state = .playing ∧
      gappedPlayer.appointments [⟨2000000000, .wake 1⟩, ⟨4000000000, .wake 2⟩] =
        [⟨⟨5, "2024-01-01T12:00:04Z,d".toList⟩, 4000000000⟩, ⟨⟨6, "2024-01-01T12:00:09Z,e".toList⟩, 9000000000⟩] ∧
      gappedPlayer.appointments [⟨5000000000, .wake 1⟩] =
        [⟨⟨6, "2024-01-01T12:00:09Z,e".toList⟩, 9000000000⟩] ∧
      ∃ timeline anchor, gappedPlayer.clock.timeline = some timeline ∧
        ((Player.new Config.default).anchors
          [⟨0, .load gappedTable⟩, ⟨0, .scan⟩, ⟨0, .start⟩]).getLast? = some anchor ∧
        ∃ instant, (9000000000 : Int) = Schedule.due ⟨anchor, timeline.first, gappedPlayer.speed⟩ instant := by
  have hstate : gappedPlayer.state = .playing := by decide +kernel
  have hintime : gappedPlayer.appointments [⟨2000000000, .wake 1⟩, ⟨4000000000, .wake 2⟩] =
      [⟨⟨5, "2024-01-01T12:00:04Z,d".toList⟩, 4000000000⟩,
        ⟨⟨6, "2024-01-01T12:00:09Z,e".toList⟩, 9000000000⟩] := by decide +kernel
  have hlate : gappedPlayer.appointments [⟨5000000000, .wake 1⟩] =
      [⟨⟨6, "2024-01-01T12:00:09Z,e".toList⟩, 9000000000⟩] := by decide +kernel
  obtain ⟨timeline, htimeline⟩ : ∃ timeline, gappedPlayer.clock.timeline = some timeline :=
    Option.isSome_iff_exists.mp (by decide +kernel)
  have hplayer : ((Player.new Config.default).obeyAll
      [⟨0, .load gappedTable⟩, ⟨0, .scan⟩, ⟨0, .start⟩]).player = gappedPlayer := rfl
  obtain ⟨anchor, hlast, hdue, -⟩ := pacing_does_not_drift hplayer hstate htimeline
  obtain ⟨instant, -, hwall⟩ := hdue [⟨5000000000, .wake 1⟩] (by simp [Order.Wakes])
    ⟨⟨6, "2024-01-01T12:00:09Z,e".toList⟩, 9000000000⟩ (by rw [hlate]; exact List.mem_cons_self)
  exact ⟨hstate, hintime, hlate, timeline, anchor, htimeline, hlast, instant, hwall⟩

end VoyageLog.Player
