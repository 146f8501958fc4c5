import VoyageLog.Proofs.Playback.Anchors
import VoyageLog.Proofs.Playback.Timer

namespace VoyageLog

open TimeSource

-- A clock that has passed an instant, if there was one to pass.
def Clock.passing (clock : Clock) (instant : Option Instant) : Clock :=
  instant.elim clock clock.withCurrent

theorem Clock.passing_passing (clock : Clock) (earlier later : Option Instant) :
    (clock.passing earlier).passing later = clock.passing (later.or earlier) := by
  cases earlier <;> cases later <;> simp [Clock.passing, Clock.withCurrent_withCurrent]

structure Schedule where
  anchor : Player.Anchor
  first : Instant
  speed : Speed

namespace Schedule

-- The microseconds on the wall from the anchor to an instant.
def lead (schedule : Schedule) (instant : Instant) : Int :=
  schedule.speed.wallMicroseconds (instant.since schedule.first - schedule.anchor.offset)

-- The time on the wall for an instant.
def due (schedule : Schedule) (instant : Instant) : Int :=
  schedule.anchor.wall + schedule.lead instant * 1000

-- What lies before the anchor is due at any time.
def IsDue (schedule : Schedule) (now : Nat) (instant : Instant) : Prop :=
  schedule.lead instant < 0 ∨ schedule.due instant ≤ now

end Schedule

namespace Player

def schedule? (player : Player) : Option Schedule :=
  match player.anchor, player.clock.timeline with
  | some anchor, some timeline => some ⟨anchor, timeline.first, player.speed⟩
  | _, _ => none

section Scheduled

variable {player : Player} {schedule : Schedule}

theorem exists_of_schedule (h : player.schedule? = some schedule) :
    ∃ anchor timeline, player.anchor = some anchor ∧ player.clock.timeline = some timeline ∧
      schedule = ⟨anchor, timeline.first, player.speed⟩ := by
  cases hanchor : player.anchor <;> cases htimeline : player.clock.timeline <;>
    simp_all [schedule?, eq_comm]

theorem schedule?_rested (player : Player) : player.rested.schedule? = player.schedule? := by
  cases hanchor : player.anchor <;> cases htimeline : player.clock.timeline <;>
    simp [schedule?, rested, Clock.backToFirst, hanchor, htimeline]

theorem schedule?_of_rested {other : Player} (h : other.rested = player.rested) :
    other.schedule? = player.schedule? := by
  rw [← schedule?_rested, h, schedule?_rested]

theorem schedule?_tick (now : Nat) (player : Player) : (tick now player).player.schedule? = player.schedule? := by
  obtain ⟨log, state, pending, issued, hrested⟩ := rested_tick now player
  have hsame : Player.schedule? { player with log, state, pending, issued } = player.schedule? := rfl
  rw [← hsame]
  exact schedule?_of_rested hrested

theorem Anchored.schedule? (h : player.Anchored) (htimed : player.isTimed) :
    ∃ schedule, player.schedule? = some schedule := by
  obtain ⟨anchor, hanchor⟩ := Option.isSome_iff_exists.mp (h htimed)
  obtain ⟨timeline, htimeline⟩ := Option.isSome_iff_exists.mp htimed
  exact ⟨⟨anchor, timeline.first, player.speed⟩, by simp [Player.schedule?, hanchor, htimeline]⟩

theorem isTimed_of_timeline {timeline : Timeline} (h : player.clock.timeline = some timeline) : player.isTimed :=
  Option.isSome_of_eq_some h

theorem isTimed_of_schedule (h : player.schedule? = some schedule) : player.isTimed := by
  obtain ⟨anchor, timeline, -, htimeline, -⟩ := exists_of_schedule h
  exact isTimed_of_timeline htimeline

end Scheduled

-- How long a player waits after what it is told: for just what is not due, and until it is.
inductive Waits (schedule : Schedule) (now : Nat) : Option Instant → Option Nat → Prop
  | goesOn {told : Option Instant} (hdue : ∀ instant ∈ told, schedule.IsDue now instant) :
      Waits schedule now told none
  | waits (instant : Instant) (delay : Nat) (hnot : ¬schedule.IsDue now instant)
      (hdelay : (now + delay : Int) = schedule.due instant) : Waits schedule now (some instant) (some delay)

theorem Waits.due {schedule : Schedule} {now : Nat} {told : Option Instant} (h : Waits schedule now told none) :
    ∀ instant ∈ told.toList, schedule.IsDue now instant := by
  cases h with
  | goesOn hdue => simpa using hdue

theorem waits_delayUntil? {player : Player} {schedule : Schedule} (now : Nat) (instant : Instant)
    (h : player.schedule? = some schedule) :
    Waits schedule now (some instant) (player.delayUntil? now instant) := by
  obtain ⟨anchor, timeline, hanchor, htimeline, rfl⟩ := exists_of_schedule h
  simp only [delayUntil?, hanchor, htimeline]
  split
  · exact .goesOn fun _ hsame => .inl (by simpa [← Option.mem_some.mp hsame, Schedule.lead] using ‹_›)
  · split
    · refine .waits instant _ ?_ ?_
      · simp only [Schedule.IsDue, Schedule.due, Schedule.lead]
        omega
      · simp only [Schedule.due, Schedule.lead]
        omega
    · refine .goesOn fun _ hsame => .inr ?_
      obtain rfl := Option.mem_some.mp hsame
      simp only [Schedule.due, Schedule.lead]
      omega

-- The records of one pass, each with the instant that it tells, if it tells one.
def tellings (layout : Option Layout) : Listener → List Record → List (Record × Option Instant)
  | _, [] => []
  | listener, record :: rest =>
    let (found, next) := instantOf layout listener record
    (record, found) :: tellings layout next rest

theorem tellings_cons (layout : Option Layout) (listener : Listener) (record : Record) (rest : List Record) :
    tellings layout listener (record :: rest) =
      (record, (instantOf layout listener record).1) ::
        tellings layout (instantOf layout listener record).2 rest := rfl

theorem records_tellings (layout : Option Layout) (listener : Listener) (records : List Record) :
    (tellings layout listener records).map (·.1) = records := by
  induction records generalizing listener with
  | nil => rfl
  | cons record rest ih => rw [tellings_cons, List.map_cons, ih]

-- All that a player has still to come, and what it will tell.
def ahead (player : Player) : List (Record × Option Instant) :=
  match player.log with
  | none => []
  | some log => tellings player.clock.layout player.listener log.unread

theorem ahead_of_log {player : Player} {log : Log} (h : player.log = some log) :
    player.ahead = tellings player.clock.layout player.listener log.unread := by
  simp [ahead, h]

-- The instants among what is told.
def instants (told : List (Record × Option Instant)) : List Instant := told.filterMap (·.2)

theorem instants_cons (record : Record) (found : Option Instant) (rest : List (Record × Option Instant)) :
    instants ((record, found) :: rest) = found.toList ++ instants rest := by
  cases found <;> rfl

section Taking

variable {player : Player} {schedule : Schedule}

theorem ofRecord_timed (layout : Option Layout) (listener : Listener) (record : Record) :
    (Reading.ofRecord layout true listener record).1.bind (·.instant) = (instantOf layout listener record).1 ∧
      (Reading.ofRecord layout true listener record).2 = (instantOf layout listener record).2 := by
  rcases layout with _ | _ | columns
  · exact ⟨rfl, rfl⟩
  · exact ⟨rfl, rfl⟩
  · refine ⟨?_, rfl⟩
    cases hrow : columns.row? record.text <;> simp [Reading.ofRecord, instantOf, hrow]

-- A player that plays by time takes a record for what it tells, and waits if that is not due.
theorem take_timed (now : Nat) (record : Record) (hschedule : player.schedule? = some schedule) :
    (player.take now record).1.listener = (instantOf player.clock.layout player.listener record).2 ∧
      (player.take now record).1.clock =
        player.clock.passing (instantOf player.clock.layout player.listener record).1 ∧
      Waits schedule now (instantOf player.clock.layout player.listener record).1 (player.take now record).2 := by
  have htimed := isTimed_of_schedule hschedule
  obtain ⟨hinstant, hlistener⟩ := ofRecord_timed player.clock.layout player.listener record
  rw [← hinstant, ← hlistener]
  unfold take
  rw [htimed]
  rcases Reading.ofRecord player.clock.layout true player.listener record with
    ⟨_ | ⟨payload, _ | instant⟩, listener⟩
  · exact ⟨rfl, rfl, .goesOn (by simp)⟩
  · have hpaced : (hold payload { player with listener }).isTimed = true := htimed
    refine ⟨rfl, rfl, ?_⟩
    simp only [hpaced, Bool.not_true, Bool.false_and, Bool.false_eq_true, if_false]
    exact .goesOn (by simp)
  · exact ⟨rfl, rfl, waits_delayUntil? now instant hschedule⟩

-- What is read to the end was all due.
theorem due_of_takeAll {taken : Player} {now : Nat} {records : List Record}
    (hschedule : player.schedule? = some schedule) (htaken : takeAll now records player = (taken, none)) :
    (∀ instant ∈ instants (tellings player.clock.layout player.listener records), schedule.IsDue now instant) ∧
      taken.clock =
        player.clock.passing (instants (tellings player.clock.layout player.listener records)).getLast? := by
  induction records generalizing player with
  | nil =>
    obtain rfl : player = taken := congrArg Prod.fst htaken
    exact ⟨by simp [instants, tellings], rfl⟩
  | cons record rest ih =>
    obtain ⟨hlistener, hclock, hwaits⟩ := take_timed now record hschedule
    have hrested := rested_take now record player
    have hlayout := layout_take now record player
    rcases htake : player.take now record with ⟨next, _ | delay⟩
    · simp only [htake] at hlistener hclock hwaits hrested hlayout
      simp only [takeAll, htake] at htaken
      obtain ⟨hdue, hafter⟩ := ih ((schedule?_of_rested hrested).trans hschedule) htaken
      rw [hlistener, hlayout] at hdue hafter
      rw [tellings_cons, instants_cons, List.getLast?_append]
      refine ⟨?_, ?_⟩
      · intro instant hinstant
        rcases List.mem_append.mp hinstant with htold | hlater
        · exact hwaits.due instant htold
        · exact hdue instant hlater
      · rw [hafter, hclock, Clock.passing_passing]
        cases (instantOf player.clock.layout player.listener record).1 <;> rfl
    · simp [takeAll, htake] at htaken

-- The first record that is not due is the last one that is read.
theorem undue_of_takeAll {taken : Player} {now line delay : Nat} {records : List Record}
    (hschedule : player.schedule? = some schedule)
    (htaken : takeAll now records player = (taken, some (line, delay))) :
    ∃ before record instant rest,
      tellings player.clock.layout player.listener records =
        before ++ (record, some instant) :: tellings taken.clock.layout taken.listener rest ∧
      records = before.map (·.1) ++ record :: rest ∧ line = record.line + 1 ∧
      (reads now records player).map (·.1) = before.map (·.1) ++ [record] ∧
      (∀ passed ∈ instants before, schedule.IsDue now passed) ∧ ¬schedule.IsDue now instant ∧
      (now + delay : Int) = schedule.due instant ∧ taken.clock = player.clock.withCurrent instant := by
  induction records generalizing player with
  | nil => simp [takeAll] at htaken
  | cons first rest ih =>
    obtain ⟨hlistener, hclock, hwaits⟩ := take_timed now first hschedule
    have hrested := rested_take now first player
    have hlayout := layout_take now first player
    rw [tellings_cons]
    rcases htake : player.take now first with ⟨next, _ | wait⟩
    · simp only [htake] at hlistener hclock hwaits hrested hlayout
      simp only [takeAll, htake] at htaken
      obtain ⟨before, record, instant, others, htold, hrecords, hline, hreads, hdue, hnot, hdelay, hafter⟩ :=
        ih ((schedule?_of_rested hrested).trans hschedule) htaken
      rw [hlistener, hlayout] at htold
      refine ⟨(first, (instantOf player.clock.layout player.listener first).1) :: before, record, instant, others,
        by rw [htold, List.cons_append], by simp [hrecords], hline, by simp [reads, htake, hreads], ?_, hnot, hdelay,
        ?_⟩
      · intro passed hpassed
        rw [instants_cons] at hpassed
        rcases List.mem_append.mp hpassed with htold | hlater
        · exact hwaits.due passed htold
        · exact hdue passed hlater
      · rw [hafter, hclock]
        exact Clock.passing_passing player.clock _ (some instant)
    · simp only [htake] at hlistener hclock hwaits hlayout
      simp only [takeAll, htake, Prod.mk.injEq, Option.some.injEq] at htaken
      obtain ⟨rfl, rfl, rfl⟩ := htaken
      generalize htold : (instantOf player.clock.layout player.listener first).1 = told at hwaits hclock
      cases hwaits with
      | waits instant _ hnot hdelay =>
        exact ⟨[], first, instant, rest, by rw [hlistener, hlayout]; rfl, rfl, rfl, by simp [reads, htake],
          by simp [instants], hnot, hdelay, hclock⟩

-- What tells an instant can be played.
theorem payload_of_told {layout : Option Layout} {listener : Listener} {records : List Record} {record : Record}
    {instant : Instant} (h : (record, some instant) ∈ tellings layout listener records) :
    ∃ payload, record.payload? layout = some payload := by
  induction records generalizing listener with
  | nil => cases h
  | cons first rest ih =>
    rw [tellings_cons] at h
    rcases List.mem_cons.mp h with hfirst | hrest
    · obtain ⟨rfl, htold⟩ := Prod.mk.inj hfirst
      rcases layout with _ | _ | columns
      · exact ⟨record.text, rfl⟩
      · exact ⟨record.text, rfl⟩
      · obtain ⟨row, hrow, -⟩ := Option.bind_eq_some_iff.mp htold.symm
        exact ⟨row.message, by simp [Record.payload?, hrow]⟩
    · exact ih hrest

end Taking

-- What a tick does with all that is still to come. Either it comes to a record that is not due: that one is the last
-- to be read and to be sent, and the tick waits until it is due. Or all is due, and the playback ends.
inductive CatchesUp (schedule : Schedule) (now : Nat) (ready : Player) (step : Step) : Prop
  | waits (before : List (Record × Option Instant)) (record : Record) (instant : Instant) (delay : Nat)
      (hahead : ready.ahead = before ++ (record, some instant) :: step.player.ahead)
      (hdue : ∀ passed ∈ instants before, schedule.IsDue now passed)
      (hnot : ¬schedule.IsDue now instant)
      (hreads : (tickReads now ready).map (·.1) = before.map (·.1) ++ [record])
      (hlast : ∃ payload, record.payload? ready.clock.layout = some payload ∧
        (emitted step.effects).getLast? = some payload)
      (hclock : step.player.clock = ready.clock.withCurrent instant)
      (hcalls : calls step.effects = ready.calledOff ++ [.wake (ready.issued + 1) delay])
      (hdelay : (now + delay : Int) = schedule.due instant)
      (hpending : step.player.pending = some (ready.issued + 1))
      (hstate : step.player.state = .playing)
  | ends (hdue : ∀ passed ∈ instants ready.ahead, schedule.IsDue now passed)
      (hreads : (tickReads now ready).map (·.1) = ready.ahead.map (·.1))
      (hahead : step.player.ahead = [])
      (hclock : step.player.clock = ready.clock.passing (instants ready.ahead).getLast?)
      (hcalls : calls step.effects = ready.calledOff)
      (hpending : step.player.pending = none)
      (hstate : step.player.state = .atEnd)

theorem catchesUp_tick {player : Player} {schedule : Schedule} (now : Nat) (hready : Ready player)
    (hpos : 0 < player.capacity) (hstate : player.state = .playing) (hschedule : player.schedule? = some schedule) :
    CatchesUp schedule now player (tick now player) := by
  have hbare : schedule? { player with pending := none } = some schedule := hschedule
  have hsent := emitted_tick now hready.held hpos
  have hcase := ticked now player
  generalize tick now player = step at hcase hsent
  cases hcase with
  | still hstill => exact absurd hstate hstill
  | unloaded _ hlog =>
    have hidle := hready.loaded hlog
    simp [hstate] at hidle
  | ended _ log hlog taken htaken =>
    have hahead := ahead_of_log hlog
    obtain ⟨hdue, hclock⟩ := due_of_takeAll hbare htaken
    have hread := tickReads_of_playing now hstate hlog
    refine .ends ?_ ?_ ?_ ?_ (by simp) rfl rfl
    · rw [hahead]
      exact hdue
    · rw [hread, hahead, records_tellings, reads_of_takeAll_none htaken]
    · simp [ahead, Log.unread_moveTo, Log.lineCount, Recording.recordsAt_lineCount, tellings]
    · rw [hahead]
      exact hclock
  | waits _ log hlog taken line delay htaken =>
    have hahead := ahead_of_log hlog
    obtain ⟨before, record, instant, rest, htold, hrecords, rfl, hreads, hdue, hnot, hdelay, hclock⟩ :=
      undue_of_takeAll hbare htaken
    have hrest : (log.moveTo (record.line + 1)).unread = rest := by
      rw [Log.unread_moveTo]
      exact (Recording.stretch_of_recordsAt hrecords).2
    have hplaying : taken.state = .playing := (congrArg Player.state (rested_of_takeAll htaken)).trans hstate
    have hread := tickReads_of_playing now hstate hlog
    rw [hread, hreads] at hsent
    refine .waits before record instant delay ?_ hdue hnot (hread ▸ hreads) ?_ hclock (by simp) hdelay rfl hplaying
    · rw [← hrest] at htold
      exact hahead.trans htold
    · obtain ⟨payload, hpayload⟩ := payload_of_told
        (show (record, some instant) ∈ tellings player.clock.layout player.listener log.unread by simp [htold])
      refine ⟨payload, hpayload, ?_⟩
      obtain ⟨room, hroom⟩ := Nat.exists_eq_succ_of_ne_zero hpos.ne'
      rw [hsent, List.filterMap_append, List.filterMap_cons, hpayload, hroom, Nat.succ_eq_add_one]
      simp [List.rtake_concat_succ]

-- The news that a start comes with are neither sent nor asked of the timer.
theorem CatchesUp.afterNews {schedule : Schedule} {now : Nat} {ready after : Player} {effects : List Effect}
    (status : Status) (h : CatchesUp schedule now ready ⟨after, effects⟩) :
    CatchesUp schedule now ready ⟨after, .update status :: effects⟩ := by
  cases h with
  | waits before record instant delay hahead hdue hnot hreads hlast hclock hcalls hdelay hpending hstate =>
    exact .waits before record instant delay hahead hdue hnot hreads hlast hclock hcalls hdelay hpending hstate
  | ends hdue hreads hahead hclock hcalls hpending hstate =>
    exact .ends hdue hreads hahead hclock hcalls hpending hstate

theorem catchesUp_obey {player ready : Player} {order : Order} {schedule : Schedule} (hsteady : Steady player)
    (hpos : 0 < player.capacity) (hticking : player.ticking? order = some ready)
    (hschedule : ready.schedule? = some schedule) : CatchesUp schedule order.now ready (player.obey order) := by
  have htick := catchesUp_tick order.now (ready_of_ticking hsteady hticking)
    (capacity_of_ticking hticking ▸ hpos) (playing_of_ticking hticking) hschedule
  cases readies hticking with
  | start now hstart =>
    have hrun : player.obey ⟨now, .start⟩ = (announce (player.readied now)).andThen (tick now) := if_pos hstart
    rw [hrun]
    exact htick.afterNews (player.readied now).status
  | tick now => exact htick
  | wake now token hpending =>
    have hrun : player.obey ⟨now, .wake token⟩ = tick now { player with pending := none } := if_pos hpending
    rw [hrun]
    exact htick

-- However late a tick comes, a player that plays by time catches up with its schedule, and no further than by the one
-- record that it sends ahead. What it reads is sent out, as far as it could be held back.
theorem tick_catches_up {config : Config} {player ready : Player} {order : Order} (h : Reachable config player)
    (hticking : player.ticking? order = some ready) (htimed : ready.isTimed) :
    ∃ schedule, ready.schedule? = some schedule ∧
      emitted (player.obey order).effects =
        (((tickReads order.now ready).map (·.1)).filterMap (·.payload? ready.clock.layout)).rtake
          (max config.capacity batchSize) ∧
      CatchesUp schedule order.now ready (player.obey order) := by
  obtain ⟨schedule, hschedule⟩ := (anchored_of_ticking h.anchored hticking).1.schedule? htimed
  have hroom : ready.capacity = max config.capacity batchSize := (capacity_of_ticking hticking).trans h.capacity
  have hready := ready_of_ticking h.steady hticking
  have hpos : 0 < ready.capacity := capacity_of_ticking hticking ▸ h.capacity_pos
  refine ⟨schedule, hschedule, ?_, catchesUp_obey h.steady h.capacity_pos hticking hschedule⟩
  rw [emitted_of_ticking hticking, emitted_tick order.now hready.held hpos, hroom]

-- Of the rows, one has no message and one tells no time.
def gappedTable : Recording :=
  Recording.ofLines "gapped table"
    ["timestamp,message".toList, "2024-01-01T12:00:00Z,a".toList, "2024-01-01T12:00:01Z".toList,
      "none,b".toList, "2024-01-01T12:00:02Z,c".toList, "2024-01-01T12:00:04Z,d".toList,
      "2024-01-01T12:00:09Z,e".toList, "2024-01-01T12:00:10Z,f".toList]

-- Two seconds are to wait until the row that was sent last is due.
def gappedPlayer : Player :=
  ((Player.new Config.default).obeyAll [⟨0, .load gappedTable⟩, ⟨0, .scan⟩, ⟨0, .start⟩]).player

-- It is woken three seconds late, when one of the rows to come is overdue.
theorem tick_catches_up_three_seconds_late :
    Reachable Config.default gappedPlayer ∧
      gappedPlayer.ticking? ⟨5000000000, .wake 1⟩ = some { gappedPlayer with pending := none } ∧
      gappedPlayer.isTimed ∧ emitted (gappedPlayer.obey ⟨5000000000, .wake 1⟩).effects = [['d'], ['e']] ∧
      ∃ schedule, gappedPlayer.schedule? = some schedule ∧
        CatchesUp schedule 5000000000 { gappedPlayer with pending := none }
          (gappedPlayer.obey ⟨5000000000, .wake 1⟩) := by
  have hreach : Reachable Config.default gappedPlayer := Reachable.new.obeyAll _
  have hpending : gappedPlayer.pending = some 1 := by decide +kernel
  have hstate : gappedPlayer.state = .playing := by decide +kernel
  have htimed : gappedPlayer.isTimed := by decide +kernel
  have hsent : emitted (gappedPlayer.obey ⟨5000000000, .wake 1⟩).effects = [['d'], ['e']] := by decide +kernel
  have hticking : gappedPlayer.ticking? ⟨5000000000, .wake 1⟩ = some { gappedPlayer with pending := none } := by
    simp [ticking?, hpending, hstate]
  obtain ⟨schedule, hschedule, -, hcatches⟩ := tick_catches_up hreach hticking htimed
  exact ⟨hreach, hticking, htimed, hsent, schedule, hschedule, hcatches⟩

end Player

end VoyageLog
