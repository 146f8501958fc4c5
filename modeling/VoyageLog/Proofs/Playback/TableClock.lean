import VoyageLog.Proofs.Playback.Dates
import VoyageLog.Proofs.Playback.States
import VoyageLog.Proofs.Recording.Rows

namespace VoyageLog

theorem Clock.withCurrent_current {clock : Clock} {timeline : Timeline} (h : clock.timeline = some timeline) :
    clock.withCurrent timeline.current = clock := by
  cases clock
  simp_all [Clock.withCurrent]

-- Where an instant stands among those that are passed and the rest of them.
def Stands (current : Instant) (all rest : List Instant) : Prop :=
  ∃ passed, all = passed ++ rest ∧ (passed.getLast? = some current ∨ rest.head? = some current)

namespace Stands

variable {current : Instant} {all rest : List Instant}

theorem mem (h : Stands current all rest) : current ∈ all := by
  obtain ⟨passed, rfl, hlast | hhead⟩ := h
  · exact List.mem_append_left rest (List.mem_of_getLast? hlast)
  · exact List.mem_append_right passed (List.mem_of_head? hhead)

-- What is still to come is not before it.
theorem le_of_mem (h : Stands current all rest) (hsorted : all.Pairwise (· ≤ ·)) {instant : Instant}
    (hmem : instant ∈ rest) : current ≤ instant := by
  obtain ⟨passed, rfl, hlast | hhead⟩ := h
  · exact (List.pairwise_append.mp hsorted).2.2 current (List.mem_of_getLast? hlast) instant hmem
  · exact Scan.first_le_of_sorted (List.pairwise_append.mp hsorted).2.1 hhead hmem

theorem eq_last (h : Stands current all []) {last : Instant} (hlast : all.getLast? = some last) :
    current = last := by
  obtain ⟨passed, rfl, hpassed | hhead⟩ := h
  · rw [List.append_nil] at hlast
    exact Option.some.inj (hpassed.symm.trans hlast)
  · cases hhead

-- The next instant is passed.
theorem pass {instant : Instant} (h : Stands current all (instant :: rest)) : Stands instant all rest := by
  obtain ⟨passed, rfl, -⟩ := h
  exact ⟨passed ++ [instant], by simp, .inl (by simp)⟩

end Stands

namespace Player

-- A player that follows the timeline of a table. Its clock is the one that a scan has found, at another
-- current instant.
structure Tracks (recording : Recording) (columns : Columns) (origin : Clock) (current : Instant)
    (player : Player) : Prop where
  layout : origin.layout = some (.table columns)
  timed : origin.isTimed
  clock : player.clock = origin.withCurrent current
  loaded : ∃ log, player.log = some log ∧ log.recording = recording ∧
    Stands current (columns.instants (recording.recordsAt origin.dataStart)) (columns.instants log.unread)

section Tracking

variable {recording : Recording} {columns : Columns} {origin : Clock} {current : Instant} {player : Player}

theorem Tracks.isTimed (h : Tracks recording columns origin current player) : player.isTimed := by
  have htimed := h.timed
  rw [Player.isTimed, h.clock]
  simpa [Clock.isTimed, Clock.withCurrent] using htimed

theorem Tracks.playerLayout (h : Tracks recording columns origin current player) :
    player.clock.layout = some (.table columns) := by
  rw [h.clock]
  exact h.layout

-- A player that takes a row is at its instant.
theorem clock_take (now : Nat) (record : Record) (hlayout : player.clock.layout = some (.table columns))
    (htimed : player.isTimed) :
    (player.take now record).1.clock = (columns.instant? record).elim player.clock player.clock.withCurrent := by
  cases hrow : columns.row? record.text with
  | none => simp [take, Reading.ofRecord, hlayout, Columns.instant?, hrow]
  | some row =>
    cases htimestamp : row.timestamp <;>
      simp [take, Reading.ofRecord, hlayout, htimed, Columns.instant?, hrow, htimestamp, hold]

theorem clock_takeAll {taken : Player} {now : Nat} {records : List Record} {all : List Instant}
    {ending : Option (Nat × Nat)} (hlayout : origin.layout = some (.table columns)) (htimed : origin.isTimed)
    (hclock : player.clock = origin.withCurrent current) (hsorted : all.Pairwise (· ≤ ·))
    (hstands : Stands current all (columns.instants records))
    (htaken : takeAll now records player = (taken, ending)) :
    ∃ later, taken.clock = origin.withCurrent later ∧ current ≤ later ∧
      match ending with
      | none => Stands later all []
      | some (line, _) => ∃ before record rest, records = before ++ record :: rest ∧
          line = record.line + 1 ∧ Stands later all (columns.instants rest) := by
  induction records generalizing player current with
  | nil =>
    obtain ⟨rfl, rfl⟩ := Prod.mk.inj htaken
    exact ⟨current, hclock, Instant.le_refl current, hstands⟩
  | cons record rest ih =>
    have hplayed : player.clock.layout = some (.table columns) := by rw [hclock]; exact hlayout
    have hpaced : player.isTimed := by
      rw [Player.isTimed, hclock]
      simpa [Clock.isTimed, Clock.withCurrent] using htimed
    have hone := clock_take now record hplayed hpaced
    -- The record moves the clock on if it tells an instant, and leaves it if it does not.
    obtain ⟨next, hnext, hle, hon⟩ : ∃ next, (player.take now record).1.clock = origin.withCurrent next ∧
        current ≤ next ∧ Stands next all (columns.instants rest) := by
      cases hinstant : columns.instant? record with
      | none =>
        rw [hinstant, Option.elim_none, hclock] at hone
        refine ⟨current, hone, Instant.le_refl current, ?_⟩
        simpa [Columns.instants, hinstant] using hstands
      | some instant =>
        rw [hinstant, Option.elim_some, hclock, Clock.withCurrent_withCurrent] at hone
        have hcons : columns.instants (record :: rest) = instant :: columns.instants rest := by
          simp [Columns.instants, hinstant]
        rw [hcons] at hstands
        exact ⟨instant, hone, hstands.le_of_mem hsorted List.mem_cons_self, hstands.pass⟩
    rcases htake : player.take now record with ⟨after, _ | delay⟩
    · rw [htake] at hnext
      simp only [takeAll, htake] at htaken
      obtain ⟨later, hlater, hmore, hends⟩ := ih hnext hon htaken
      refine ⟨later, hlater, Instant.le_trans hle hmore, ?_⟩
      cases ending with
      | none => exact hends
      | some wait =>
        obtain ⟨before, last, others, hrest, hline, hleft⟩ := hends
        exact ⟨record :: before, last, others, by simp [hrest], hline, hleft⟩
    · simp only [takeAll, htake, Prod.mk.injEq] at htaken
      obtain ⟨rfl, rfl⟩ := htaken
      rw [htake] at hnext
      exact ⟨next, hnext, hle, [], record, rest, rfl, rfl, hon⟩

-- Whatever else of a player changes, it stands where it stood.
theorem Tracks.of_same {other : Player} (h : Tracks recording columns origin current player)
    (hclock : other.clock = player.clock) (hlog : other.log = player.log) :
    Tracks recording columns origin current other := by
  obtain ⟨log, hsome, hrecording, hstands⟩ := h.loaded
  exact ⟨h.layout, h.timed, hclock.trans h.clock, log, hlog.trans hsome, hrecording, hstands⟩

theorem Tracks.tick (now : Nat) (h : Tracks recording columns origin current player)
    (hsorted : (columns.instants (recording.recordsAt origin.dataStart)).Pairwise (· ≤ ·)) :
    ∃ later, Tracks recording columns origin later (tick now player).player ∧ current ≤ later := by
  obtain ⟨log, hlog, rfl, hstands⟩ := h.loaded
  have hclock : ({ player with pending := none } : Player).clock = origin.withCurrent current := h.clock
  have hcase := ticked now player
  generalize Player.tick now player = step at hcase
  cases hcase with
  | still => exact ⟨current, h, Instant.le_refl current⟩
  | unloaded _ hnone => simp [hnone] at hlog
  | ended _ found hfound taken htaken =>
    obtain rfl : found = log := by simpa [hfound] using hlog
    obtain ⟨later, hclock, hle, hleft⟩ :=
      clock_takeAll h.layout h.timed hclock hsorted hstands htaken
    refine ⟨later, ⟨h.layout, h.timed, hclock, _, rfl, rfl, ?_⟩, hle⟩
    rw [Log.unread_moveTo, show found.lineCount = found.recording.lineCount from rfl,
      Recording.recordsAt_lineCount]
    exact hleft
  | waits _ found hfound taken line delay htaken =>
    obtain rfl : found = log := by simpa [hfound] using hlog
    obtain ⟨later, hclock, hle, before, record, rest, hunread, rfl, hleft⟩ :=
      clock_takeAll h.layout h.timed hclock hsorted hstands htaken
    refine ⟨later, ⟨h.layout, h.timed, hclock, _, rfl, rfl, ?_⟩, hle⟩
    rw [Log.unread_moveTo, (Recording.stretch_of_recordsAt hunread).2]
    exact hleft

-- A search finds a row, and its instant with it.
theorem instant_of_firstAtOrAfter {target : Instant} {listener : TimeSource.Listener}
    {records : List Record} {landing : Landing}
    (h : firstAtOrAfter (some (.table columns)) target listener records = some landing) :
    ∃ before record rest instant, records = before ++ record :: rest ∧ landing.line = record.line ∧
      landing.instant = some instant ∧ columns.instant? record = some instant := by
  obtain ⟨before, record, rest, instant, hrecords, hline, hinstant, -, hread⟩ := found_of_firstAtOrAfter h
  exact ⟨before, record, rest, instant, hrecords, hline, hinstant, congrArg Prod.fst hread⟩

-- A seek goes to a row with a time, which is then still to come.
theorem Tracks.landed {log : Log} {fraction : Binary64} {landing : Landing}
    (h : Tracks recording columns origin current player) (hlog : player.log = some log)
    (hlanding : player.landing? fraction log = .ok landing) :
    ∃ later, Tracks recording columns origin later (player.landed landing log) := by
  obtain ⟨found, hfound, rfl, -⟩ := h.loaded
  obtain rfl := Option.some.inj (hlog.symm.trans hfound)
  have hstart : player.clock.dataStart = origin.dataStart := by rw [h.clock]; rfl
  have hcase := lands hlanding
  cases hcase with
  | byTime timeline htimeline target htarget landing hfound =>
    rw [h.playerLayout, hstart] at hfound
    obtain ⟨before, record, rest, instant, hrecords, hline, hinstant, htold⟩ :=
      instant_of_firstAtOrAfter hfound
    refine ⟨instant, h.layout, h.timed, ?_, log.moveTo landing.line, rfl, rfl, ?_⟩
    · simp only [Player.landed, hinstant, h.clock, Clock.withCurrent_withCurrent]
    · rw [Log.unread_moveTo, hline, Recording.recordsAt_line hrecords, hrecords]
      refine ⟨columns.instants before, by simp [Columns.instants], .inr ?_⟩
      simp [Columns.instants, htold]
  | byLine htimeline =>
    have htimed := h.isTimed
    simp [Player.isTimed, Clock.isTimed, htimeline] at htimed

-- Back at the first row, the first instant is still to come.
theorem Tracks.stop {log : Log} {timeline : Timeline} (h : Tracks recording columns origin current player)
    (hlog : player.log = some log) (htimeline : origin.timeline = some timeline)
    (hspans : Scan.Spans (some (timeline.first, timeline.last))
      (columns.instants (recording.recordsAt origin.dataStart))) :
    Tracks recording columns origin timeline.first { player with
      held := [], anchor := none, log := player.log.map (·.moveTo player.clock.dataStart),
      listener := player.listener.undated, clock := player.clock.backToFirst, state := .idle,
      pending := none } := by
  obtain ⟨found, hfound, rfl, -⟩ := h.loaded
  obtain rfl := Option.some.inj (hlog.symm.trans hfound)
  have hstart : player.clock.dataStart = origin.dataStart := by rw [h.clock]; rfl
  refine ⟨h.layout, h.timed, ?_, log.moveTo origin.dataStart, ?_, rfl, ?_⟩
  · simp [h.clock, Clock.backToFirst, Clock.withCurrent, htimeline]
  · simp [hlog, hstart]
  · rw [Log.unread_moveTo]
    exact ⟨[], rfl, .inr hspans.first.symm⟩

theorem Tracks.readied (now : Nat) (h : Tracks recording columns origin current player) :
    Tracks recording columns origin current (player.readied now) := by
  have hwith : player.withLayout = player := by simp [Player.withLayout, h.playerLayout]
  have hready : player.readied now = rebase now { player with state := .playing } := by
    rw [Player.readied, hwith]
  rw [hready]
  exact h.of_same rfl rfl

-- Orders that can turn the clock back.
def Moves (player : Player) (order : Order) : Prop :=
  match order.command with
  | .stop => True
  | .seek fraction => (player.seek order.now fraction).1 = .moved
  | _ => False

theorem Tracks.obey {timeline : Timeline} (order : Order)
    (h : Tracks recording columns origin current player) (htimeline : origin.timeline = some timeline)
    (hspans : Scan.Spans (some (timeline.first, timeline.last))
      (columns.instants (recording.recordsAt origin.dataStart)))
    (horder : order.command.Plays) :
    ∃ later, Tracks recording columns origin later (player.obey order).player ∧
      (¬player.Moves order → current ≤ later) := by
  obtain ⟨now, command⟩ := order
  obtain ⟨result, hrun, hcase, hobey⟩ := player.obeying now command
  rw [hobey]
  have hstays : ∀ other : Player, Tracks recording columns origin current other →
      ∃ later, Tracks recording columns origin later other ∧
        (¬player.Moves ⟨now, command⟩ → current ≤ later) :=
    fun _ hother => ⟨current, hother, fun _ => Instant.le_refl current⟩
  have hticks : ∀ ready : Player, Tracks recording columns origin current ready →
      ∃ later, Tracks recording columns origin later (Player.tick now ready).player ∧
        (¬player.Moves ⟨now, command⟩ → current ≤ later) := by
    intro ready hready
    obtain ⟨later, hlater, hle⟩ := hready.tick now hspans.sorted
    exact ⟨later, hlater, fun _ => hle⟩
  cases hcase with
  | load | loadFailed | scanUnloaded | scanFailed | scan => exact horder.elim
  | start => exact hticks _ (h.readied now)
  | pause => exact hstays _ (h.of_same rfl rfl)
  | stop =>
    obtain ⟨log, hlog, -⟩ := h.loaded
    exact ⟨timeline.first, h.stop hlog htimeline hspans, fun hmoves => (hmoves trivial).elim⟩
  | tick => exact hticks player h
  | wake => exact hticks { player with pending := none } (h.of_same rfl rfl)
  | seekPlaying fraction log hlog landing hlanding =>
    have hmoved : (player.seek now fraction).1 = .moved := by simpa [Command.run] using congrArg Prod.fst hrun
    obtain ⟨later, hlater⟩ := h.landed hlog hlanding
    exact ⟨later, hlater.of_same rfl rfl, fun hmoves => (hmoves hmoved).elim⟩
  | seek fraction log hlog landing hlanding =>
    have hmoved : (player.seek now fraction).1 = .moved := by simpa [Command.run] using congrArg Prod.fst hrun
    obtain ⟨later, hlater⟩ := h.landed hlog hlanding
    exact ⟨later, hlater, fun hmoves => (hmoves hmoved).elim⟩
  | rebase | speedPlaying | speed => exact hstays _ (h.of_same rfl rfl)
  | startRefused | pauseRefused | stopRefused | wakeRefused | seekRefused | speedRefused =>
    exact hstays _ h

def NeverMoves (player : Player) : List Order → Prop
  | [] => True
  | order :: rest => ¬player.Moves order ∧ (player.obey order).player.NeverMoves rest

theorem Tracks.obeyAll {timeline : Timeline} (orders : List Order)
    (h : Tracks recording columns origin current player) (htimeline : origin.timeline = some timeline)
    (hspans : Scan.Spans (some (timeline.first, timeline.last))
      (columns.instants (recording.recordsAt origin.dataStart)))
    (horders : ∀ order ∈ orders, order.command.Plays) :
    ∃ later, Tracks recording columns origin later (player.obeyAll orders).player ∧
      (player.NeverMoves orders → current ≤ later) := by
  induction orders generalizing player current with
  | nil => exact ⟨current, h, fun _ => Instant.le_refl current⟩
  | cons order rest ih =>
    obtain ⟨next, hnext, hone⟩ := h.obey order htimeline hspans (horders order (by simp))
    obtain ⟨later, hlater, hmore⟩ := ih hnext fun other hother => horders other (by simp [hother])
    refine ⟨later, hlater, ?_⟩
    rintro ⟨hstays, hrest⟩
    exact Instant.le_trans (hone hstays) (hmore hrest)

-- What tracking comes to: the current instant is one of a row and lies between the ends, and it is the last one
-- once nothing is left to read.
theorem Tracks.placed {timeline : Timeline} (h : Tracks recording columns origin current player)
    (htimeline : origin.timeline = some timeline)
    (hspans : Scan.Spans (some (timeline.first, timeline.last))
      (columns.instants (recording.recordsAt origin.dataStart))) (hfinished : player.Finished) :
    player.clock.timeline = some { timeline with current } ∧
      (∃ record ∈ recording.recordsAt origin.dataStart, columns.instant? record = some current) ∧
      timeline.first ≤ current ∧ current ≤ timeline.last ∧
      (player.state = .atEnd → current = timeline.last) := by
  obtain ⟨log, hlog, -, hstands⟩ := h.loaded
  refine ⟨?_, List.mem_filterMap.mp hstands.mem, ?_, ?_, ?_⟩
  · simp [h.clock, Clock.withCurrent, htimeline]
  · exact Scan.first_le_of_sorted hspans.sorted hspans.first.symm hstands.mem
  · exact Scan.le_last_of_sorted hspans.sorted hspans.last.symm hstands.mem
  · intro hatEnd
    rw [hfinished hatEnd log hlog] at hstands
    exact hstands.eq_last hspans.last.symm

end Tracking

-- A scan that finds a timeline in a table puts the player at the first of its instants.
theorem Tracks.scan {player : Player} {log : Log} {outcome : Scan.Outcome} {columns : Columns}
    {timeline : Timeline} (now : Nat) (hlog : player.log = some log)
    (hscan : Scan.ofRecording player.lockPrimary log.recording = .ok outcome)
    (hlayout : outcome.clock.layout = some (.table columns))
    (htimeline : outcome.clock.timeline = some timeline) :
    Tracks log.recording columns outcome.clock timeline.first (player.obey ⟨now, .scan⟩).player := by
  obtain ⟨hfirst, hspans⟩ := Scan.spans_of_table hscan hlayout htimeline
  have hclock : outcome.clock = outcome.clock.withCurrent timeline.first := by
    rw [← hfirst, Clock.withCurrent_current htimeline]
  obtain ⟨result, -, hcase, hobey⟩ := player.obeying now .scan
  rw [hobey]
  cases hcase with
  | scanUnloaded hnone => simp [hnone] at hlog
  | scanFailed found hfound failure hfailed =>
    obtain rfl := Option.some.inj (hlog.symm.trans hfound)
    cases hscan.symm.trans hfailed
  | scan found hfound other hother =>
    obtain rfl := Option.some.inj (hlog.symm.trans hfound)
    obtain rfl := Except.ok.inj (hscan.symm.trans hother)
    refine ⟨hlayout, by simp [Clock.isTimed, htimeline], hclock, log.moveTo outcome.clock.dataStart, rfl,
      rfl, ?_⟩
    rw [Log.unread_moveTo]
    exact ⟨[], rfl, .inr hspans.first.symm⟩

-- However a table is played, the clock shows the instant of one of its rows, between the first and the last,
-- and the last at the end. Without a stop and a seek that moves playback it never goes back.
theorem table_clock_keeps_to_rows {player : Player} {log : Log} {outcome : Scan.Outcome} {columns : Columns}
    {timeline : Timeline} (hlog : player.log = some log)
    (hscan : Scan.ofRecording player.lockPrimary log.recording = .ok outcome)
    (hlayout : outcome.clock.layout = some (.table columns))
    (htimeline : outcome.clock.timeline = some timeline) (now : Nat) (orders : List Order)
    (horders : ∀ order ∈ orders, order.command.Plays) :
    let reached := ((player.obey ⟨now, .scan⟩).player.obeyAll orders).player
    ∃ current, reached.clock.timeline = some { timeline with current } ∧
      (∃ record ∈ log.recording.recordsAt outcome.clock.dataStart,
        ∃ row, columns.row? record.text = some row ∧ row.timestamp = some current) ∧
      timeline.first ≤ current ∧ current ≤ timeline.last ∧
      (reached.state = .atEnd → current = timeline.last) ∧
      ∀ further, (∀ order ∈ further, order.command.Plays) → reached.NeverMoves further →
        ∃ later, (reached.obeyAll further).player.clock.timeline = some { timeline with current := later } ∧
          current ≤ later := by
  intro reached
  obtain ⟨-, hspans⟩ := Scan.spans_of_table hscan hlayout htimeline
  have hscanned := Tracks.scan now hlog hscan hlayout htimeline
  obtain ⟨current, hreached, -⟩ := hscanned.obeyAll orders htimeline hspans horders
  have hfinished : reached.Finished := finished_obeyAll orders (finished_scan now player)
  obtain ⟨hclock, ⟨record, hrecord, hinstant⟩, hfirst, hlast, hend⟩ :=
    hreached.placed htimeline hspans hfinished
  refine ⟨current, hclock, ⟨record, hrecord, Option.bind_eq_some_iff.mp hinstant⟩, hfirst, hlast, hend, ?_⟩
  intro further hfurther hstays
  obtain ⟨later, hlater, hle⟩ := hreached.obeyAll further htimeline hspans hfurther
  have hstill := finished_obeyAll further hfinished
  exact ⟨later, (hlater.placed htimeline hspans hstill).1, hle hstays⟩

-- The row in the middle has no time.
def threeRows : Recording :=
  Recording.ofLines "three rows"
    ["timestamp,message".toList, "2024-01-01T12:00:05,a".toList, ",b".toList,
      "2024-01-01T12:00:07,c".toList]

def tablePlayer : Player := ((Player.new Config.default).load threeRows).player

-- Two seconds later the token that the start has asked for takes playback to the end.
def startedAndWoken : List Order := [⟨0, .start⟩, ⟨2000000000, .wake 1⟩]

theorem table_clock_keeps_to_three_rows :
    ∃ outcome columns timeline, Scan.ofRecording true threeRows = .ok outcome ∧
      outcome.clock.layout = some (.table columns) ∧ outcome.clock.timeline = some timeline ∧
      timeline.first < timeline.last ∧
      (let reached := ((tablePlayer.obey ⟨0, .scan⟩).player.obeyAll startedAndWoken).player
       reached.state = .atEnd ∧
         reached.clock.timeline = some { timeline with current := timeline.last }) := by
  have hfound : (Scan.ofRecording true threeRows).toOption.bind (fun outcome =>
      outcome.clock.timeline.map fun timeline =>
        (outcome.clock.layout, decide (timeline.first < timeline.last))) =
      some (some (.table ⟨0, 1⟩), true) := by
    decide +kernel
  have hend : ((tablePlayer.obey ⟨0, .scan⟩).player.obeyAll startedAndWoken).player.state = .atEnd := by
    decide +kernel
  cases hscan : Scan.ofRecording true threeRows with
  | error failure => simp [hscan, Except.toOption] at hfound
  | ok outcome =>
    simp only [hscan, Except.toOption, Option.bind_some, Option.map_eq_some_iff, Prod.mk.injEq,
      decide_eq_true_eq] at hfound
    obtain ⟨timeline, htimeline, hlayout, hlt⟩ := hfound
    have horders : ∀ order ∈ startedAndWoken, order.command.Plays := by
      simp [startedAndWoken, Command.Plays]
    have hlog : tablePlayer.log = some (Log.start threeRows) := rfl
    obtain ⟨current, hclock, -, -, -, hlast, -⟩ :=
      table_clock_keeps_to_rows hlog hscan hlayout htimeline 0 startedAndWoken horders
    refine ⟨outcome, ⟨0, 1⟩, timeline, rfl, hlayout, htimeline, hlt, hend, ?_⟩
    rw [hclock, hlast hend]

end Player

end VoyageLog
