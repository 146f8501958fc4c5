import VoyageLog.Proofs.Playback.Landings
import VoyageLog.Proofs.Playback.Ticks
import VoyageLog.Proofs.Recording.Timings

namespace VoyageLog.Player

open TimeSource

-- The instant by which a player paces a record.
def instantFor (player : Player) (record : Record) : Option Instant :=
  (Reading.ofRecord player.clock.layout player.isTimed player.listener record).1.bind (·.instant)

-- A player that follows the timeline of a recording of sentences: where its data starts, and the listener
-- that is to hear it from there.
structure Following (dataStart : Nat) (origin : Listener) (player : Player) : Prop where
  sentences : player.clock.layout = some .sentences
  timed : player.isTimed
  starts : player.clock.dataStart = dataStart
  undated : player.listener.undated = origin

section Reading

variable {dataStart : Nat} {origin : Listener} {player : Player}

theorem Following.of_rested {other : Player} (h : Following dataStart origin player)
    (hrested : other.rested = player.rested) : Following dataStart origin other := by
  have hlayout := congrArg (·.clock.layout) hrested
  have htimed := congrArg isTimed hrested
  have hstarts := congrArg (·.clock.dataStart) hrested
  have hundated := congrArg (·.listener) hrested
  simp only [rested, isTimed, Clock.isTimed_backToFirst] at htimed
  exact ⟨hlayout.trans h.sentences, htimed.trans h.timed, hstarts.trans h.starts, hundated.trans h.undated⟩

theorem listener_take (now : Nat) (record : Record) (player : Player) :
    (player.take now record).1.listener =
      (Reading.ofRecord player.clock.layout player.isTimed player.listener record).2 := by
  unfold take
  split
  · rename_i listener hreading
    rw [hreading]
  · rename_i reading listener hreading
    rw [hreading]
    dsimp only
    split <;> rfl

theorem Following.reading (record : Record) (h : Following dataStart origin player) :
    Reading.ofRecord player.clock.layout player.isTimed player.listener record =
      (some ⟨record.text, (player.listener.heed record.text).1.map (·.instant)⟩,
        (player.listener.heed record.text).2) := by
  simp only [Reading.ofRecord, h.sentences, h.timed, if_true]

theorem Following.timings_cons {player : Player} (now : Nat) (record : Record) (rest : List Record)
    (h : Following dataStart origin player) :
    player.listener.timings (record :: rest) =
      (record.line, player.instantFor record) :: (player.take now record).1.listener.timings rest := by
  rw [listener_take, instantFor, h.reading record]
  rfl

-- Each record is paced by what the listener makes of all that is unread.
theorem Following.mem_timings (now : Nat) (records : List Record) (h : Following dataStart origin player)
    {record : Record} {reader : Player} (hread : (record, reader) ∈ reads now records player) :
    (record.line, reader.instantFor record) ∈ player.listener.timings records := by
  induction records generalizing player with
  | nil => simp [reads] at hread
  | cons first rest ih =>
    rw [h.timings_cons now]
    simp only [reads, List.mem_cons, Prod.mk.injEq] at hread
    rcases hread with ⟨rfl, rfl⟩ | hread
    · exact List.mem_cons_self
    · have hnext := h.of_rested (rested_take now first player)
      rcases htake : player.take now first with ⟨next, _ | delay⟩
      · rw [htake] at hread hnext
        exact List.mem_cons_of_mem _ (ih hnext hread)
      · simp [htake] at hread

-- What the listener makes of the rest is the same after some of the records have been taken.
theorem Following.timings_takeAll {taken : Player} {now line delay : Nat} {records : List Record}
    (h : Following dataStart origin player)
    (htaken : takeAll now records player = (taken, some (line, delay))) :
    ∃ before record rest, records = before ++ record :: rest ∧ line = record.line + 1 ∧
      taken.listener.timings rest <:+ player.listener.timings records := by
  induction records generalizing player with
  | nil => simp [takeAll] at htaken
  | cons first rest ih =>
    have hnext := h.of_rested (rested_take now first player)
    rw [h.timings_cons now]
    rcases htake : player.take now first with ⟨next, _ | wait⟩
    · rw [htake] at hnext
      simp only [takeAll, htake] at htaken
      obtain ⟨before, record, after, hrest, hline, hsuffix⟩ := ih hnext htaken
      exact ⟨first :: before, record, after, by simp [hrest], hline,
        hsuffix.trans (List.suffix_cons _ _)⟩
    · simp only [takeAll, htake, Prod.mk.injEq, Option.some.injEq] at htaken
      obtain ⟨rfl, rfl, rfl⟩ := htaken
      exact ⟨[], first, rest, rfl, rfl, List.suffix_cons _ _⟩

end Reading

-- How a player keeps to a single pass over a recording: what its listener makes of the unread records are
-- the last of the timings of that pass.
structure InStep (recording : Recording) (dataStart : Nat) (origin : Listener) (player : Player) : Prop
    extends Following dataStart origin player where
  loaded : ∃ log, player.log = some log ∧ log.recording = recording ∧
    player.listener.timings log.unread <:+ origin.timings (recording.recordsAt dataStart)

section Keeping

variable {recording : Recording} {dataStart : Nat} {origin : Listener} {player : Player}

theorem InStep.rest {log : Log} (h : InStep recording dataStart origin player)
    (hlog : player.log = some log) :
    log.recording = recording ∧
      player.listener.timings log.unread <:+ origin.timings (recording.recordsAt dataStart) := by
  obtain ⟨found, hfound, hrest⟩ := h.loaded
  obtain rfl := Option.some.inj (hlog.symm.trans hfound)
  exact hrest

-- Whatever else of a player changes, it stays in step.
theorem InStep.of_same {other : Player} (h : InStep recording dataStart origin player)
    (hclock : other.clock = player.clock) (hlistener : other.listener = player.listener)
    (hlog : other.log = player.log) : InStep recording dataStart origin other := by
  refine ⟨⟨?_, ?_, ?_, ?_⟩, ?_⟩
  · rw [hclock]
    exact h.sentences
  · rw [isTimed, hclock]
    exact h.timed
  · rw [hclock]
    exact h.starts
  · rw [hlistener]
    exact h.undated
  · rw [hlistener, hlog]
    exact h.loaded

theorem InStep.tick (now : Nat) (h : InStep recording dataStart origin player) :
    InStep recording dataStart origin (tick now player).player := by
  obtain ⟨log, hlog, rfl, hpass⟩ := h.loaded
  have hwaits : InStep log.recording dataStart origin { player with pending := none } := h.of_same rfl rfl rfl
  have hcase := ticked now player
  generalize Player.tick now player = step at hcase
  cases hcase with
  | still => exact h
  | unloaded _ hnone => simp [hnone] at hlog
  | ended _ found hfound taken htaken =>
    obtain rfl : found = log := by simpa [hfound] using hlog
    have hrested := rested_of_takeAll htaken
    have htakes := hwaits.of_rested hrested
    refine ⟨⟨htakes.sentences, htakes.timed, htakes.starts, htakes.undated⟩, _, rfl, rfl, ?_⟩
    rw [Log.unread_moveTo, show found.lineCount = found.recording.lineCount from rfl,
      Recording.recordsAt_lineCount]
    exact List.nil_suffix
  | waits _ found hfound taken line delay htaken =>
    obtain rfl : found = log := by simpa [hfound] using hlog
    have hrested := rested_of_takeAll htaken
    have htakes := hwaits.of_rested hrested
    obtain ⟨before, record, rest, hunread, rfl, hrest⟩ := hwaits.timings_takeAll htaken
    refine ⟨⟨htakes.sentences, htakes.timed, htakes.starts, htakes.undated⟩, _, rfl, rfl, ?_⟩
    rw [Log.unread_moveTo, (Recording.stretch_of_recordsAt hunread).2]
    exact hrest.trans hpass

-- A search from the first sentence on ends with a listener that has just heard the record it found.
theorem landing_of_firstAtOrAfter {target : Instant} {listener : Listener} {records : List Record}
    {landing : Landing} (h : firstAtOrAfter (some .sentences) target listener records = some landing) :
    ∃ before record rest, records = before ++ record :: rest ∧ landing.line = record.line ∧
      landing.listener = ((listener.hearAll before).heed record.text).2 := by
  obtain ⟨before, record, rest, instant, hrecords, hline, -, -, hread⟩ := found_of_firstAtOrAfter h
  exact ⟨before, record, rest, hrecords, hline, (congrArg Prod.snd hread).symm⟩

-- A player that follows a timeline seeks by time.
theorem Following.landing {log : Log} {fraction : Binary64} {landing : Landing}
    (h : Following dataStart origin player) (hlanding : player.landing? fraction log = .ok landing) :
    ∃ target, firstAtOrAfter (some .sentences) target origin (log.recording.recordsAt dataStart) =
      some landing := by
  have hcase := lands hlanding
  cases hcase with
  | byTime timeline htimeline target htarget landing hfound =>
    rw [h.sentences, h.starts, h.undated] at hfound
    exact ⟨target, hfound⟩
  | byLine htimeline =>
    have htimed := h.timed
    simp [isTimed, Clock.isTimed, htimeline] at htimed

-- The listener that a seek leaves behind has heard the record at the cursor already, which does no harm.
theorem InStep.landed {log : Log} {fraction : Binary64} {landing : Landing}
    (h : InStep recording dataStart origin player) (hlog : player.log = some log)
    (hlanding : player.landing? fraction log = .ok landing) :
    InStep recording dataStart origin (player.landed landing log) := by
  obtain ⟨rfl, -⟩ := h.rest hlog
  obtain ⟨target, hfound⟩ := h.landing hlanding
  obtain ⟨before, record, rest, hrecords, hline, hlistener⟩ := landing_of_firstAtOrAfter hfound
  have hclock : (player.landed landing log).clock.layout = player.clock.layout ∧
      (player.landed landing log).isTimed = player.isTimed ∧
      (player.landed landing log).clock.dataStart = player.clock.dataStart := by
    unfold Player.landed isTimed
    cases landing.instant <;> simp [Clock.isTimed, Clock.withCurrent]
  have horigin : origin.undated = origin := by
    rw [← h.undated]
    rfl
  have hundated : landing.listener.undated = origin := by
    rw [hlistener, Listener.undated_heed, Listener.undated_hearAll, horigin]
  refine ⟨⟨hclock.1.trans h.sentences, hclock.2.1.trans h.timed, hclock.2.2.trans h.starts, hundated⟩,
    _, rfl, rfl, ?_⟩
  rw [Log.unread_moveTo, hline, Recording.recordsAt_line hrecords, hrecords, Listener.timings_append]
  have hheard : (player.landed landing log).listener =
      ((origin.hearAll before).heed record.text).2 := hlistener
  rw [hheard, Listener.timings_heed_again]
  exact List.suffix_append _ _

-- Back where the data starts, the listener is one that has heard nothing yet.
theorem InStep.stop {log : Log} (h : InStep recording dataStart origin player)
    (hlog : player.log = some log) :
    InStep recording dataStart origin { player with
      held := [], anchor := none, log := player.log.map (·.moveTo player.clock.dataStart),
      listener := player.listener.undated, clock := player.clock.backToFirst, state := .idle,
      pending := none } := by
  obtain ⟨rfl, -⟩ := h.rest hlog
  have htimed := player.clock.isTimed_backToFirst.trans h.timed
  refine ⟨⟨h.sentences, htimed, h.starts, h.undated⟩, log.moveTo player.clock.dataStart, ?_, rfl, ?_⟩
  · simp [hlog]
  · simp only [Log.unread_moveTo, h.starts, h.undated, List.suffix_refl]

-- A player whose layout is known does not look for it.
theorem Following.withLayout (h : Following dataStart origin player) : player.withLayout = player := by
  simp [Player.withLayout, h.sentences]

theorem InStep.readied (now : Nat) (h : InStep recording dataStart origin player) :
    InStep recording dataStart origin (player.readied now) := by
  have hready : player.readied now = rebase now { player with state := .playing } := by
    rw [Player.readied, h.withLayout]
  rw [hready]
  exact h.of_same rfl rfl rfl

-- Orders that neither load nor scan a recording.
def Command.Plays : Command → Prop
  | .load _ | .loadFailed | .scan => False
  | .start | .pause | .stop | .tick | .rebase | .wake _ | .seek _ | .setSpeed _ => True

-- After any other order the clock knows nothing, or what a scan has found.
theorem plays_or_clock (player : Player) (order : Order) :
    order.command.Plays ∨ (player.obey order).player.clock = Clock.unknown ∨
      ∃ log outcome, player.log = some log ∧ Scan.ofRecording player.lockPrimary log.recording = .ok outcome ∧
        (player.obey order).player.clock = outcome.clock := by
  obtain ⟨now, command⟩ := order
  obtain ⟨result, -, hcase, hobey⟩ := player.obeying now command
  rw [hobey]
  cases hcase with
  | load | loadFailed | scanUnloaded | scanFailed => exact .inr (.inl rfl)
  | scan log hlog outcome hscan => exact .inr (.inr ⟨log, outcome, hlog, hscan, rfl⟩)
  | start | startRefused | pause | pauseRefused | stop | stopRefused | tick | rebase | wake | wakeRefused
  | seekRefused | seekPlaying | seek | speedRefused | speedPlaying | speed => exact .inl trivial

theorem InStep.obey (order : Order) (h : InStep recording dataStart origin player)
    (horder : order.command.Plays) : InStep recording dataStart origin (player.obey order).player := by
  obtain ⟨now, command⟩ := order
  obtain ⟨result, -, hcase, hobey⟩ := player.obeying now command
  rw [hobey]
  cases hcase with
  | load | loadFailed | scanUnloaded | scanFailed | scan => exact horder.elim
  | start => exact (h.readied now).tick now
  | pause | rebase | speedPlaying | speed => exact h.of_same rfl rfl rfl
  | stop =>
    obtain ⟨log, hlog, -⟩ := h.loaded
    exact h.stop hlog
  | tick => exact h.tick now
  | wake =>
    have hwaits : InStep recording dataStart origin { player with pending := none } := h.of_same rfl rfl rfl
    exact hwaits.tick now
  | seekPlaying fraction log hlog landing hlanding =>
    exact (h.landed hlog hlanding).of_same rfl rfl rfl
  | seek fraction log hlog landing hlanding => exact h.landed hlog hlanding
  | startRefused | pauseRefused | stopRefused | wakeRefused | seekRefused | speedRefused => exact h

theorem InStep.obeyAll (orders : List Order) (h : InStep recording dataStart origin player)
    (horders : ∀ order ∈ orders, order.command.Plays) :
    InStep recording dataStart origin (player.obeyAll orders).player := by
  induction orders generalizing player with
  | nil => exact h
  | cons order rest ih =>
    have hnext := h.obey order (horders order (by simp))
    exact ih hnext fun later hlater => horders later (by simp [hlater])

theorem InStep.of_ticking {order : Order} {ready : Player} (h : InStep recording dataStart origin player)
    (hticking : player.ticking? order = some ready) : InStep recording dataStart origin ready := by
  cases readies hticking with
  | start now => exact h.readied now
  | tick => exact h
  | wake => exact h.of_same rfl rfl rfl

theorem InStep.mem_timings {order : Order} {record : Record} {reader : Player}
    (h : InStep recording dataStart origin player) (hread : (record, reader) ∈ player.orderReads order) :
    (record.line, reader.instantFor record) ∈ origin.timings (recording.recordsAt dataStart) := by
  unfold orderReads at hread
  split at hread
  · rename_i ready hticking
    have hready := h.of_ticking hticking
    unfold tickReads at hread
    split at hread
    · rename_i log _ hlog
      have hwaits : InStep recording dataStart origin { ready with pending := none } :=
        hready.of_same rfl rfl rfl
      exact (hready.rest hlog).2.subset (hwaits.toFollowing.mem_timings order.now log.unread hread)
    · cases hread
  · cases hread

end Keeping

-- A scan that finds a timeline in sentences puts the cursor and the listener where the data starts.
theorem InStep.scan {player : Player} {log : Log} {outcome : Scan.Outcome} (now : Nat)
    (hlog : player.log = some log)
    (hscan : Scan.ofRecording player.lockPrimary log.recording = .ok outcome)
    (hlayout : outcome.clock.layout = some .sentences) (htimed : outcome.clock.isTimed) :
    InStep log.recording outcome.clock.dataStart ⟨none, outcome.listener.lock⟩
      (player.obey ⟨now, .scan⟩).player := by
  obtain ⟨result, -, hcase, hobey⟩ := player.obeying now .scan
  rw [hobey]
  cases hcase with
  | scanUnloaded hnone => simp [hnone] at hlog
  | scanFailed found hfound failure hfailed =>
    obtain rfl := Option.some.inj (hlog.symm.trans hfound)
    cases hscan.symm.trans hfailed
  | scan found hfound other hother =>
    obtain rfl := Option.some.inj (hlog.symm.trans hfound)
    obtain rfl := Except.ok.inj (hscan.symm.trans hother)
    refine ⟨⟨hlayout, htimed, rfl, rfl⟩, log.moveTo outcome.clock.dataStart, rfl, rfl, ?_⟩
    rw [Log.unread_moveTo]
    exact List.suffix_refl _

-- However playback got to a record, it paces it by what one undisturbed pass from the first sentence on
-- makes of its line.
theorem reads_as_undisturbed {player : Player} {log : Log} {outcome : Scan.Outcome}
    (hlog : player.log = some log)
    (hscan : Scan.ofRecording player.lockPrimary log.recording = .ok outcome)
    (hlayout : outcome.clock.layout = some .sentences) (htimed : outcome.clock.isTimed) (now : Nat)
    (orders : List Order) (horders : ∀ order ∈ orders, order.command.Plays) (order : Order) :
    ∀ read ∈ orderReads ((player.obey ⟨now, .scan⟩).player.obeyAll orders).player order,
      (Listener.timings ⟨none, outcome.listener.lock⟩
        (log.recording.recordsAt outcome.clock.dataStart)).lookup read.1.line =
        some (read.2.instantFor read.1) := by
  rintro ⟨record, reader⟩ hread
  have hscanned := InStep.scan now hlog hscan hlayout htimed
  have hstands := hscanned.obeyAll orders horders
  exact Listener.lookup_timings (hstands.mem_timings hread)

-- The sentence in the middle takes its date from the one before it.
def datedOnce : Recording :=
  Recording.ofLines "dated once"
    ["$GPRMC,120000,A,,,,,,,010124*".toList, "$GPGLL,,,,,120001*".toList,
      "$GPRMC,120001,A,,,,,,,010124*".toList]

def anySourcePlayer : Player :=
  ((Player.new { Config.default with lockPrimary := false }).load datedOnce).player

def startedAndSought : List Order := [⟨0, .start⟩, ⟨0, .seek Binary64.one⟩]

-- The seek goes to the sentence in the middle, past the one that its date comes from.
theorem reads_as_undisturbed_after_seek :
    ∃ outcome, Scan.ofRecording false datedOnce = .ok outcome ∧
      (orderReads ((anySourcePlayer.obey ⟨0, .scan⟩).player.obeyAll startedAndSought).player
        ⟨0, .tick⟩).map (·.1.line) = [1, 2] ∧
      ∀ read ∈ orderReads ((anySourcePlayer.obey ⟨0, .scan⟩).player.obeyAll startedAndSought).player
          ⟨0, .tick⟩,
        (Listener.timings ⟨none, outcome.listener.lock⟩
          (datedOnce.recordsAt outcome.clock.dataStart)).lookup read.1.line =
          some (read.2.instantFor read.1) := by
  have hfound : (Scan.ofRecording false datedOnce).toOption.map
      (fun outcome => (outcome.clock.layout, outcome.clock.isTimed)) = some (some .sentences, true) := by
    decide +kernel
  have hreads : (orderReads ((anySourcePlayer.obey ⟨0, .scan⟩).player.obeyAll startedAndSought).player
      ⟨0, .tick⟩).map (·.1.line) = [1, 2] := by
    decide +kernel
  cases hscan : Scan.ofRecording false datedOnce with
  | error failure => simp [hscan, Except.toOption] at hfound
  | ok outcome =>
    simp only [hscan, Except.toOption, Option.map_some, Option.some.injEq, Prod.mk.injEq] at hfound
    obtain ⟨hlayout, htimed⟩ := hfound
    have horders : ∀ order ∈ startedAndSought, order.command.Plays := by
      simp [startedAndSought, Command.Plays]
    have hlog : anySourcePlayer.log = some (Log.start datedOnce) := rfl
    refine ⟨outcome, rfl, hreads, ?_⟩
    exact reads_as_undisturbed hlog hscan hlayout htimed 0 startedAndSought horders ⟨0, .tick⟩

end VoyageLog.Player
