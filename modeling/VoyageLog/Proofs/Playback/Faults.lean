import VoyageLog.Proofs.Binary64.Share
import VoyageLog.Proofs.Calendar.Span
import VoyageLog.Proofs.Playback.Anchors
import VoyageLog.Proofs.Recording.Rows

namespace VoyageLog

open Binary64 Calendar

theorem Speed.wallMicroseconds_le (speed : Speed) (nanoseconds : Int) :
    speed.wallMicroseconds nanoseconds ≤ greatestWord := by
  unfold wallMicroseconds truncate toWordBy
  split
  · decide
  · decide
  · decide
  · unfold saturate
    split
    · decide
    · split <;> omega

theorem Speed.rate_bounds (speed : Speed) : 1 / 10 ≤ speed.rate.value ∧ speed.rate.value ≤ 1000 := by
  have hslowest : (1 / 10 : Rat) ≤ slowest.value := by decide +kernel
  have hfastest : fastest.value = 1000 := by decide +kernel
  exact ⟨hslowest.trans speed.in_range.1, hfastest ▸ speed.in_range.2⟩

-- A second of a recording is divided by a positive number, and rounded by no more than 10^-15 of it.
theorem Speed.second_near (speed : Speed) :
    ∃ seconds : Finite, one / speed.toNumber = .finite seconds ∧
      |seconds.value - 1 / speed.rate.value| ≤ 1 / 1000000000000000 := by
  obtain ⟨hslow, -⟩ := speed.rate_bounds
  have hmagnitude := Decimal.magnitude_nonneg speed.rate
  have hpositive : speed.rate.negative = false := by
    cases hsign : speed.rate.negative with
    | false => rfl
    | true =>
      simp only [Finite.value, hsign, if_true] at hslow
      linarith only [hslow, hmagnitude]
  have hvalue : speed.rate.magnitude = speed.rate.value := by simp [Finite.value, hpositive]
  have hdivisor : (0 : Rat) < speed.rate.value := by linarith only [hslow]
  have hone : Finite.one.magnitude = 1 := by decide +kernel
  have hquotient : 1 / speed.rate.value ≤ 10 := by
    rw [div_le_iff₀ hdivisor]
    linarith only [hslow]
  obtain ⟨seconds, hseconds, hsign, hnear⟩ := nearestSigned_near false (-49) (one_div_nonneg.mpr hdivisor.le)
    (lt_of_le_of_lt hquotient (by norm_num)) (by decide) (by decide)
  have hsame : seconds.value = seconds.magnitude := by simp [Finite.value, hsign]
  have hdivided : one / speed.toNumber = nearestSigned false (Finite.one.magnitude / speed.rate.magnitude) :=
    div_unsigned rfl hpositive (hvalue ▸ hdivisor)
  rw [hone, hvalue] at hdivided
  refine ⟨seconds, hdivided.trans hseconds, ?_⟩
  rw [hsame]
  exact hnear.trans (by norm_num)

-- So it takes a few seconds at most, at any speed.
theorem Speed.divides (speed : Speed) :
    ∃ seconds : Finite, one / speed.toNumber = .finite seconds ∧ 0 ≤ seconds.value ∧ seconds.value ≤ 12 := by
  obtain ⟨seconds, hseconds, hnear⟩ := speed.second_near
  obtain ⟨hlow, hhigh⟩ := abs_le.mp hnear
  obtain ⟨hslow, hfast⟩ := speed.rate_bounds
  have hdivisor : (0 : Rat) < speed.rate.value := by linarith only [hslow]
  have hquotient : 1 / speed.rate.value ≤ 10 := by
    rw [div_le_iff₀ hdivisor]
    linarith only [hslow]
  have hleast : 1 / 1000 ≤ 1 / speed.rate.value := by
    rw [div_le_div_iff₀ (by norm_num) hdivisor]
    linarith only [hfast]
  refine ⟨seconds, hseconds, ?_, ?_⟩
  · linarith only [hlow, hleast]
  · linarith only [hhigh, hquotient]

theorem Timeline.span_bounds (timeline : Timeline) :
    -20000000000000000000000 ≤ timeline.span ∧ timeline.span ≤ 20000000000000000000000 :=
  timeline.last.since_bounds timeline.first

theorem Timeline.span_near (timeline : Timeline) :
    timeline.last.position - timeline.first.position - 1000000000 ≤ timeline.span ∧
      timeline.span ≤ timeline.last.position - timeline.first.position + 1000000000 :=
  timeline.last.since_near timeline.first

namespace Player

-- Lengths of time are counted in 64-bit milliseconds.
def IsLength (nanoseconds : Int) : Prop :=
  -(greatestWord * 1000000) ≤ nanoseconds ∧ nanoseconds ≤ greatestWord * 1000000

-- The wall shows its seconds in 64 bits, and nobody reads it in the last 292 thousand years before they end.
def wallEnd : Nat := 9223372036854775808 * 1000000000

def latestReading : Nat := wallEnd - 9223372036854775808 * 1000

-- A record that an order takes, and what is needed to find out when it is due.
structure Times (player : Player) (order : Order) (reader : Player) (instant : Instant) (timeline : Timeline)
    (anchor : Anchor) : Prop where
  read : ∃ record, (record, reader) ∈ player.orderReads order ∧ reader.instantFor record = some instant
  timeline : reader.clock.timeline = some timeline
  anchor : reader.anchor = some anchor

-- A seek that has to find the instant to go to.
structure SeeksByTime (player : Player) (order : Order) (fraction : Binary64) (timeline : Timeline) : Prop where
  command : order.command = .seek fraction
  loaded : player.log.isSome
  within : fraction.within (Finite.zero false) Finite.one
  seekable : player.isSeekable
  timeline : player.clock.timeline = some timeline

-- Whatever an order can have leave its range: a length of the timeline before or after it, the lead of a record or
-- the time that it is due, a second at the speed in force, the share of a timeline, or the instant that it leads to.
inductive Faults (player : Player) (order : Order) : Prop
  | length (timeline : Timeline)
      (htimeline : player.clock.timeline = some timeline ∨
        (player.obey order).player.clock.timeline = some timeline)
      (hlong : ¬(IsLength timeline.span ∧ IsLength timeline.elapsed))
  | lead (reader : Player) (instant : Instant) (timeline : Timeline) (anchor : Anchor)
      (htimes : Times player order reader instant timeline anchor)
      (hlong : ¬(IsLength (instant.since timeline.first) ∧
        IsLength (instant.since timeline.first - anchor.offset)))
  | due (reader : Player) (instant : Instant) (timeline : Timeline) (anchor : Anchor)
      (htimes : Times player order reader instant timeline anchor)
      (hlate : wallEnd ≤ anchor.wall +
        (reader.speed.wallMicroseconds (instant.since timeline.first - anchor.offset)).toNat * 1000)
  | second
      (hseconds : ∀ seconds, one / (player.obey order).player.speed.toNumber = .finite seconds →
        ¬(0 ≤ seconds.value ∧ seconds.value < 2 ^ 64))
  | share (fraction : Binary64) (timeline : Timeline) (hseek : SeeksByTime player order fraction timeline)
      (hleast : (ofInt (wholeMilliseconds timeline.span) * fraction).round = leastWord)
  | target (fraction : Binary64) (timeline : Timeline) (hseek : SeeksByTime player order fraction timeline)
      (hbeyond : seekTarget? timeline fraction = none)

theorem isLength_since (left right : Instant) : IsLength (left.since right) := by
  have hbounds := left.since_bounds right
  unfold IsLength greatestWord
  omega

-- An anchor that was let down at one of these readings, at an instant of the recording.
structure Anchor.Sound (latest : Nat) (anchor : Anchor) : Prop where
  wall : anchor.wall ≤ latest
  offset : ∃ left right : Instant, anchor.offset = left.since right

def SoundlyAnchored (latest : Nat) (player : Player) : Prop :=
  ∀ anchor, player.anchor = some anchor → anchor.Sound latest

section Anchoring

variable {player : Player} {latest now : Nat}

theorem soundlyAnchored_rebase (player : Player) (hnow : now ≤ latest) :
    (player.rebase now).SoundlyAnchored latest := by
  intro anchor hanchor
  cases htimeline : player.clock.timeline with
  | none => simp [Player.rebase, htimeline] at hanchor
  | some timeline =>
    obtain rfl : (⟨now, timeline.elapsed⟩ : Anchor) = anchor := by
      simpa [Player.rebase, htimeline] using hanchor
    exact ⟨hnow, timeline.current, timeline.first, rfl⟩

theorem SoundlyAnchored.tick (now : Nat) (h : player.SoundlyAnchored latest) :
    (tick now player).player.SoundlyAnchored latest := by
  unfold SoundlyAnchored
  rw [anchor_tick]
  exact h

theorem SoundlyAnchored.obey {order : Order} (h : player.SoundlyAnchored latest) (horder : order.now ≤ latest) :
    (player.obey order).player.SoundlyAnchored latest := by
  obtain ⟨now, command⟩ := order
  obtain ⟨result, -, hcase, hobey⟩ := player.obeying now command
  rw [hobey]
  cases hcase with
  | load | loadFailed | scanUnloaded | scanFailed | scan | stop => exact fun _ hanchor => by cases hanchor
  | start => exact (soundlyAnchored_rebase _ horder).tick now
  | tick => exact h.tick now
  | wake =>
    have hready : SoundlyAnchored latest { player with pending := none } := h
    exact hready.tick now
  | seekPlaying fraction log hlog landing => exact soundlyAnchored_rebase (player.landed landing log) horder
  | rebase | speedPlaying => exact soundlyAnchored_rebase player horder
  | pause | seek | speed => exact h
  | startRefused | pauseRefused | stopRefused | wakeRefused | seekRefused | speedRefused => exact h

theorem SoundlyAnchored.obeyAll (orders : List Order) (h : player.SoundlyAnchored latest)
    (horders : ∀ order ∈ orders, order.now ≤ latest) :
    (player.obeyAll orders).player.SoundlyAnchored latest := by
  induction orders generalizing player with
  | nil => exact h
  | cons order rest ih =>
    exact ih (h.obey (horders order (by simp))) fun other hother => horders other (by simp [hother])

theorem soundlyAnchored_obeyAll_new {config : Config} {latest : Nat} {orders : List Order}
    (horders : ∀ order ∈ orders, order.now ≤ latest) :
    ((Player.new config).obeyAll orders).player.SoundlyAnchored latest := by
  have hnew : (Player.new config).SoundlyAnchored latest := fun _ hanchor => by cases hanchor
  exact hnew.obeyAll orders horders

-- Whoever takes a record is anchored as the player was, or anew.
theorem Times.sound {order : Order} {reader : Player} {instant : Instant} {timeline : Timeline} {anchor : Anchor}
    (htimes : Times player order reader instant timeline anchor) (h : player.SoundlyAnchored latest)
    (horder : order.now ≤ latest) : anchor.Sound latest := by
  obtain ⟨record, hread, -⟩ := htimes.read
  cases hticking : player.ticking? order with
  | none => simp [orderReads, hticking] at hread
  | some ready =>
    simp only [orderReads, hticking] at hread
    have hrested : reader.rested = rested { ready with pending := none } := rested_of_mem_tickReads hread
    have hsame : reader.anchor = ready.anchor := by rw [anchor_of_rested hrested]
    have hready : ready.SoundlyAnchored latest := by
      cases readies hticking with
      | start => exact soundlyAnchored_rebase _ horder
      | tick | wake => exact h
    exact hready anchor (hsame ▸ htimes.anchor)

end Anchoring

-- No timeline ends before it begins.
def Ordered (player : Player) : Prop :=
  ∀ timeline, player.clock.timeline = some timeline → timeline.first ≤ timeline.last

theorem Ordered.of_pacing {player other : Player} (h : player.Ordered) (hpacing : other.pacing = player.pacing) :
    other.Ordered := by
  intro timeline htimeline
  have hfirst : other.clock.timeline.map (·.first) = player.clock.timeline.map (·.first) :=
    congrArg Pacing.first hpacing
  have hlast : other.clock.timeline.map (·.last) = player.clock.timeline.map (·.last) :=
    congrArg Pacing.last hpacing
  cases hknown : player.clock.timeline with
  | none => simp [htimeline, hknown] at hfirst
  | some known =>
    simp only [htimeline, hknown, Option.map_some, Option.some.injEq] at hfirst hlast
    rw [hfirst, hlast]
    exact h known hknown

theorem Ordered.obey {player : Player} (order : Order) (h : player.Ordered) :
    (player.obey order).player.Ordered := by
  rcases plays_or_clock player order with hplays | hunknown | ⟨log, outcome, -, hscan, hclock⟩
  · exact h.of_pacing (pacing_obey player hplays)
  · intro timeline htimeline
    rw [hunknown] at htimeline
    cases htimeline
  · intro timeline htimeline
    rw [hclock] at htimeline
    exact Scan.first_le_last_of_scan hscan htimeline

theorem Reachable.ordered {config : Config} {player : Player} (h : Reachable config player) : player.Ordered := by
  induction h with
  | new => exact fun _ htimeline => by cases htimeline
  | obey order _ ih => exact ih.obey order

section Seeking

variable {player : Player} {order : Order} {fraction : Binary64} {timeline : Timeline}

-- Milliseconds are cut off towards zero.
theorem wholeMilliseconds_spec (nanoseconds : Int) :
    0 ≤ nanoseconds ∧ wholeMilliseconds nanoseconds = nanoseconds / 1000000 ∨
      nanoseconds ≤ 0 ∧ wholeMilliseconds nanoseconds = -(-nanoseconds / 1000000) := by
  unfold wholeMilliseconds
  rcases Int.le_total 0 nanoseconds with hnonneg | hneg
  · exact .inl ⟨hnonneg, Int.tdiv_eq_ediv_of_nonneg hnonneg⟩
  · have hpart : (-nanoseconds).tdiv 1000000 = -nanoseconds / 1000000 := Int.tdiv_eq_ediv_of_nonneg (by omega)
    rw [← hpart, Int.neg_tdiv, Int.neg_neg]
    exact .inr ⟨hneg, rfl⟩

theorem wholeMilliseconds_bounds (nanoseconds : Int) :
    (0 ≤ wholeMilliseconds nanoseconds → -1000000 < nanoseconds ∧
      wholeMilliseconds nanoseconds * 1000000 ≤ max nanoseconds 0) ∧
    (wholeMilliseconds nanoseconds < 0 → nanoseconds ≤ wholeMilliseconds nanoseconds * 1000000) := by
  have hwhole := wholeMilliseconds_spec nanoseconds
  omega

theorem shareOfSpan_eq (timeline : Timeline) (fraction : Binary64) :
    shareOfSpan timeline.span fraction =
      (ofInt (wholeMilliseconds timeline.span) * fraction).round * 1000000 := rfl

theorem round_shareOfSpan (timeline : Timeline) (hfraction : fraction.within (Finite.zero false) Finite.one) :
    (0 ≤ wholeMilliseconds timeline.span →
      0 ≤ (ofInt (wholeMilliseconds timeline.span) * fraction).round ∧
        (ofInt (wholeMilliseconds timeline.span) * fraction).round ≤ wholeMilliseconds timeline.span + 8) ∧
    (wholeMilliseconds timeline.span < 0 →
      wholeMilliseconds timeline.span - 8 ≤ (ofInt (wholeMilliseconds timeline.span) * fraction).round ∧
        (ofInt (wholeMilliseconds timeline.span) * fraction).round ≤ 0) := by
  have hspan := timeline.span_bounds
  have hwhole := wholeMilliseconds_bounds timeline.span
  exact round_share (by omega) (by omega) hfraction

-- A share that leaves the calendar leaves it at its end: where the timeline is negative, it begins with a leap second
-- and is shorter than that.
theorem endOfCalendar_of_target (hordered : timeline.first ≤ timeline.last)
    (hfraction : fraction.within (Finite.zero false) Finite.one) (htarget : seekTarget? timeline fraction = none) :
    Instant.endOfCalendar - 2000000000 ≤ timeline.last.position := by
  have hshare := round_shareOfSpan timeline hfraction
  have hwhole := wholeMilliseconds_bounds timeline.span
  have hbeyond := Instant.add?_eq_none htarget
  rw [shareOfSpan_eq] at hbeyond
  rcases Int.lt_or_le (wholeMilliseconds timeline.span) 0 with hneg | hnonneg
  · have hspan : timeline.span < 0 := by omega
    obtain ⟨hshort, hleap⟩ := Instant.since_of_le hordered hspan
    change -1000000000 < timeline.span at hshort
    have hsmall := round_share_small (by omega) hneg hfraction
    have hrange := timeline.first.in_range
    unfold Instant.position Instant.dayLength at hbeyond
    omega
  · have hnear := timeline.span_near
    omega

theorem landing?_outOfRange_iff (log : Log) :
    player.landing? fraction log = .error .outOfRange ↔
      ∃ timeline, player.clock.timeline = some timeline ∧ seekTarget? timeline fraction = none := by
  cases htimeline : player.clock.timeline with
  | none =>
    simp only [landing?, htimeline]
    split <;> simp
  | some timeline =>
    cases htarget : seekTarget? timeline fraction with
    | none => simp [landing?, htimeline, htarget]
    | some target =>
      simp only [landing?, htimeline, htarget]
      split <;> simp [htarget]

theorem seek_outOfRange_iff (now : Nat) (fraction : Binary64) (player : Player) :
    (player.seek now fraction).1 = .outOfRange ↔
      ∃ timeline, SeeksByTime player ⟨now, .seek fraction⟩ fraction timeline ∧
        seekTarget? timeline fraction = none := by
  constructor
  · intro hseek
    rw [seek_eq] at hseek
    split at hseek
    · cases hseek
    · rename_i log hlog
      split at hseek
      · rename_i hgoes
        obtain ⟨hwithin, hseekable⟩ : fraction.within (Finite.zero false) Finite.one ∧ player.isSeekable := by
          simpa using hgoes
        split at hseek
        · rename_i answer hlanding
          obtain rfl : answer = .outOfRange := hseek
          obtain ⟨timeline, htimeline, htarget⟩ := (landing?_outOfRange_iff log).mp hlanding
          exact ⟨timeline, ⟨rfl, by simp [hlog], hwithin, hseekable, htimeline⟩, htarget⟩
        · cases hseek
      · cases hseek
  · rintro ⟨timeline, hseeks, htarget⟩
    obtain ⟨log, hlog⟩ := Option.isSome_iff_exists.mp hseeks.loaded
    have hlanding := (landing?_outOfRange_iff log).mpr ⟨timeline, hseeks.timeline, htarget⟩
    simp [seek_eq, hlog, hseeks.within, hseeks.seekable, hlanding]

-- Nothing else answers so.
theorem outOfRange_iff (player : Player) (order : Order) :
    (order.command.run order.now player).1 = .sought .outOfRange ↔
      ∃ fraction timeline, SeeksByTime player order fraction timeline ∧ seekTarget? timeline fraction = none := by
  obtain ⟨now, command⟩ := order
  constructor
  · intro hanswer
    cases command with
    | seek fraction =>
      have hseek : (player.seek now fraction).1 = .outOfRange := by simpa [Command.run] using hanswer
      exact ⟨fraction, (seek_outOfRange_iff now fraction player).mp hseek⟩
    | load | loadFailed | scan | start | pause | stop | tick | rebase | wake | setSpeed => cases hanswer
  · rintro ⟨fraction, timeline, hseeks, htarget⟩
    obtain rfl : command = .seek fraction := hseeks.command
    have hseek := (seek_outOfRange_iff now fraction player).mpr ⟨timeline, hseeks, htarget⟩
    simp [Command.run, hseek]

end Seeking

-- Whoever is soundly anchored finds nothing out of its range but the instant that a seek leads to.
theorem Faults.outOfRange {player : Player} {order : Order} (hfaults : player.Faults order)
    (hanchored : player.SoundlyAnchored latestReading) (horder : order.now ≤ latestReading) :
    (order.command.run order.now player).1 = .sought .outOfRange := by
  cases hfaults with
  | length timeline _ hlong => exact absurd ⟨isLength_since _ _, isLength_since _ _⟩ hlong
  | lead reader instant timeline anchor htimes hlong =>
    obtain ⟨left, right, hoffset⟩ := (htimes.sound hanchored horder).offset
    have hoffsetBounds := left.since_bounds right
    have hinstantBounds := instant.since_bounds timeline.first
    refine absurd ⟨isLength_since _ _, ?_⟩ hlong
    unfold IsLength greatestWord
    omega
  | due reader instant timeline anchor htimes hlate =>
    have hwall := (htimes.sound hanchored horder).wall
    have hlead := reader.speed.wallMicroseconds_le (instant.since timeline.first - anchor.offset)
    unfold latestReading wallEnd greatestWord at *
    omega
  | second hseconds =>
    obtain ⟨seconds, hdivided, hnonneg, hfew⟩ := (player.obey order).player.speed.divides
    exact absurd ⟨hnonneg, lt_of_le_of_lt hfew (by norm_num)⟩ (hseconds seconds hdivided)
  | share fraction timeline hseeks hleast =>
    have hshare := round_shareOfSpan timeline hseeks.within
    have hspan := timeline.span_bounds
    have hwhole := wholeMilliseconds_bounds timeline.span
    unfold leastWord at hleast
    omega
  | target fraction timeline hseeks hbeyond =>
    exact (outOfRange_iff player order).mpr ⟨fraction, timeline, hseeks, hbeyond⟩

-- Whatever a player was told, its next order asks for nothing out of range, unless it is a seek in a recording that
-- lasts into the last two seconds of the calendar; and its speed is a number and not below the slowest one.
theorem faults_only_at_end_of_calendar (config : Config) {orders : List Order} {order : Order}
    (hreadings : ∀ given ∈ orders ++ [order], given.now ≤ latestReading) :
    let player := ((Player.new config).obeyAll orders).player
    (player.Faults order ↔ (order.command.run order.now player).1 = .sought .outOfRange) ∧
    (player.Faults order → ∃ fraction timeline, player.SeeksByTime order fraction timeline ∧
      seekTarget? timeline fraction = none ∧ Instant.endOfCalendar - 2000000000 ≤ timeline.last.position) ∧
    ∃ rate, player.speed.toNumber = .finite rate ∧ Speed.slowest.value ≤ rate.value := by
  intro player
  have hreach : Reachable config player := Reachable.new.obeyAll orders
  have hanchored : player.SoundlyAnchored latestReading :=
    soundlyAnchored_obeyAll_new fun given hgiven => hreadings given (by simp [hgiven])
  have horder : order.now ≤ latestReading := hreadings order (by simp)
  have hbeyond : player.Faults order → ∃ fraction timeline, player.SeeksByTime order fraction timeline ∧
      seekTarget? timeline fraction = none := fun hfaults =>
    (outOfRange_iff player order).mp (hfaults.outOfRange hanchored horder)
  refine ⟨⟨fun hfaults => hfaults.outOfRange hanchored horder, fun hanswer => ?_⟩, fun hfaults => ?_, ?_⟩
  · obtain ⟨fraction, timeline, hseeks, htarget⟩ := (outOfRange_iff player order).mp hanswer
    exact .target fraction timeline hseeks htarget
  · obtain ⟨fraction, timeline, hseeks, htarget⟩ := hbeyond hfaults
    have hordered : timeline.first ≤ timeline.last := hreach.ordered timeline hseeks.timeline
    exact ⟨fraction, timeline, hseeks, htarget, endOfCalendar_of_target hordered hseeks.within htarget⟩
  · exact ⟨player.speed.rate, rfl, player.speed.in_range.1⟩

-- A seek to the end of a recording of two seconds.
theorem faults_only_at_end_of_calendar_two_seconds_apart :
    (∀ given ∈ ([⟨0, .load threeSentences⟩, ⟨0, .scan⟩, ⟨0, .start⟩] : List Order) ++ [⟨1, .seek Binary64.one⟩],
      given.now ≤ latestReading) ∧ ¬waitingPlayer.Faults ⟨1, .seek Binary64.one⟩ := by
  have hreadings : ∀ given ∈ ([⟨0, .load threeSentences⟩, ⟨0, .scan⟩, ⟨0, .start⟩] : List Order) ++
      [⟨1, .seek Binary64.one⟩], given.now ≤ latestReading := by
    have hone : 1 ≤ latestReading := by decide
    simp [hone]
  have hmoved : (waitingPlayer.seek 1 Binary64.one).1 = .moved := by decide +kernel
  refine ⟨hreadings, fun hfaults => ?_⟩
  have hanswer := (faults_only_at_end_of_calendar Config.default hreadings).1.mp hfaults
  change Answer.sought (waitingPlayer.seek 1 Binary64.one).1 = .sought .outOfRange at hanswer
  rw [hmoved] at hanswer
  cases hanswer

-- It lasts for the whole calendar but a millisecond.
def calendarTable : Recording :=
  Recording.ofLines "calendar"
    ["timestamp,message".toList, "-262143-01-01T00:00:00,a".toList, "+262142-12-31T23:59:59.999,b".toList]

def calendarPlayer : Player :=
  ((Player.new Config.default).obeyAll [⟨0, .load calendarTable⟩, ⟨0, .scan⟩]).player

-- So many milliseconds are no binary64 number, and the next one leads past the last instant.
theorem seek_past_end_of_calendar :
    Reachable Config.default calendarPlayer ∧ calendarPlayer.Faults ⟨0, .seek Binary64.one⟩ ∧
      ∃ timeline, calendarPlayer.clock.timeline = some timeline ∧
        timeline.first.add? timeline.span = some timeline.last := by
  have hreach : Reachable Config.default calendarPlayer := Reachable.new.obeyAll _
  have hout : (calendarPlayer.seek 0 Binary64.one).1 = .outOfRange := by decide +kernel
  obtain ⟨timeline, hseeks, htarget⟩ := (seek_outOfRange_iff 0 Binary64.one calendarPlayer).mp hout
  have hexact : (calendarPlayer.clock.timeline.map fun timeline => decide (timeline.first.add? timeline.span =
      some timeline.last)) = some true := by decide +kernel
  rw [hseeks.timeline] at hexact
  exact ⟨hreach, .target Binary64.one timeline hseeks htarget, timeline, hseeks.timeline,
    of_decide_eq_true (Option.some.inj hexact)⟩

end Player

end VoyageLog
