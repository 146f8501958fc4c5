import VoyageLog.Proofs.Calendar.Moves
import VoyageLog.Proofs.Playback.Faults
import VoyageLog.Proofs.Playback.Outset
import VoyageLog.Proofs.Playback.Searches

namespace VoyageLog.Player

open Binary64 TimeSource

theorem zero_within : zero.within (Finite.zero false) Finite.one := by decide +kernel

theorem one_within : one.within (Finite.zero false) Finite.one := by decide +kernel

section Targets

variable {timeline : Timeline} {fraction : Binary64}

theorem seekTarget?_zero (timeline : Timeline) : seekTarget? timeline zero = some timeline.first := by
  have hspan := timeline.span_bounds
  have hwhole := wholeMilliseconds_bounds timeline.span
  have hround : (ofInt (wholeMilliseconds timeline.span) * zero).round = 0 :=
    round_nothing (by omega) (by omega)
  rw [seekTarget?, shareOfSpan_eq, hround, Int.zero_mul]
  exact Instant.add?_zero timeline.first

-- A share of the timeline does not reach past an ordinary end. Where the timeline is negative, it begins with a leap
-- second and the share stays in that.
theorem fallsShort_of_share (hordered : timeline.first ≤ timeline.last) (hordinary : ¬timeline.last.isLeapSecond)
    (hshort : wholeMilliseconds timeline.span ≤ 9007199254740992)
    (hfraction : fraction.within (Finite.zero false) Finite.one) :
    Instant.FallsShort timeline.first timeline.last (shareOfSpan timeline.span fraction) := by
  have hwhole := wholeMilliseconds_bounds timeline.span
  rcases Int.lt_or_le (wholeMilliseconds timeline.span) 0 with hneg | hnonneg
  · have hspan : timeline.span < 0 := by omega
    obtain ⟨hlength, hleap⟩ := Instant.since_of_le hordered hspan
    change -1000000000 < timeline.span at hlength
    have hsmall := round_share_small (by omega) hneg hfraction
    have hround := (round_shareOfSpan timeline hfraction).2 hneg
    have hfirst : timeline.first.isLeapSecond := by simpa [Instant.isLeapSecond] using hleap
    refine ⟨hordered, hordinary, .inr ⟨?_, hfirst⟩, .inl ?_⟩ <;> rw [shareOfSpan_eq] <;> omega
  · obtain ⟨hlow, hhigh⟩ := round_share_le hnonneg hshort hfraction
    obtain ⟨-, hbelow⟩ := hwhole.1 hnonneg
    refine ⟨hordered, hordinary, .inl ?_, ?_⟩
    · rw [shareOfSpan_eq]
      omega
    · change _ ∨ _ ≤ timeline.span
      rw [shareOfSpan_eq]
      omega

-- In ordinary time the share of the whole leads to within a millisecond of the last instant.
theorem wholeMilliseconds_of_end {target instant : Instant} (hordered : timeline.first ≤ timeline.last)
    (hshort : wholeMilliseconds timeline.span ≤ 9007199254740992) (hfirst : ¬timeline.first.isLeapSecond)
    (hlast : ¬timeline.last.isLeapSecond) (hinstant : ¬instant.isLeapSecond)
    (htarget : seekTarget? timeline one = some target) (hfrom : target ≤ instant) (hto : instant ≤ timeline.last) :
    wholeMilliseconds (instant.since timeline.first) = wholeMilliseconds timeline.span := by
  have hspan : timeline.span = timeline.last.position - timeline.first.position :=
    Instant.since_of_ordinary hlast hfirst
  have hle := (Instant.le_iff_position hfirst hlast).mp hordered
  have hwhole := wholeMilliseconds_bounds timeline.span
  have hnonneg : 0 ≤ wholeMilliseconds timeline.span := Int.tdiv_nonneg (by omega) (by decide)
  have hmove : timeline.first.add? (wholeMilliseconds timeline.span * 1000000) = some target := by
    rw [seekTarget?, shareOfSpan_eq, round_all hnonneg hshort] at htarget
    exact htarget
  obtain ⟨hposition, hordinary⟩ := Instant.position_of_add? hfirst hmove
  have hafter := (Instant.le_iff_position hordinary hinstant).mp hfrom
  have hbefore := (Instant.le_iff_position hinstant hlast).mp hto
  rw [Instant.since_of_ordinary hinstant hfirst]
  unfold wholeMilliseconds at *
  rw [Int.tdiv_eq_ediv_of_nonneg (by omega)] at *
  rw [Int.tdiv_eq_ediv_of_nonneg (by omega)]
  omega

end Targets

-- A player of a scanned recording, wherever it stands.
structure OnTimeline (recording : Recording) (outcome : Scan.Outcome) (timeline : Timeline) (player : Player) :
    Prop where
  loaded : ∃ log, player.log = some log ∧ log.recording = recording
  layout : player.clock.layout = outcome.clock.layout
  dataStart : player.clock.dataStart = outcome.clock.dataStart
  timeline : ∃ current, player.clock.timeline = some { timeline with current }
  listener : player.listener.undated = outcome.listener.undated

section Seeking

variable {recording : Recording} {outcome : Scan.Outcome} {timeline : Timeline} {player : Player}
  {fraction : Binary64}

theorem onTimeline_of_scan {log : Log} (hlog : player.log = some log)
    (hscan : Scan.ofRecording player.lockPrimary log.recording = .ok outcome)
    (htimeline : outcome.clock.timeline = some timeline) (early : Nat) (orders : List Order)
    (horders : ∀ order ∈ orders, order.command.Plays) :
    OnTimeline log.recording outcome timeline ((player.obey ⟨early, .scan⟩).player.obeyAll orders).player := by
  have hplayer : (player.obey ⟨early, .scan⟩).player = _ := congrArg (·.2.player) (scan_of_outcome hlog hscan)
  generalize (player.obey ⟨early, .scan⟩).player = scanned at hplayer
  have hlayout : scanned.clock.layout.isSome := by
    rw [hplayer]
    change outcome.clock.layout.isSome
    rcases Scan.timed_of_scan hscan htimeline with ⟨_, -, hlayout⟩ | ⟨_, -, hlayout⟩ <;> simp [hlayout]
  have hcourse := sameCourse_obeyAll orders hlayout horders
  generalize (scanned.obeyAll orders).player = reached at hcourse
  have hclock : reached.clock.backToFirst = outcome.clock.backToFirst := by
    rw [hcourse.clock, hplayer]
    rfl
  refine ⟨?_, congrArg (·.layout) hclock, congrArg (·.dataStart) hclock, ?_, ?_⟩
  · have hrecording := hcourse.recording
    rw [hplayer] at hrecording
    exact Option.map_eq_some_iff.mp hrecording
  · have hends := congrArg (·.timeline) hclock
    simp only [Clock.backToFirst, htimeline, Option.map_some, Option.map_eq_some_iff] at hends
    obtain ⟨known, hknown, hsame⟩ := hends
    have hfirst : known.first = timeline.first := congrArg (·.first) hsame
    have hlast : known.last = timeline.last := congrArg (·.last) hsame
    exact ⟨known.current, by rw [hknown, ← hfirst, ← hlast]⟩
  · rw [hcourse.listener, hplayer]
    rfl

variable (h : OnTimeline recording outcome timeline player)

include h

theorem OnTimeline.find_of_moved {now : Nat} (hmoved : (player.seek now fraction).1 = .moved) :
    ∃ target entry, seekTarget? timeline fraction = some target ∧
      (datedLines outcome.clock.layout outcome.listener.undated
        (recording.recordsAt outcome.clock.dataStart)).find? (target ≤ ·.2) = some entry ∧
      (player.seek now fraction).2.player.clock.timeline = some { timeline with current := entry.2 } := by
  obtain ⟨log, hlog, rfl⟩ := h.loaded
  obtain ⟨current, hcurrent⟩ := h.timeline
  obtain ⟨target, entry, htarget, hfind, -, hclock⟩ := Player.find_of_moved hlog hcurrent hmoved
  rw [h.layout, h.dataStart, h.listener] at hfind
  refine ⟨target, entry, htarget, hfind, ?_⟩
  rw [hclock]
  simp [Clock.withCurrent, hcurrent]

variable (hspans : Scan.Spans (some (timeline.first, timeline.last)) ((datedLines outcome.clock.layout
  outcome.listener.undated (recording.recordsAt outcome.clock.dataStart)).map (·.2)))

include hspans

-- A seek finds its record exactly if its target is not past the last instant.
theorem OnTimeline.moved_iff (now : Nat) (hseekable : player.isSeekable)
    (hwithin : fraction.within (Finite.zero false) Finite.one) :
    (player.seek now fraction).1 = .moved ↔
      ∃ target, seekTarget? timeline fraction = some target ∧ target ≤ timeline.last := by
  obtain ⟨log, hlog, rfl⟩ := h.loaded
  obtain ⟨current, hcurrent⟩ := h.timeline
  rw [seek_moved_iff now hlog hcurrent hseekable hwithin, h.layout, h.dataStart, h.listener]
  constructor
  · rintro ⟨target, htarget, entry, hentry, hle⟩
    have hlast := Scan.le_last_of_sorted hspans.sorted hspans.last.symm (List.mem_map_of_mem hentry)
    exact ⟨target, htarget, Instant.le_trans hle hlast⟩
  · rintro ⟨target, htarget, hle⟩
    obtain ⟨entry, hentry, heq⟩ := List.mem_map.mp (List.mem_of_getLast? hspans.last.symm)
    exact ⟨target, htarget, entry, hentry, heq ▸ hle⟩

theorem OnTimeline.seek_within (now : Nat) (hseekable : player.isSeekable)
    (hshort : wholeMilliseconds timeline.span ≤ 9007199254740992) (hordinary : ¬timeline.last.isLeapSecond)
    (hwithin : fraction.within (Finite.zero false) Finite.one) :
    (player.seek now fraction).1 = .moved := by
  have hfalls := fallsShort_of_share hspans.le hordinary hshort hwithin
  exact (h.moved_iff hspans now hseekable hwithin).mpr hfalls.exists_target

-- The first of the lines that tell the time is not too early for a seek to the start.
theorem OnTimeline.seek_zero (now : Nat) (hseekable : player.isSeekable) :
    (player.seek now zero).1 = .moved ∧
      (player.seek now zero).2.player.clock.timeline = some { timeline with current := timeline.first } := by
  have hmoved := (h.moved_iff hspans now hseekable zero_within).mpr
    ⟨timeline.first, seekTarget?_zero timeline, hspans.le⟩
  obtain ⟨target, entry, htarget, hfind, hclock⟩ := h.find_of_moved hmoved
  obtain rfl := Option.some.inj ((seekTarget?_zero timeline).symm.trans htarget)
  obtain ⟨earliest, hearliest, hinstant⟩ := hspans.find_first
  obtain rfl := Option.some.inj (hearliest.symm.trans hfind)
  exact ⟨hmoved, by rw [hclock, hinstant]⟩

theorem OnTimeline.seek_one (now : Nat) (hseekable : player.isSeekable)
    (hshort : wholeMilliseconds timeline.span ≤ 9007199254740992)
    (hordinary : ∀ entry ∈ datedLines outcome.clock.layout outcome.listener.undated
      (recording.recordsAt outcome.clock.dataStart), ¬entry.2.isLeapSecond) :
    (player.seek now one).1 = .moved ∧
      ∃ found, (player.seek now one).2.player.clock.timeline = some found ∧
        found.first = timeline.first ∧ found.last = timeline.last ∧
        wholeMilliseconds found.elapsed = wholeMilliseconds timeline.span := by
  have hmember : ∀ instant ∈ (datedLines outcome.clock.layout outcome.listener.undated
      (recording.recordsAt outcome.clock.dataStart)).map (·.2), ¬instant.isLeapSecond := by
    intro instant hmem
    obtain ⟨entry, hentry, rfl⟩ := List.mem_map.mp hmem
    exact hordinary entry hentry
  have hlast := hmember _ (List.mem_of_getLast? hspans.last.symm)
  have hfirst := hmember _ (List.mem_of_head? hspans.first.symm)
  have hmoved := h.seek_within hspans now hseekable hshort hlast one_within
  obtain ⟨target, entry, htarget, hfind, hclock⟩ := h.find_of_moved hmoved
  have hentry := List.mem_of_find?_eq_some hfind
  have hle : target ≤ entry.2 := by simpa using List.find?_some hfind
  have hbefore := Scan.le_last_of_sorted hspans.sorted hspans.last.symm (List.mem_map_of_mem hentry)
  exact ⟨hmoved, _, hclock, rfl, rfl, wholeMilliseconds_of_end hspans.le hshort hfirst hlast
    (hordinary entry hentry) htarget hle hbefore⟩

end Seeking

-- After a scan that found a timeline, a seek moves playback exactly if its target is not past the last instant; so
-- does every seek, if the recording ends in ordinary time and is not too long. A seek to the start leads to the first
-- instant, and in ordinary time a seek to the end to the last millisecond.
theorem seeks_within_range {player : Player} {log : Log} {outcome : Scan.Outcome} {timeline : Timeline}
    (hlog : player.log = some log) (hscan : Scan.ofRecording player.lockPrimary log.recording = .ok outcome)
    (htimeline : outcome.clock.timeline = some timeline)
    (htrusted : Trusted player.lockPrimary outcome (log.recording.recordsAt outcome.clock.dataStart))
    (early : Nat) (orders : List Order) (horders : ∀ order ∈ orders, order.command.Plays) (now : Nat) :
    let reached := ((player.obey ⟨early, .scan⟩).player.obeyAll orders).player
    let dated := datedLines outcome.clock.layout outcome.listener.undated
      (log.recording.recordsAt outcome.clock.dataStart)
    reached.isSeekable →
      (∀ fraction : Binary64, fraction.within (Finite.zero false) Finite.one →
        ((reached.seek now fraction).1 = .moved ↔
          ∃ target, seekTarget? timeline fraction = some target ∧ target ≤ timeline.last)) ∧
      (wholeMilliseconds timeline.span ≤ 9007199254740992 → ¬timeline.last.isLeapSecond →
        ∀ fraction : Binary64, fraction.within (Finite.zero false) Finite.one →
          (reached.seek now fraction).1 = .moved) ∧
      ((reached.seek now zero).1 = .moved ∧
        (reached.seek now zero).2.player.clock.timeline = some { timeline with current := timeline.first }) ∧
      (wholeMilliseconds timeline.span ≤ 9007199254740992 → (∀ entry ∈ dated, ¬entry.2.isLeapSecond) →
        (reached.seek now one).1 = .moved ∧
          ∃ found, (reached.seek now one).2.player.clock.timeline = some found ∧
            found.first = timeline.first ∧ found.last = timeline.last ∧
            wholeMilliseconds found.elapsed = wholeMilliseconds timeline.span) := by
  intro reached dated hseekable
  have hreached : OnTimeline log.recording outcome timeline reached :=
    onTimeline_of_scan hlog hscan htimeline early orders horders
  obtain ⟨-, hspans⟩ := spans_of_scan hscan htimeline htrusted
  refine ⟨?_, ?_, ?_, ?_⟩
  · intro fraction hwithin
    exact hreached.moved_iff hspans now hseekable hwithin
  · intro hshort hlast fraction hwithin
    exact hreached.seek_within hspans now hseekable hshort hlast hwithin
  · exact hreached.seek_zero hspans now hseekable
  · intro hshort hordinary
    exact hreached.seek_one hspans now hseekable hshort hordinary

def steadyPlayer : Player := ((Player.new Config.default).load steady).player

-- A seek to the end of a second of sentences, while it is played.
theorem seeks_within_steady_sentences :
    ∃ outcome timeline, Scan.ofRecording true steady = .ok outcome ∧ outcome.clock.timeline = some timeline ∧
      Trusted true outcome (steady.recordsAt outcome.clock.dataStart) ∧
      (let reached := ((steadyPlayer.obey ⟨0, .scan⟩).player.obeyAll [⟨0, .start⟩]).player
       reached.isSeekable ∧ (reached.seek 1 one).1 = .moved ∧
         ∃ found, (reached.seek 1 one).2.player.clock.timeline = some found ∧
           wholeMilliseconds found.elapsed = 1000) := by
  have hfound : (Scan.ofRecording true steady).toOption.bind (fun outcome =>
      outcome.clock.timeline.map fun timeline =>
        (outcome.clock.primary, outcome.clock.dataStart, wholeMilliseconds timeline.span,
          (datedLines outcome.clock.layout outcome.listener.undated
            (steady.recordsAt outcome.clock.dataStart)).all (!·.2.isLeapSecond))) =
      some (some gpsMinimum, 0, 1000, true) := by
    decide +kernel
  have hsound : ∀ record ∈ steady.recordsAt 0, (told? record.text).isSome → isSound record.text := by
    decide +kernel
  have hseekable : ((steadyPlayer.obey ⟨0, .scan⟩).player.obeyAll [⟨0, .start⟩]).player.isSeekable := by
    decide +kernel
  cases hscan : Scan.ofRecording true steady with
  | error failure => simp [hscan, Except.toOption] at hfound
  | ok outcome =>
    simp only [hscan, Except.toOption, Option.bind_some, Option.map_eq_some_iff, Prod.mk.injEq] at hfound
    obtain ⟨timeline, htimeline, hprimary, hstart, hspan, hordinary⟩ := hfound
    have htrusted : Trusted true outcome (steady.recordsAt outcome.clock.dataStart) := by
      refine ⟨fun _ => rfl, fun source _ => ?_⟩
      rw [hstart]
      exact undisturbed_of_sound hsound
    have horders : ∀ order ∈ ([⟨0, .start⟩] : List Order), order.command.Plays := by simp [Command.Plays]
    have hdated : ∀ entry ∈ datedLines outcome.clock.layout outcome.listener.undated
        (steady.recordsAt outcome.clock.dataStart), ¬entry.2.isLeapSecond := by simpa using hordinary
    have hlog : steadyPlayer.log = some (Log.start steady) := rfl
    obtain ⟨-, -, -, hend⟩ := seeks_within_range hlog hscan htimeline htrusted 0 [⟨0, .start⟩] horders 1 hseekable
    obtain ⟨hmoved, found, hclock, -, -, helapsed⟩ := hend (by omega) hdated
    exact ⟨outcome, timeline, rfl, htimeline, htrusted, hseekable, hmoved, found, hclock, helapsed.trans hspan⟩

-- It ends within a leap second.
def leapTable : Recording :=
  Recording.ofLines "leap"
    ["timestamp,message".toList, "2016-12-31T23:59:58Z,a".toList, "2016-12-31T23:59:60.500Z,b".toList]

def leapPlayer : Player :=
  ((Player.new Config.default).obeyAll [⟨0, .load leapTable⟩, ⟨0, .scan⟩]).player

-- Two and a half seconds after the first instant comes one that is later than the last one.
theorem seek_to_leap_second_refused :
    Reachable Config.default leapPlayer ∧ leapPlayer.state = .idle ∧ leapPlayer.isTimed ∧
      one.within (Finite.zero false) Finite.one ∧ (leapPlayer.seek 0 one).1 = .refused := by
  have hreach : Reachable Config.default leapPlayer := Reachable.new.obeyAll _
  have hidle : leapPlayer.state = .idle := by decide +kernel
  have htimed : leapPlayer.isTimed := by decide +kernel
  have hrefused : (leapPlayer.seek 0 one).1 = .refused := by decide +kernel
  exact ⟨hreach, hidle, htimed, one_within, hrefused⟩

end VoyageLog.Player
