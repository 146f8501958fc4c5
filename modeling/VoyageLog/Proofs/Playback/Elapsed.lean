import VoyageLog.Proofs.Calendar.LeapSeconds
import VoyageLog.Proofs.Playback.TableClock

namespace VoyageLog

open Instant

namespace Player

-- The current instant stands between the ends of the recording, and what it and the last one are from the first is in
-- their order exactly if the later one does not overtake the earlier.
theorem elapsed_within_span_unless_overtaken {player : Player} {log : Log} {outcome : Scan.Outcome}
    {columns : Columns} {timeline : Timeline} (hlog : player.log = some log)
    (hscan : Scan.ofRecording player.lockPrimary log.recording = .ok outcome)
    (hlayout : outcome.clock.layout = some (.table columns))
    (htimeline : outcome.clock.timeline = some timeline) (now : Nat) (orders : List Order)
    (horders : ∀ order ∈ orders, order.command.Plays) :
    ∃ shown : Timeline,
      ((player.obey ⟨now, .scan⟩).player.obeyAll orders).player.clock.timeline = some shown ∧
      shown.first = timeline.first ∧ shown.last = timeline.last ∧
      shown.first ≤ shown.current ∧ shown.current ≤ shown.last ∧
      (0 ≤ shown.elapsed ↔ ¬FallsBehind shown.first shown.current) ∧
      (0 ≤ shown.span ↔ ¬FallsBehind shown.first shown.last) ∧
      (shown.elapsed ≤ shown.span ↔ ¬Overtakes shown.first shown.current shown.last) ∧
      (¬shown.first.isLeapSecond → ¬shown.current.isLeapSecond → ¬shown.last.isLeapSecond →
        0 ≤ shown.elapsed ∧ shown.elapsed ≤ shown.span) ∧
      -1000000000 < shown.elapsed ∧ shown.elapsed < shown.span + 2000000000 := by
  obtain ⟨-, hspans⟩ := Scan.spans_of_table hscan hlayout htimeline
  obtain ⟨current, hreached, -⟩ :=
    (Tracks.scan now hlog hscan hlayout htimeline).obeyAll orders htimeline hspans horders
  obtain ⟨hclock, -, hfirst, hlast, -⟩ :=
    hreached.placed htimeline hspans (finished_obeyAll orders (finished_scan now player))
  have helapsed : 0 ≤ current.since timeline.first ↔ ¬FallsBehind timeline.first current := since_nonneg_iff hfirst
  have hwithin : current.since timeline.first ≤ timeline.last.since timeline.first ↔
      ¬Overtakes timeline.first current timeline.last := by
    rw [← since_lt_since_iff, Int.not_lt]
  refine ⟨{ timeline with current }, hclock, rfl, rfl, hfirst, hlast, helapsed,
    since_nonneg_iff (Instant.le_trans hfirst hlast), hwithin, ?_, ?_, since_lt_of_le hlast⟩
  · intro hordinary hcurrent hend
    have hnone : ¬FallsBehind timeline.first current := fun hbehind => hordinary hbehind.leap
    exact ⟨helapsed.mpr hnone, hwithin.mpr (not_overtakes_of_ordinary hordinary hcurrent hend hlast)⟩
  · by_contra hfar
    have hneg : current.since timeline.first < 0 := by
      change ¬-1000000000 < current.since timeline.first at hfar
      omega
    exact hfar (since_of_le hfirst hneg).1

def leapAtMidnight : Recording :=
  Recording.ofLines "a leap second at midnight"
    ["timestamp,message".toList, "2016-12-31T23:59:58Z,a".toList, "2016-12-31T23:59:60.500Z,b".toList,
      "2017-01-01T00:00:00.400Z,c".toList]

def midnightPlayer : Player := ((Player.new Config.default).load leapAtMidnight).player

-- A player that waits for the leap second has more time behind it than the recording lasts.
theorem elapsed_within_span_unless_overtaken_at_midnight :
    ∃ shown : Timeline,
      ((midnightPlayer.obey ⟨0, .scan⟩).player.obeyAll [⟨0, .start⟩]).player.clock.timeline = some shown ∧
      0 ≤ shown.elapsed ∧ shown.elapsed = 2500000000 ∧ shown.span = 2400000000 ∧
      Overtakes shown.first shown.current shown.last := by
  have hfound : (Scan.ofRecording true leapAtMidnight).toOption.map (fun outcome =>
      (outcome.clock.layout, outcome.clock.timeline.isSome)) = some (some (.table ⟨0, 1⟩), true) := by
    decide +kernel
  have hshown : ((midnightPlayer.obey ⟨0, .scan⟩).player.obeyAll [⟨0, .start⟩]).player.clock.timeline.map
      (fun shown => (shown.elapsed, shown.span, shown.first.isLeapSecond)) = some (2500000000, 2400000000, false) := by
    decide +kernel
  cases hscan : Scan.ofRecording true leapAtMidnight with
  | error failure => simp [hscan, Except.toOption] at hfound
  | ok outcome =>
    simp only [hscan, Except.toOption, Option.map_some, Option.some.injEq, Prod.mk.injEq,
      Option.isSome_iff_exists] at hfound
    obtain ⟨hlayout, timeline, htimeline⟩ := hfound
    have hlog : midnightPlayer.log = some (Log.start leapAtMidnight) := rfl
    have horders : ∀ order ∈ [(⟨0, .start⟩ : Order)], order.command.Plays := by simp [Command.Plays]
    obtain ⟨shown, hclock, -, -, -, -, helapsed, -, hwithin, -⟩ :=
      elapsed_within_span_unless_overtaken hlog hscan hlayout htimeline 0 [⟨0, .start⟩] horders
    rw [hclock] at hshown
    simp only [Option.map_some, Option.some.injEq, Prod.mk.injEq] at hshown
    obtain ⟨hpassed, hspan, hordinary⟩ := hshown
    refine ⟨shown, hclock, ?_, hpassed, hspan, ?_⟩
    · apply helapsed.mpr
      intro hbehind
      simpa [hordinary] using hbehind.leap
    · by_contra hnone
      have hle := hwithin.mpr hnone
      omega

def halfPastMidnight : Recording :=
  Recording.ofLines "a leap second and the second after it"
    ["timestamp,message".toList, "2016-12-31T23:59:60.500Z,a".toList, "2017-01-01T00:00:00Z,b".toList]

-- Its rows are in order, and the scan takes them, but it lasts half a second less than nothing.
theorem span_below_zero_after_leap_second :
    ((Player.new Config.default).obeyAll [⟨0, .load halfPastMidnight⟩, ⟨0, .scan⟩]).player.clock.timeline.map
        (fun timeline => (decide (timeline.first < timeline.last), timeline.elapsed, timeline.span)) =
      some (true, 0, -500000000) := by
  decide +kernel

end Player

end VoyageLog
