import VoyageLog.Proofs.Playback.Faults
import VoyageLog.Proofs.Playback.Resuming
import VoyageLog.Proofs.Recording.Milliseconds

namespace VoyageLog

open Binary64

namespace Player

section Lasting

variable {player other : Player}

-- But for tables, a recording lasts whole milliseconds.
def Lasting (player : Player) : Prop :=
  ∀ timeline, player.clock.timeline = some timeline → player.clock.isTable ∨ timeline.span % 1000000 = 0

theorem Lasting.of_course (h : player.Lasting) (hcourse : player.SameCourse other) : other.Lasting := by
  intro timeline htimeline
  have hclock := hcourse.clock
  have htable : other.clock.isTable = player.clock.isTable := by
    have hlayout : other.clock.layout = player.clock.layout := congrArg (·.layout) hclock
    simp only [Clock.isTable, hlayout]
  have hends : other.clock.timeline.map (fun timeline : Timeline => (timeline.first, timeline.last)) =
      player.clock.timeline.map fun timeline => (timeline.first, timeline.last) := by
    have hback := congrArg (fun clock => clock.timeline.map fun timeline => (timeline.first, timeline.last)) hclock
    simpa [Clock.backToFirst, Function.comp_def] using hback
  rw [htimeline, Option.map_some] at hends
  obtain ⟨known, hknown, hsame⟩ := Option.map_eq_some_iff.mp hends.symm
  obtain ⟨hfirst, hlast⟩ := Prod.mk.inj hsame
  have hspan : timeline.span = known.span := by rw [Timeline.span, Timeline.span, hfirst, hlast]
  rw [htable, hspan]
  exact h known hknown

theorem Lasting.withLayout (h : player.Lasting) (hinformed : player.Informed) : player.withLayout.Lasting := by
  have hcase := player.laidOut
  generalize player.withLayout = known at hcase
  cases hcase with
  | known | blank => exact h
  | found log hlog hlayout =>
    -- Without a layout there is no timeline.
    intro timeline htimeline
    have hsame : player.clock.timeline = some timeline := htimeline
    have hknown := hinformed (by simp [isTimed, Clock.isTimed, hsame])
    simp [hlayout] at hknown

theorem Lasting.obey (order : Order) (h : player.Lasting) (hinformed : player.Informed) :
    (player.obey order).player.Lasting := by
  rcases plays_or_clock player order with hplays | hunknown | ⟨log, outcome, -, hscan, hclock⟩
  · exact (sameCourse_obey player hplays).elim h.of_course (h.withLayout hinformed).of_course
  · intro timeline htimeline
    rw [hunknown] at htimeline
    cases htimeline
  · intro timeline htimeline
    rw [hclock] at htimeline ⊢
    exact Scan.span_of_scan hscan htimeline

theorem Reachable.lasting {config : Config} (h : Reachable config player) : player.Lasting := by
  induction h with
  | new => exact fun _ htimeline => by cases htimeline
  | obey order h ih => exact ih.obey order h.informed

end Lasting

section Progress

variable {player : Player}

theorem wholeMilliseconds_eq_zero_iff (nanoseconds : Int) :
    wholeMilliseconds nanoseconds = 0 ↔ -1000000 < nanoseconds ∧ nanoseconds < 1000000 := by
  have hwhole := wholeMilliseconds_spec nanoseconds
  omega

-- The share of a part in a whole is a number from zero to one, but if both are nothing.
theorem share_spec {part whole : Int} (hpart : |part| < 2 ^ 100) (hwhole : |whole| < 2 ^ 100) :
    (part = 0 ∧ whole = 0 → share part whole = .nan) ∧
      (¬(part = 0 ∧ whole = 0) → (share part whole).within (Finite.zero false) Finite.one = true) := by
  obtain ⟨dividend, hdividend, hnone⟩ := ofInt_moderate hpart
  obtain ⟨divisor, hdivisor, hnothing⟩ := ofInt_moderate hwhole
  have hquotient := div_eq_nan_iff dividend divisor
  rw [hnone, hnothing] at hquotient
  rw [share, hdividend, hdivisor]
  constructor
  · intro hboth
    rw [hquotient.mpr hboth]
    rfl
  · intro hsome
    have hbounds : (Finite.zero false).value ≤ Finite.one.value := by
      rw [zero_value, one_value]
      norm_num
    exact clamp_within hbounds (fun hnan => hsome (hquotient.mp hnan))

end Progress

-- A recording that lasts a part of a millisecond, and an instant in it that is no further from its first one.
structure Fleeting (timeline : Timeline) : Prop where
  lasts : 0 < timeline.span
  ends : timeline.span < 1000000
  near : -1000000 < timeline.elapsed ∧ timeline.elapsed < 1000000

section Reaching

variable {config : Config} {player : Player}

theorem progress_of_timeline {timeline : Timeline} (htimeline : player.clock.timeline = some timeline) :
    (Fleeting timeline → player.progress = .nan) ∧
      (¬Fleeting timeline → player.progress.within (Finite.zero false) Finite.one = true) := by
  have hmoderate : ∀ nanoseconds : Int, -20000000000000000000000 ≤ nanoseconds →
      nanoseconds ≤ 20000000000000000000000 → |wholeMilliseconds nanoseconds| < 2 ^ 100 := by
    intro nanoseconds hlow hhigh
    have hwhole := wholeMilliseconds_bounds nanoseconds
    rw [abs_lt]
    omega
  have hspan := timeline.span_bounds
  have helapsed : -20000000000000000000000 ≤ timeline.elapsed ∧ timeline.elapsed ≤ 20000000000000000000000 :=
    timeline.current.since_bounds timeline.first
  obtain ⟨hnothing, hsomething⟩ := share_spec (hmoderate _ helapsed.1 helapsed.2) (hmoderate _ hspan.1 hspan.2)
  simp only [wholeMilliseconds_eq_zero_iff] at hnothing hsomething
  by_cases hpositive : timeline.span ≤ 0
  · have hprogress : player.progress = zero := by simp [progress, htimeline, hpositive]
    rw [hprogress]
    refine ⟨fun hfleeting => ?_, fun _ => by decide +kernel⟩
    have := hfleeting.lasts
    omega
  · have hprogress : player.progress =
        share (wholeMilliseconds timeline.elapsed) (wholeMilliseconds timeline.span) := by
      simp [progress, htimeline, hpositive]
    rw [hprogress]
    refine ⟨fun hfleeting => hnothing ⟨hfleeting.near, by omega, hfleeting.ends⟩, fun hlong => hsomething ?_⟩
    rintro ⟨hnear, -, hends⟩
    exact hlong ⟨by omega, hends, hnear⟩

theorem progress_of_lines (huntimed : player.clock.timeline = none)
    (hlines : ∀ log, player.log = some log → log.lineCount < 2 ^ 64) :
    player.progress.within (Finite.zero false) Finite.one = true := by
  cases hlog : player.log with
  | none =>
    have hprogress : player.progress = zero := by simp [progress, huntimed, hlog]
    rw [hprogress]
    decide +kernel
  | some log =>
    by_cases hempty : log.lineCount = 0
    · have hprogress : player.progress = zero := by simp [progress, huntimed, hlog, hempty]
      rw [hprogress]
      decide +kernel
    · have hprogress : player.progress = share log.next log.lineCount := by
        simp [progress, huntimed, hlog, hempty]
      have hcount := hlines log hlog
      have hnext : log.next ≤ log.lineCount := log.next_le
      rw [hprogress]
      refine (share_spec ?_ ?_).2 (by omega)
      · rw [abs_lt]
        omega
      · rw [abs_lt]
        omega

-- The progress of a player is a number from zero to one, but for an instant within a part of a millisecond that is
-- all that the recording lasts. Then there is no millisecond to divide by, and no value; and the recording is a table.
theorem progress_has_value_unless_fleeting (h : Reachable config player)
    (hlines : ∀ log, player.log = some log → log.lineCount < 2 ^ 64) :
    (player.progress.within (Finite.zero false) Finite.one = true ↔
      ∀ timeline, player.clock.timeline = some timeline → ¬Fleeting timeline) ∧
    ∀ timeline, player.clock.timeline = some timeline →
      (0 < timeline.span → (wholeMilliseconds timeline.span = 0 ↔ timeline.span < 1000000)) ∧
      (0 < timeline.span → timeline.span < 1000000 → player.clock.isTable = true) ∧
      (Fleeting timeline → player.progress = .nan) := by
  refine ⟨?_, ?_⟩
  · cases htimeline : player.clock.timeline with
    | none => simpa using progress_of_lines htimeline hlines
    | some timeline =>
      obtain ⟨hnan, hvalue⟩ := progress_of_timeline htimeline
      simp only [Option.some.injEq, forall_eq']
      refine ⟨?_, hvalue⟩
      intro hwithin hfleeting
      rw [hnan hfleeting] at hwithin
      cases hwithin
  · intro timeline htimeline
    refine ⟨?_, ?_, (progress_of_timeline htimeline).1⟩
    · intro hpositive
      rw [wholeMilliseconds_eq_zero_iff]
      omega
    · intro hpositive hshort
      refine (h.lasting timeline htimeline).resolve_right ?_
      omega

end Reaching

-- The first of three messages is reached, of which the last comes nine seconds later.
theorem progress_has_value_at_first_of_three_messages :
    Reachable Config.default pausedPlayer ∧ pausedPlayer.log.map (·.lineCount) = some 4 ∧
      pausedPlayer.clock.timeline.map (·.span) = some 9000000000 ∧
      pausedPlayer.progress.within (Finite.zero false) Finite.one = true := by
  have hreach : Reachable Config.default pausedPlayer := Reachable.new.obeyAll _
  have hcount : pausedPlayer.log.map (·.lineCount) = some 4 := by decide +kernel
  have hspan : pausedPlayer.clock.timeline.map (·.span) = some 9000000000 := by decide +kernel
  have hlines : ∀ log, pausedPlayer.log = some log → log.lineCount < 2 ^ 64 := by
    intro log hlog
    have hfour : log.lineCount = 4 := by simpa [hlog] using hcount
    omega
  refine ⟨hreach, hcount, hspan, (progress_has_value_unless_fleeting hreach hlines).1.mpr ?_⟩
  intro timeline htimeline hfleeting
  have hnine : timeline.span = 9000000000 := by simpa [htimeline] using hspan
  have hends := hfleeting.ends
  omega

def halfMillisecond : Recording :=
  Recording.ofLines "half a millisecond"
    ["timestamp,message".toList, "2024-01-01T12:00:00Z,a".toList, "2024-01-01T12:00:00.000500Z,b".toList]

-- At the first of its two rows a player has made no progress that could be told.
theorem progress_without_value_in_half_a_millisecond :
    let player := ((Player.new Config.default).obeyAll [⟨0, .load halfMillisecond⟩, ⟨0, .scan⟩]).player
    Reachable Config.default player ∧ player.clock.timeline.map (·.span) = some 500000 ∧
      player.progress = .nan := by
  refine ⟨Reachable.new.obeyAll _, ?_, ?_⟩
  · decide +kernel
  · decide +kernel

end Player

end VoyageLog
