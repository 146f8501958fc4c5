import VoyageLog.Proofs.Playback.Outset
import VoyageLog.Proofs.Playback.Searches

namespace VoyageLog

open TimeSource

-- What is to be played from a line on: of the records at or after it, those below the header that are readable.
def Recording.playedFrom (recording : Recording) (line : Nat) : List Text :=
  match recording.records with
  | [] => []
  | first :: _ =>
    (recording.recordsAt (max line (Layout.ofFirst first).2)).filterMap
      (·.payload? (some (Layout.ofFirst first).1))

theorem Recording.playedFrom_of_shown {recording : Recording} {first : Record} {rest : List Record}
    {layout : Layout} {dataStart line : Nat} (hrecords : recording.records = first :: rest)
    (hfirst : Layout.ofFirst first = (layout, dataStart)) (hline : dataStart ≤ line) :
    recording.playedFrom line = (recording.recordsAt line).filterMap (·.payload? (some layout)) := by
  simp only [playedFrom, hrecords, hfirst, Nat.max_eq_left hline]

namespace Player

-- A player that plays by time knows the layout of its recording.
def Informed (player : Player) : Prop := player.isTimed → player.clock.layout.isSome

section Informing

variable {player other : Player}

theorem Informed.of_course (h : player.Informed) (hcourse : player.SameCourse other) : other.Informed := by
  have hlayout : other.clock.layout = player.clock.layout := congrArg (·.layout) hcourse.clock
  have htimed : other.clock.backToFirst.isTimed = player.clock.backToFirst.isTimed :=
    congrArg Clock.isTimed hcourse.clock
  rw [Clock.isTimed_backToFirst, Clock.isTimed_backToFirst] at htimed
  rw [Informed, isTimed, htimed, hlayout]
  exact h

theorem Informed.withLayout (h : player.Informed) : player.withLayout.Informed := by
  have hcase := player.laidOut
  generalize player.withLayout = known at hcase
  cases hcase with
  | known | blank => exact h
  | found => exact fun _ => rfl

theorem Informed.obey (order : Order) (h : player.Informed) : (player.obey order).player.Informed := by
  rcases plays_or_clock player order with hplays | hunknown | ⟨log, outcome, -, hscan, hclock⟩
  · exact (sameCourse_obey player hplays).elim h.of_course h.withLayout.of_course
  · intro htimed
    rw [isTimed, hunknown] at htimed
    cases htimed
  · intro htimed
    rw [isTimed, hclock] at htimed
    obtain ⟨timeline, htimeline⟩ := Option.isSome_iff_exists.mp htimed
    rw [hclock]
    rcases Scan.timed_of_scan hscan htimeline with ⟨_, -, hlayout⟩ | ⟨_, -, hlayout⟩
    · exact Option.isSome_of_eq_some hlayout
    · exact Option.isSome_of_eq_some hlayout

theorem Reachable.informed {config : Config} (h : Reachable config player) : player.Informed := by
  induction h with
  | new => exact fun htimed => by cases htimed
  | obey order _ ih => exact ih.obey order

end Informing

section Resuming

variable {player : Player} {log : Log}

theorem Steady.withLayout (h : Steady player) : Steady player.withLayout := by
  have hcase := player.laidOut
  generalize player.withLayout = known at hcase
  cases hcase with
  | known | blank => exact h
  | found => exact ⟨⟨h.held, by simp, by simp⟩, h.armed⟩

theorem canStart_withLayout (h : player.CanStart) : player.withLayout.CanStart := by
  have hcase := player.laidOut
  generalize player.withLayout = known at hcase
  cases hcase with
  | known | blank => exact h
  | found => exact ⟨h.1, rfl⟩

-- A player that looks for its layout starts as the one that has found it.
theorem start_withLayout (now : Nat) (hstart : player.CanStart) :
    player.obey ⟨now, .start⟩ = player.withLayout.obey ⟨now, .start⟩ ∧
      player.orderReads ⟨now, .start⟩ = player.withLayout.orderReads ⟨now, .start⟩ := by
  have hknown := canStart_withLayout hstart
  have hready : player.withLayout.readied now = player.readied now := by
    rw [readied, readied, withLayout_withLayout]
  constructor
  · have hrun : player.start now = (announce (player.readied now)).andThen (Player.tick now) := if_pos hstart
    have hrunKnown : player.withLayout.start now =
        (announce (player.withLayout.readied now)).andThen (Player.tick now) := if_pos hknown
    rw [hready, ← hrun] at hrunKnown
    exact hrunKnown.symm
  · simp only [orderReads, ticking?, hstart, hknown, if_true, hready]

theorem PlaysOut.withLayout {now : Nat} {later : List Order} (hstart : player.CanStart)
    (h : player.PlaysOut (⟨now, .start⟩ :: later)) : player.withLayout.PlaysOut (⟨now, .start⟩ :: later) := by
  obtain ⟨hobey, hreads⟩ := start_withLayout now hstart
  obtain ⟨⟨-, horders⟩, ⟨hspares, hallSpare⟩, hended⟩ := h
  refine ⟨⟨trivial, hobey ▸ horders⟩, ⟨?_, hobey ▸ hallSpare⟩, ?_⟩
  · rw [Spares, ← hreads]
    exact hspares
  · rw [obeyAll, ← hobey]
    exact hended

-- A player that knows the layout has the header behind it.
theorem Reachable.playedFrom_of_known {config : Config} (h : Reachable config player) (hlog : player.log = some log)
    (hlayout : player.clock.layout.isSome) :
    log.recording.playedFrom log.next = log.unread.filterMap (·.payload? player.clock.layout) := by
  obtain ⟨layout, hknown⟩ := Option.isSome_iff_exists.mp hlayout
  obtain ⟨first, rest, hrecords, hfirst, hbehind⟩ := h.keepsToData log layout hlog hknown
  rw [hknown, Recording.playedFrom_of_shown hrecords hfirst hbehind]
  rfl

end Resuming

-- A paused player of three messages, four and five seconds apart.
def pausedPlayer : Player :=
  ((Player.new Config.default).obeyAll
    [⟨0, .load threeMessages⟩, ⟨0, .scan⟩, ⟨0, .start⟩, ⟨1000000000, .pause⟩]).player

def quarter : Binary64 := .finite ⟨false, 4503599627370496, -54, by decide⟩

end Player

end VoyageLog
