import VoyageLog.Proofs.Playback.Commands
import VoyageLog.Proofs.Playback.Landings
import VoyageLog.Proofs.Playback.Reads
import VoyageLog.Proofs.Recording.Pacing
import VoyageLog.Proofs.Recording.Rows

namespace VoyageLog

open TimeSource

-- The first line is the one of the first instant.
theorem Scan.Spans.find_first {first last : Instant} {dated : List (Nat × Instant)}
    (h : Spans (some (first, last)) (dated.map (·.2))) :
    ∃ entry, dated.find? (first ≤ ·.2) = some entry ∧ entry.2 = first := by
  obtain ⟨others, hothers⟩ := List.head?_eq_some_iff.mp h.first.symm
  obtain ⟨entry, rest, rfl, hentry, -⟩ := List.map_eq_cons_iff.mp hothers
  refine ⟨entry, ?_, hentry⟩
  rw [List.find?_cons_of_pos]
  simp [hentry, Instant.le_refl]

namespace Player

-- The lines that tell the time in one pass over some records, and what they tell.
def datedLines (layout : Option Layout) : Listener → List Record → List (Nat × Instant)
  | _, [] => []
  | listener, record :: rest =>
    let (found, next) := instantOf layout listener record
    (found.map (record.line, ·)).toList ++ datedLines layout next rest

theorem datedLines_table (columns : Columns) (listener : Listener) (records : List Record) :
    (datedLines (some (.table columns)) listener records).map (·.2) = columns.instants records := by
  induction records with
  | nil => rfl
  | cons record rest ih =>
    have hrest : columns.instants (record :: rest) =
        (columns.instant? record).toList ++ columns.instants rest := by
      simp only [Columns.instants, List.filterMap_cons]
      cases columns.instant? record <;> rfl
    rw [hrest, ← ih]
    simp only [datedLines, instantOf, List.map_append]
    change _ = (((columns.row? record.text).bind (·.timestamp)).toList ++ _)
    cases (columns.row? record.text).bind (·.timestamp) <;> rfl

theorem datedLines_sentences (listener : Listener) (records : List Record) :
    datedLines (some .sentences) listener records = listener.paced records := by
  induction records generalizing listener with
  | nil => rfl
  | cons record rest ih =>
    simp only [datedLines, instantOf, Listener.paced, Listener.timings, answered, List.filterMap_cons] at ih ⊢
    rw [ih]
    cases (listener.heed record.text).1 <;> rfl

-- A search stops at the first of these lines that is not too early.
theorem firstAtOrAfter_eq_find (layout : Option Layout) (target : Instant) (listener : Listener)
    (records : List Record) :
    (firstAtOrAfter layout target listener records).map (fun landing => (landing.line, landing.instant)) =
      ((datedLines layout listener records).find? (target ≤ ·.2)).map fun entry => (entry.1, some entry.2) := by
  induction records generalizing listener with
  | nil => rfl
  | cons record rest ih =>
    rcases hread : instantOf layout listener record with ⟨_ | instant, next⟩
    · simp only [firstAtOrAfter, datedLines, hread]
      exact ih next
    · by_cases hle : target ≤ instant
      · simp [firstAtOrAfter, datedLines, hread, hle]
      · simp [firstAtOrAfter, datedLines, hread, hle, ih next]

theorem firstAtOrAfter_isSome_iff (layout : Option Layout) (target : Instant) (listener : Listener)
    (records : List Record) :
    (firstAtOrAfter layout target listener records).isSome ↔
      ∃ entry ∈ datedLines layout listener records, target ≤ entry.2 := by
  have hsome := congrArg Option.isSome (firstAtOrAfter_eq_find layout target listener records)
  rw [Option.isSome_map, Option.isSome_map] at hsome
  simp [hsome, List.find?_isSome]

-- Whoever tells the time in a recording, the scan that follows has seen it all, in its order.
structure Trusted (lockPrimary : Bool) (outcome : Scan.Outcome) (records : List Record) : Prop where
  locked : outcome.clock.primary.isSome → lockPrimary
  undisturbed : ∀ source, outcome.clock.primary = some source → Undisturbed source records

-- What a search goes over are the instants of the timeline, from the first to the last.
theorem spans_of_scan {lockPrimary : Bool} {recording : Recording} {outcome : Scan.Outcome} {timeline : Timeline}
    (hscan : Scan.ofRecording lockPrimary recording = .ok outcome)
    (htimeline : outcome.clock.timeline = some timeline)
    (htrusted : Trusted lockPrimary outcome (recording.recordsAt outcome.clock.dataStart)) :
    timeline.current = timeline.first ∧ Scan.Spans (some (timeline.first, timeline.last))
      ((datedLines outcome.clock.layout outcome.listener.undated
        (recording.recordsAt outcome.clock.dataStart)).map (·.2)) := by
  rcases Scan.timed_of_scan hscan htimeline with ⟨source, hprimary, hlayout⟩ | ⟨columns, -, hlayout⟩
  · obtain ⟨details, hfounds⟩ := Scan.founds_of_primary hscan hprimary
    obtain rfl := Option.some.inj (hfounds.timeline.symm.trans htimeline)
    have hlocked : lockPrimary = true := htrusted.locked (by simp [hprimary])
    have hlistener : outcome.listener.undated = ⟨none, some source⟩ := by
      simp [Listener.undated, hfounds.lock, hlocked]
    have hpaced := (paced_eq_sightingsOf_iff recording source outcome.clock.dataStart).mpr
      (htrusted.undisturbed source hprimary)
    have hknown := hfounds.known
    rw [Scan.get?_sentences] at hknown
    rw [hlayout, hlistener, datedLines_sentences, hpaced]
    exact ⟨rfl, Scan.spans_of_chronological hknown hfounds.chronological⟩
  · rw [hlayout, datedLines_table]
    exact Scan.spans_of_table hscan hlayout htimeline

-- What a seek that is not refused leaves of a player, but for what it waits for.
structure Relocates (player : Player) (log : Log) (landing : Landing) (after : Player) : Prop where
  state : after.state = player.state
  moved : after.log = some (log.moveTo landing.line)
  clock : after.clock = (player.landed landing log).clock
  listener : after.listener = landing.listener

theorem relocates_of_moved {player : Player} {now : Nat} {fraction : Binary64}
    (h : (player.seek now fraction).1 = .moved) :
    ∃ log landing, player.log = some log ∧ player.landing? fraction log = .ok landing ∧
      player.Relocates log landing (player.seek now fraction).2.player := by
  have hcase := obeyed_seek now player fraction
  have hanswer : (Command.run now player (.seek fraction)).1 = .sought .moved := congrArg Answer.sought h
  change ∃ log landing, player.log = some log ∧ player.landing? fraction log = .ok landing ∧
    player.Relocates log landing (Command.run now player (.seek fraction)).2.player
  generalize Command.run now player (.seek fraction) = result at hcase hanswer ⊢
  cases hcase with
  | seekRefused _ answer hrefused => exact (hrefused (Answer.sought.inj hanswer)).elim
  | seekPlaying _ log hlog landing hlanding | seek _ log hlog landing hlanding =>
    exact ⟨log, landing, hlog, hlanding, rfl, rfl, rfl, rfl⟩

-- Where a search stops, a seek that needs one lands.
theorem seek_moved_iff {player : Player} {log : Log} {timeline : Timeline} {fraction : Binary64} (now : Nat)
    (hlog : player.log = some log) (htimeline : player.clock.timeline = some timeline)
    (hseekable : player.isSeekable) (hwithin : fraction.within (Binary64.Finite.zero false) Binary64.Finite.one) :
    (player.seek now fraction).1 = .moved ↔
      ∃ target, seekTarget? timeline fraction = some target ∧
        ∃ entry ∈ datedLines player.clock.layout player.listener.undated
          (log.recording.recordsAt player.clock.dataStart), target ≤ entry.2 := by
  simp only [seek_eq, hlog, hwithin, hseekable, Bool.and_self, if_true, landing?, htimeline]
  cases htarget : seekTarget? timeline fraction with
  | none => simp
  | some target =>
    have hsearch := firstAtOrAfter_isSome_iff player.clock.layout target player.listener.undated
      (log.recording.recordsAt player.clock.dataStart)
    simp only [Option.some.injEq, exists_eq_left', ← hsearch]
    cases firstAtOrAfter player.clock.layout target player.listener.undated
      (log.recording.recordsAt player.clock.dataStart) <;> simp

-- A seek by time leaves playback on the first line that is not too early, at the instant that it tells.
theorem find_of_moved {player : Player} {log : Log} {timeline : Timeline} {now : Nat} {fraction : Binary64}
    (hlog : player.log = some log) (htimeline : player.clock.timeline = some timeline)
    (h : (player.seek now fraction).1 = .moved) :
    ∃ target entry, seekTarget? timeline fraction = some target ∧
      (datedLines player.clock.layout player.listener.undated
        (log.recording.recordsAt player.clock.dataStart)).find? (target ≤ ·.2) = some entry ∧
      (player.seek now fraction).2.player.log = some (log.moveTo entry.1) ∧
      (player.seek now fraction).2.player.clock = player.clock.withCurrent entry.2 := by
  obtain ⟨found, landing, hfound, hlanding, hafter⟩ := relocates_of_moved h
  obtain rfl := Option.some.inj (hlog.symm.trans hfound)
  have hcase := lands hlanding
  cases hcase with
  | byLine hnone => simp [htimeline] at hnone
  | byTime other hother target htarget landing hsearch =>
    obtain rfl := Option.some.inj (htimeline.symm.trans hother)
    have hfind := firstAtOrAfter_eq_find player.clock.layout target player.listener.undated
      (log.recording.recordsAt player.clock.dataStart)
    rw [hsearch, Option.map_some, eq_comm, Option.map_eq_some_iff] at hfind
    obtain ⟨entry, hentry, heq⟩ := hfind
    obtain ⟨hline, hinstant⟩ := Prod.mk.inj heq
    refine ⟨target, entry, htarget, hentry, ?_, ?_⟩
    · rw [hafter.moved, hline]
    · rw [hafter.clock]
      simp only [landed, ← hinstant]

end Player

end VoyageLog
