import VoyageLog.Playback.Session
import VoyageLog.Proofs.Playback.WakeUps
import VoyageLog.Proofs.Playback.WithinRange

namespace VoyageLog.Player

open Binary64

-- Why a seek is refused.
inductive RefusesSeek (player : Player) (fraction : Binary64) : Prop
  | noShare (hfraction : ¬fraction.within (Finite.zero false) Finite.one)
  | unloaded (hlog : player.log = none)
  | finished (hstate : player.state = .atEnd ∨ player.state = .error)
  | tooEarly (log : Log) (hlog : player.log = some log) (timeline : Timeline)
      (htimeline : player.clock.timeline = some timeline) (target : Instant)
      (htarget : seekTarget? timeline fraction = some target)
      (hearlier : ∀ entry ∈ datedLines player.clock.layout player.listener.undated
        (log.recording.recordsAt player.clock.dataStart), ¬target ≤ entry.2)
  | empty (log : Log) (hlog : player.log = some log) (htimeline : player.clock.timeline = none)
      (hlines : log.lineCount = 0)

variable {player : Player} {fraction : Binary64}

theorem not_isSeekable_iff : ¬player.isSeekable ↔ player.state = .atEnd ∨ player.state = .error := by
  cases hstate : player.state <;> simp [isSeekable, hstate]

theorem landing?_refused_iff {log : Log} :
    player.landing? fraction log = .error .refused ↔
      (∃ timeline target, player.clock.timeline = some timeline ∧ seekTarget? timeline fraction = some target ∧
        ∀ entry ∈ datedLines player.clock.layout player.listener.undated
          (log.recording.recordsAt player.clock.dataStart), ¬target ≤ entry.2) ∨
      (player.clock.timeline = none ∧ log.lineCount = 0) := by
  cases htimeline : player.clock.timeline with
  | none => by_cases hlines : log.lineCount = 0 <;> simp [landing?, htimeline, hlines]
  | some timeline =>
    cases htarget : seekTarget? timeline fraction with
    | none => simp [landing?, htimeline, htarget]
    | some target =>
      have hsearch := firstAtOrAfter_isSome_iff player.clock.layout target player.listener.undated
        (log.recording.recordsAt player.clock.dataStart)
      simp only [landing?, htimeline, htarget]
      cases hfound : firstAtOrAfter player.clock.layout target player.listener.undated
          (log.recording.recordsAt player.clock.dataStart) with
      | none => simpa [hfound, htarget] using hsearch
      | some landing =>
        obtain ⟨entry, hentry, hle⟩ := hsearch.mp (by simp [hfound])
        simp only [reduceCtorEq, Option.some.injEq, false_and, or_false, false_iff]
        rintro ⟨_, found, rfl, hsame, hearlier⟩
        obtain rfl : target = found := by simpa [htarget] using hsame
        exact hearlier entry hentry hle

theorem refusesSeek_iff (now : Nat) : (player.seek now fraction).1 = .refused ↔ player.RefusesSeek fraction := by
  constructor
  · intro hrefused
    by_cases hfraction : fraction.within (Finite.zero false) Finite.one
    · by_cases hseekable : player.isSeekable
      · cases hlog : player.log with
        | none => exact .unloaded hlog
        | some log =>
          have hlanding := (seek_refused_iff hlog).mp hrefused (by simp [hfraction, hseekable])
          rcases landing?_refused_iff.mp hlanding with ⟨timeline, target, htimeline, htarget, hearlier⟩ | hempty
          · exact .tooEarly log hlog timeline htimeline target htarget hearlier
          · exact .empty log hlog hempty.1 hempty.2
      · exact .finished (not_isSeekable_iff.mp hseekable)
    · exact .noShare hfraction
  · intro hwhy
    -- Where nothing is loaded there is no search to speak of.
    cases hlog : player.log with
    | none => simp [seek_eq, hlog]
    | some log =>
      rw [seek_refused_iff hlog]
      intro hready
      obtain ⟨hfraction, hseekable⟩ := Bool.and_eq_true_iff.mp hready
      cases hwhy with
      | noShare hnot => exact absurd hfraction hnot
      | unloaded hnone => simp [hlog] at hnone
      | finished hstate => exact absurd hseekable (not_isSeekable_iff.mpr hstate)
      | tooEarly other hother timeline htimeline target htarget hearlier =>
        obtain rfl : log = other := by simpa [hlog] using hother
        exact landing?_refused_iff.mpr (.inl ⟨timeline, target, htimeline, htarget, hearlier⟩)
      | empty other hother htimeline hlines =>
        obtain rfl : log = other := by simpa [hlog] using hother
        exact landing?_refused_iff.mpr (.inr ⟨htimeline, hlines⟩)

-- A refused seek could as well never have been asked for: not by the player, which goes on with all that follows as
-- if nothing had been, not by a manual timer, and not by the sleeps of an event loop. So who plays still waits for
-- the same token.
theorem refused_seek_leaves_no_trace {config : Config} {now : Nat} (h : Reachable config player)
    (hrefused : (player.seek now fraction).1 = .refused) :
    player.RefusesSeek fraction ∧
      (player.seek now fraction).2 = quietly player ∧
      (player.state = .playing → ∃ token, player.pending = some token ∧
        (player.seek now fraction).2.player.pending = some token) ∧
      (∀ later, player.obeyAll (⟨now, .seek fraction⟩ :: later) = player.obeyAll later) ∧
      (∀ timer, Session.perform ⟨player, timer, now⟩ (.seek fraction) =
        (.sought .refused, ⟨player, timer, now⟩, [])) ∧
      ∀ timer later, EventLoop.run ⟨player, timer⟩ (.operate now (.seek fraction) (by simp) :: later) =
        EventLoop.run ⟨player, timer⟩ later := by
  have hquiet : (player.seek now fraction).2 = quietly player := seek_of_not_moved (by simp [hrefused])
  refine ⟨(refusesSeek_iff now).mp hrefused, hquiet, ?_, ?_, ?_, ?_⟩
  · intro hplaying
    obtain ⟨token, htoken⟩ := Option.isSome_iff_exists.mp (h.steady.armed.mp hplaying)
    exact ⟨token, htoken, by rw [hquiet]; exact htoken⟩
  · intro later
    rw [obeyAll, obey_of_refused hrefused]
    rfl
  · intro timer
    simp [Session.perform, Command.run, hrefused, hquiet]
  · intro timer later
    have hact : EventLoop.act ⟨player, timer⟩ (.operate now (.seek fraction) (by simp)) = (⟨player, timer⟩, []) := by
      simp [EventLoop.act, EventLoop.absorb, Command.run, hquiet]
    rw [EventLoop.run, hact]
    rfl

-- The search runs through the whole table, while the player waits for its last row.
def leapingPlayer : Player := (leapPlayer.obey ⟨0, .start⟩).player

theorem refused_seek_leaves_no_trace_before_leap_second :
    Reachable Config.default leapingPlayer ∧ (leapingPlayer.seek 1 one).1 = .refused ∧
      leapingPlayer.state = .playing ∧
      (∃ token, leapingPlayer.pending = some token ∧
        (leapingPlayer.seek 1 one).2.player.pending = some token) ∧
      leapingPlayer.obeyAll [⟨1, .seek one⟩, ⟨2500000000, .wake 1⟩] =
        leapingPlayer.obeyAll [⟨2500000000, .wake 1⟩] := by
  have hreach : Reachable Config.default leapingPlayer := (Reachable.new.obeyAll _).obey _
  have hrefused : (leapingPlayer.seek 1 one).1 = .refused := by decide +kernel
  have hplaying : leapingPlayer.state = .playing := by decide +kernel
  obtain ⟨-, -, hwaits, hlater, -⟩ := refused_seek_leaves_no_trace hreach hrefused
  exact ⟨hreach, hrefused, hplaying, hwaits hplaying, hlater _⟩

end VoyageLog.Player
