import Mathlib.Algebra.Order.Ring.Unbundled.Rat
import VoyageLog.Proofs.Playback.Frames

namespace VoyageLog

-- A speed is in the range already.
theorem Speed.ofNumber?_toNumber (speed : Speed) : Speed.ofNumber? speed.toNumber = some speed := by
  have hslow : ¬speed.rate.value < Speed.slowest.value := Rat.not_lt.mpr speed.in_range.1
  have hfast : ¬Speed.fastest.value < speed.rate.value := Rat.not_lt.mpr speed.in_range.2
  have hslowest : 0 < Speed.slowest.value := by decide +kernel
  have hpos : 0 < speed.rate.value := lt_of_lt_of_le hslowest speed.in_range.1
  simp [Speed.toNumber, Speed.ofNumber?, Speed.clamp, hpos, hslow, hfast]

theorem Log.moveTo_congr {log other : Log} (h : other.recording = log.recording) (line : Nat) :
    other.moveTo line = log.moveTo line := by
  cases log
  cases other
  subst h
  rfl

namespace Player

-- A player that was just set up as the other one is, as fast, with its recording loaded.
def anew (config : Config) (player : Player) (log : Log) : Player :=
  (load log.recording (Player.new { config with speed := player.speed.toNumber })).player

-- Whatever the two are told, each at its own time, they answer alike and do the same, if the second one counts
-- its tokens from there on.
structure GoesOnLike (base : Nat) (first second : Player) : Prop where
  alike : ∀ (orders : List Order) (early late : Nat),
    first.transcript (orders.map (·.reframed ⟨base, early⟩)) =
      (second.transcript (orders.map (·.reframed ⟨0, late⟩))).map (reframedEntry ⟨base, 0⟩)
  counted : ∀ orders, ∀ entry ∈ second.transcript orders, ∀ effect ∈ entry.2, ∀ token,
    effect.token? = some token → base < token

-- What a scan finds and leaves behind depends on the recording alone, and on how the player is set up.
theorem scan_congr {player other : Player} {log otherLog : Log} (hlog : player.log = some log)
    (hother : other.log = some otherLog) (hrecording : otherLog.recording = log.recording)
    (hspeed : other.speed = player.speed) (hsetup : player.SameSetup other) :
    (scan player).1 = (scan other).1 ∧
      (scan player).2.player = { (scan other).2.player with issued := player.issued } := by
  have hmove := Log.moveTo_congr hrecording
  have hsame : Scan.ofRecording other.lockPrimary otherLog.recording =
      Scan.ofRecording player.lockPrimary log.recording := by
    rw [hsetup.lockPrimary, hrecording]
  cases hscan : Scan.ofRecording player.lockPrimary log.recording with
  | error failure =>
    rw [scan_of_failure hlog hscan, scan_of_failure hother (hsame.trans hscan)]
    simp [hspeed, hsetup.lockPrimary, hsetup.capacity, hmove]
  | ok outcome =>
    rw [scan_of_outcome hlog hscan, scan_of_outcome hother (hsame.trans hscan)]
    simp [hspeed, hsetup.lockPrimary, hsetup.capacity, hmove]

-- A player as a scan leaves it.
structure Scanned (log : Log) (player : Player) : Prop where
  loaded : ∃ line, player.log = some (log.moveTo line)
  held : player.held = []
  anchor : player.anchor = none
  pending : player.pending = none

theorem scanned {player : Player} {log : Log} (hlog : player.log = some log) :
    Scanned log (scan player).2.player := by
  cases hscan : Scan.ofRecording player.lockPrimary log.recording with
  | error failure =>
    rw [scan_of_failure hlog hscan]
    exact ⟨⟨_, rfl⟩, rfl, rfl, rfl⟩
  | ok outcome =>
    rw [scan_of_outcome hlog hscan]
    exact ⟨⟨_, rfl⟩, rfl, rfl, rfl⟩

theorem speed_scan {player : Player} {log : Log} (hlog : player.log = some log) :
    (scan player).2.player.speed = player.speed := by
  cases hscan : Scan.ofRecording player.lockPrimary log.recording with
  | error failure => rw [scan_of_failure hlog hscan, reporting_player]
  | ok outcome => rw [scan_of_outcome hlog hscan, reporting_player]

theorem effects_scan {player : Player} {log : Log} (hlog : player.log = some log) :
    (scan player).2.effects = player.calledOff ++ [.update (scan player).2.player.status] := by
  cases hscan : Scan.ofRecording player.lockPrimary log.recording with
  | error failure =>
    rw [scan_of_failure hlog hscan]
    rfl
  | ok outcome =>
    rw [scan_of_outcome hlog hscan]
    rfl

-- Without an anchor a player is nowhere on the wall.
theorem reframed_of_scanned {log : Log} {player : Player} (frame : Frame) (h : Scanned log player) :
    player.reframed frame = { player with issued := player.issued - frame.tokens } := by
  simp only [reframed, h.anchor, h.pending]
  cases player
  rfl

theorem fits_of_scanned {log : Log} {player : Player} (frame : Frame) (h : Scanned log player)
    (hissued : frame.tokens ≤ player.issued) : Fits frame player :=
  ⟨hissued, by simp [h.pending]⟩

theorem reframedEntry_congr {frame other : Frame} (h : frame.tokens = other.tokens) :
    reframedEntry frame = reframedEntry other := by
  have heffect : Effect.reframed frame = Effect.reframed other := by
    funext effect
    cases effect <;> simp [Effect.reframed, h]
  funext entry
  simp only [reframedEntry, heffect]

theorem reframedEntry_of_zero {frame : Frame} (h : frame.tokens = 0) : reframedEntry frame = id := by
  have heffect : Effect.reframed frame = id := by
    funext effect
    cases effect <;> simp [Effect.reframed, h]
  funext entry
  simp [reframedEntry, heffect]

-- Two scanned players that differ in the count of their tokens only.
theorem goesOnLike_of_scanned {log : Log} {first second : Player} (hsecond : Scanned log second)
    (hfirst : first = { second with issued := 0 }) : GoesOnLike second.issued first second := by
  refine ⟨fun orders early late => ?_, fun orders => ?_⟩
  · have hearly : second.reframed ⟨second.issued, early⟩ = first := by
      rw [reframed_of_scanned _ hsecond, hfirst, Nat.sub_self]
    have hlate : second.reframed ⟨0, late⟩ = second := reframed_of_scanned _ hsecond
    have hcount : reframedEntry ⟨second.issued, early⟩ = reframedEntry ⟨second.issued, 0⟩ :=
      reframedEntry_congr rfl
    calc first.transcript (orders.map (·.reframed ⟨second.issued, early⟩))
        = (second.transcript orders).map (reframedEntry ⟨second.issued, early⟩) := by
          rw [← transcript_reframed orders (fits_of_scanned ⟨second.issued, early⟩ hsecond (Nat.le_refl _)), hearly]
      _ = (second.transcript (orders.map (·.reframed ⟨0, late⟩))).map (reframedEntry ⟨second.issued, 0⟩) := by
          have halike := transcript_reframed orders
            (fits_of_scanned ⟨0, late⟩ hsecond (Nat.zero_le _))
          rw [hlate, reframedEntry_of_zero rfl, List.map_id] at halike
          rw [halike, hcount]
  · exact (fits_of_scanned ⟨second.issued, 0⟩ hsecond (Nat.le_refl _)).tokens_transcript orders

section Anew

variable {config : Config} {player : Player} {log : Log}

theorem sameSetup_anew (h : Reachable config player) : player.SameSetup (anew config player log) :=
  ⟨h.capacity.symm, h.lockPrimary.symm⟩

theorem speed_anew : (anew config player log).speed = player.speed :=
  congrArg (Option.getD · Speed.realTime) (Speed.ofNumber?_toNumber player.speed)

-- A scan is all that a player makes of its recording, whatever it has been through, and once is enough.
theorem scan_forgets (h : Reachable config player) (hlog : player.log = some log) :
    (scan player).1 = (scan (anew config player log)).1 ∧
      (scan player).2.player =
        { (scan (anew config player log)).2.player with issued := player.issued } ∧
      (scan player).2.effects = player.calledOff ++ (scan (anew config player log)).2.effects ∧
      Scanned log (scan player).2.player ∧
      GoesOnLike player.issued (scan (anew config player log)).2.player (scan player).2.player ∧
      scan (scan player).2.player =
        ((scan player).1, ⟨(scan player).2.player, (scan (anew config player log)).2.effects⟩) := by
  have hanew : (anew config player log).log = some (Log.start log.recording) := rfl
  obtain ⟨hanswer, hplayer⟩ := scan_congr hlog hanew rfl speed_anew (sameSetup_anew h)
  have hissued : (scan player).2.player.issued = player.issued := congrArg (·.issued) hplayer
  have hstatus : (scan player).2.player.status = (scan (anew config player log)).2.player.status := by
    rw [hplayer]
    rfl
  have hupdate : (scan (anew config player log)).2.effects = [.update (scan player).2.player.status] := by
    rw [effects_scan hanew, hstatus]
    rfl
  refine ⟨hanswer, hplayer, ?_, scanned hlog, ?_, ?_⟩
  · rw [effects_scan hlog, hupdate]
  · have hzero : (scan (anew config player log)).2.player.issued = 0 :=
      congrArg (·.issued) (scan_congr hanew hanew rfl rfl ⟨rfl, rfl⟩).2
    have hfirst : (scan (anew config player log)).2.player =
        { (scan player).2.player with issued := 0 } := by
      rw [hplayer]
      exact congrArg (fun count => { (scan (anew config player log)).2.player with issued := count }) hzero
    have hgoes := goesOnLike_of_scanned (scanned hlog) hfirst
    rwa [hissued] at hgoes
  · obtain ⟨line, hmoved⟩ := (scanned hlog).loaded
    have hsetup := sameSetup_obey player ⟨0, .scan⟩
    obtain ⟨hagain, hstays⟩ := scan_congr hmoved hlog rfl (speed_scan hlog).symm
      ⟨hsetup.capacity.symm, hsetup.lockPrimary.symm⟩
    have hquiet : (scan player).2.player.calledOff = [] := by simp [calledOff, (scanned hlog).pending]
    have heffects := effects_scan hmoved
    rw [hquiet, hstays, List.nil_append] at heffects
    exact Prod.ext hagain (congrArg₂ Step.mk hstays (heffects.trans hupdate.symm))

end Anew

def threeMessages : Recording :=
  Recording.ofLines "three messages"
    ["Timestamp,Message".toList, "2024-01-01T12:00:00Z,a".toList, "2024-01-01T12:00:04Z,b".toList,
      "2024-01-01T12:00:09Z,c".toList]

-- It was hurried after the second message, and sent back to the first one after the third.
def hurriedPlayer : Player :=
  ((Player.new Config.default).obeyAll [⟨0, .load threeMessages⟩, ⟨0, .scan⟩, ⟨0, .start⟩,
    ⟨1000000000, .setSpeed (Binary64.ofNat 2)⟩, ⟨1000000000, .wake 2⟩, ⟨2000000000, .seek Binary64.zero⟩]).player

-- Both scans count three rows, and all that is left of the past are the tokens.
theorem scan_forgets_hurry :
    Reachable Config.default hurriedPlayer ∧ hurriedPlayer.issued = 4 ∧ hurriedPlayer.pending = some 4 ∧
      ∃ log, hurriedPlayer.log = some log ∧
        (scan (anew Config.default hurriedPlayer log)).1 = .ok ⟨true, true, 3, 0, 3⟩ ∧
        (scan hurriedPlayer).1 = (scan (anew Config.default hurriedPlayer log)).1 ∧
        GoesOnLike 4 (scan (anew Config.default hurriedPlayer log)).2.player (scan hurriedPlayer).2.player := by
  have hreach : Reachable Config.default hurriedPlayer := Reachable.new.obeyAll _
  have hissued : hurriedPlayer.issued = 4 := by decide +kernel
  have hpending : hurriedPlayer.pending = some 4 := by decide +kernel
  obtain ⟨log, hlog⟩ := Option.isSome_iff_exists.mp (show hurriedPlayer.log.isSome by decide +kernel)
  obtain ⟨hanswer, -, -, -, hgoes, -⟩ := scan_forgets hreach hlog
  have hreport : (scan hurriedPlayer).1 = .ok ⟨true, true, 3, 0, 3⟩ := by decide +kernel
  rw [hissued] at hgoes
  exact ⟨hreach, hissued, hpending, log, hlog, hanswer ▸ hreport, hanswer, hgoes⟩

end Player

end VoyageLog
