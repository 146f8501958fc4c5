import VoyageLog.Proofs.Playback.Deck

namespace VoyageLog.Player

open Scan TimeSource

-- A player kept field by field, with what it has done so far.
def Step.deck (step : Step) : Deck where
  speed := step.player.speed
  lockPrimary := step.player.lockPrimary
  capacity := step.player.capacity
  log := step.player.log
  clock := step.player.clock.loosened
  listener := step.player.listener
  state := step.player.state
  held := step.player.held
  anchor := step.player.anchor
  pending := step.player.pending
  issued := step.player.issued
  done := step.effects

-- A change that shows to nobody.
def Step.change (step : Step) (next : Player → Player) : Step := ⟨next step.player, step.effects⟩

theorem Step.change_eq (step : Step) (next : Player → Player) :
    step.change next = step.andThen fun player => quietly (next player) := by
  simp [Step.change, Step.andThen]

section Parts

variable (step : Step)

theorem Step.deck_of_quiet {next : Player → Step} (h : next step.player = quietly step.player) :
    step.deck = (step.andThen next).deck := by
  simp [Step.andThen, Step.deck, h]

theorem isTimed_deck : step.deck.isTimed = step.player.isTimed := step.player.clock.isTimed_loosened

theorem elapsed?_deck : step.deck.clock.elapsed? = step.player.clock.timeline.map (·.elapsed) :=
  step.player.clock.elapsed?_loosened

theorem progress_deck : step.deck.progress = step.player.progress := by
  have hspan : step.deck.clock.span? = step.player.clock.timeline.map (·.span) := step.player.clock.span?_loosened
  unfold Deck.progress progress
  rw [isTimed_deck, elapsed?_deck, hspan]
  cases htimeline : step.player.clock.timeline with
  | none =>
    have hnot : step.player.isTimed = false := by simp [isTimed, Clock.isTimed, htimeline]
    rw [hnot]
    cases hlog : step.player.log <;> simp [Step.deck, hlog]
  | some timeline =>
    have hyes : step.player.isTimed = true := by simp [isTimed, Clock.isTimed, htimeline]
    rw [if_pos hyes]
    rfl

theorem announce_deck : step.deck.announce = (step.andThen announce).deck := by
  have hstatus : step.deck.status = step.player.status := by
    unfold Deck.status
    rw [progress_deck]
    rfl
  unfold Deck.announce
  rw [hstatus]
  rfl

theorem disarm_deck : step.deck.disarm = (step.andThen disarm).deck := by
  have hsame : step.deck.pending = step.player.pending := rfl
  unfold Deck.disarm
  rw [hsame]
  cases hpending : step.player.pending <;> simp [Step.deck, Deck.act, hpending]

theorem arm_deck (delay : Nat) : step.deck.arm delay = (step.andThen (arm delay)).deck := by
  have hparts : step.andThen (arm delay) = (step.andThen disarm).andThen fun player =>
      ⟨{ player with pending := some (player.issued + 1), issued := player.issued + 1 },
        [.wake (player.issued + 1) delay]⟩ := (step.andThen_assoc disarm _).symm
  unfold Deck.arm
  rw [disarm_deck, hparts]
  rfl

theorem flush_deck : step.deck.flush = (step.andThen flush).deck := rfl

theorem rebase_deck (now : Nat) : step.deck.rebase now = (step.change (rebase now)).deck := by
  unfold Deck.rebase
  rw [elapsed?_deck, Option.map_map]
  rfl

theorem delayUntil?_deck (now : Nat) (instant : Instant) :
    step.deck.delayUntil? now instant = step.player.delayUntil? now instant := by
  unfold Deck.delayUntil? delayUntil?
  cases hanchor : step.player.anchor with
  | none => simp [Step.deck, hanchor]
  | some anchor =>
    cases htimeline : step.player.clock.timeline with
    | none => simp [Step.deck, Clock.loosened, hanchor, htimeline]
    | some timeline => simp [Step.deck, Clock.loosened, hanchor, htimeline]

theorem finish_deck : step.deck.finish = (step.andThen finish).deck := by
  have hparts : step.andThen finish = (((step.andThen flush).andThen disarm).change fun player =>
      { player with state := .atEnd }).andThen announce := by
    simp only [Step.change_eq, Step.andThen_assoc]
    rfl
  unfold Deck.finish
  rw [hparts, flush_deck, disarm_deck, ← announce_deck]
  rfl

end Parts

section Ticking

-- Only a player that plays by time reads an instant.
theorem isTimed_of_instant {layout : Option Layout} {timed : Bool} {listener next : Listener} {record : Record}
    {reading : Reading} {instant : Instant}
    (hreading : Reading.ofRecord layout timed listener record = (some reading, next))
    (hinstant : reading.instant = some instant) : timed := by
  cases timed with
  | true => rfl
  | false =>
    rw [ofRecord_untimed, Prod.mk.injEq, Option.map_eq_some_iff] at hreading
    obtain ⟨⟨payload, -, rfl⟩, -⟩ := hreading
    cases hinstant

-- A step that has taken a record, with the cursor beyond it.
def Step.beyond (step : Step) (next : Player) (further : Log) : Step :=
  step.change fun _ => { next with log := some further }

theorem hold_deck (payload : Text) (further : Log) (listener : Listener) (step : Step) :
    Deck.hold payload { step.deck with log := some further, listener } =
      (step.beyond (hold payload { step.player with listener }) further).deck := rfl

theorem withCurrent_deck {next : Player} (further : Log) (instant : Instant) (step : Step)
    (htimed : next.clock.isTimed) :
    { (step.beyond next further).deck with
        clock := { (step.beyond next further).deck.clock with current := some instant } } =
      (step.beyond { next with clock := next.clock.withCurrent instant } further).deck := by
  have hclock := next.clock.loosened_withCurrent instant htimed
  simp only [Step.beyond, Step.change, Step.deck]
  rw [← hclock]

theorem turn_deck (now : Nat) (record : Record) (further : Log) (step : Step) :
    step.deck.turn now record further =
      match step.player.take now record with
      | (next, none) => .ok (step.beyond next further).deck
      | (next, some delay) => .error (((step.beyond next further).andThen flush).andThen (arm delay)).deck := by
  have htimed : Deck.isTimed { step.deck with log := some further } = step.player.isTimed := isTimed_deck step
  have hlayout : step.deck.clock.layout = step.player.clock.layout := rfl
  have hlistener : step.deck.listener = step.player.listener := rfl
  unfold Deck.turn take
  dsimp only
  rw [htimed, hlayout, hlistener]
  rcases hreading : Reading.ofRecord step.player.clock.layout step.player.isTimed step.player.listener record with
    ⟨_ | ⟨payload, _ | instant⟩, listener⟩
  · rfl
  · dsimp only
    rw [hold_deck, isTimed_deck]
    generalize hold payload { step.player with listener } = next
    have hpaced : (step.beyond next further).player.isTimed = next.isTimed := rfl
    have hheld : (step.beyond next further).deck.held = next.held := rfl
    rw [hpaced, hheld]
    by_cases hbatch : (!next.isTimed && batchSize ≤ next.held.length) = true
    · rw [if_pos hbatch, if_pos hbatch, flush_deck, arm_deck]
      rfl
    · rw [if_neg hbatch, if_neg hbatch]
  · have hpaced : (hold payload { step.player with listener }).clock.isTimed := isTimed_of_instant hreading rfl
    dsimp only
    rw [hold_deck]
    generalize hold payload { step.player with listener } = next at hpaced
    -- A record is due by the first instant, whichever is the current one.
    have hdue : Deck.delayUntil? now instant { (step.beyond next further).deck with
        clock := { (step.beyond next further).deck.clock with current := some instant } } =
        next.delayUntil? now instant := delayUntil?_deck (step.beyond next further) now instant
    rw [hdue, withCurrent_deck further instant step hpaced]
    cases next.delayUntil? now instant with
    | none => rfl
    | some delay =>
      dsimp only
      rw [flush_deck, arm_deck]

-- A player goes on from its next record with the cursor beyond it.
theorem playOn_of_take {player next : Player} {log : Log} {record : Record} {rest : List Record} (now : Nat)
    (hunread : log.unread = record :: rest) (htake : player.take now record = (next, none)) :
    player.playOn now log =
      Player.playOn now (log.moveTo (record.line + 1)) { next with log := some (log.moveTo (record.line + 1)) } := by
  have hmoved := takeAll_withLog (some (log.moveTo (record.line + 1))) now next rest
  unfold playOn
  rw [(Log.read_of_cons hunread).2, hunread, hmoved]
  simp only [takeAll, htake]
  rcases takeAll now rest next with ⟨taken, _ | ⟨line, delay⟩⟩ <;> rfl

theorem playOn_deck (now : Nat) (log : Log) (step : Step) :
    step.deck.playOn now log = (step.andThen (playOn now log)).deck := by
  generalize hunread : log.unread = records
  induction records generalizing log step with
  | nil =>
    have hends : playOn now log step.player = finish { step.player with log := some (log.moveTo log.lineCount) } := by
      simp only [playOn, hunread, takeAll]
    rw [Deck.playOn, Log.readOn_of_nil _ _ hunread, Step.andThen, hends]
    exact finish_deck (step.change fun player => { player with log := some (log.moveTo log.lineCount) })
  | cons record rest ih =>
    have hturn := turn_deck now record (log.moveTo (record.line + 1)) step
    rw [Deck.playOn, Log.readOn_of_cons _ _ hunread, hturn]
    rcases htake : step.player.take now record with ⟨next, _ | delay⟩
    · have hgoes := playOn_of_take now hunread htake
      rw [Step.andThen, hgoes]
      exact ih _ (step.beyond next (log.moveTo (record.line + 1))) (Log.read_of_cons hunread).2
    · have hwaits : playOn now log step.player =
          (flush { next with log := some (log.moveTo (record.line + 1)) }).andThen fun player =>
            (player.arm delay).andThen announce := by
        simp only [playOn, hunread, takeAll, htake]
      rw [Step.andThen, hwaits]
      dsimp only
      rw [announce_deck, Step.andThen_assoc, Step.andThen_assoc]
      rfl

theorem tick_deck (now : Nat) (step : Step) : step.deck.tick now = (step.andThen (tick now)).deck := by
  have hsame : step.deck.state = step.player.state := rfl
  unfold Deck.tick
  rw [hsame]
  by_cases hstate : step.player.state = .playing
  · have hlog : (step.andThen disarm).deck.log = step.player.log := by simp [Step.deck]
    rw [if_pos hstate, disarm_deck]
    dsimp only
    rw [hlog]
    cases hloaded : step.player.log with
    | none =>
      have htick : tick now step.player = step.player.disarm.andThen finish := by
        simp [tick, hstate, hloaded, Step.andThen]
      dsimp only
      rw [finish_deck, Step.andThen_assoc, Step.andThen, ← htick]
      rfl
    | some log =>
      have htick : tick now step.player = step.player.disarm.andThen fun player => player.playOn now log := by
        simp [tick, hstate, hloaded, Step.andThen]
      dsimp only
      rw [playOn_deck, Step.andThen_assoc, Step.andThen, ← htick]
      rfl
  · rw [if_neg hstate]
    apply step.deck_of_quiet
    simp [tick, hstate]

end Ticking

section Commands

variable (step : Step)

theorem reset_deck : step.deck.reset = (step.andThen reset).deck := by
  have hreset : step.andThen reset = (step.andThen disarm).andThen fun player =>
      quietly { player with
        log := none, clock := Clock.unknown, listener := Listener.fresh, state := .idle, held := [],
        anchor := none } := (step.andThen_assoc disarm _).symm
  unfold Deck.reset
  rw [disarm_deck, hreset, ← Step.change_eq]
  rfl

theorem load_deck (recording : Recording) : step.deck.load recording = (step.andThen (load recording)).deck := by
  have hload : step.andThen (load recording) = ((step.andThen reset).change fun player =>
      { player with log := some (Log.start recording) }).andThen announce := (step.andThen_assoc reset _).symm
  unfold Deck.load
  rw [reset_deck, hload, ← announce_deck]
  rfl

theorem loadFailed_deck : step.deck.loadFailed = (step.andThen loadFailed).deck := by
  have hload : step.andThen loadFailed = ((step.andThen reset).change fun player =>
      { player with state := .error }).andThen announce := (step.andThen_assoc reset _).symm
  unfold Deck.loadFailed
  rw [reset_deck, hload, ← announce_deck]
  rfl

-- What a scan forgets first.
def Step.cleared (step : Step) : Step :=
  (step.andThen disarm).change fun player => { player with held := [], anchor := none, clock := Clock.unknown }

theorem cleared_deck : step.deck.cleared = step.cleared.deck := by
  unfold Deck.cleared
  rw [disarm_deck]
  rfl

theorem scan_deck :
    step.deck.scan = (step.player.scan.1, (step.andThen fun player => player.scan.2).deck) := by
  have hlog : step.cleared.deck.log = step.player.log := by simp [Step.cleared, Step.change, Step.deck]
  have hlock : step.cleared.deck.lockPrimary = step.player.lockPrimary := by
    simp [Step.cleared, Step.change, Step.deck]
  unfold Deck.scan
  rw [cleared_deck]
  dsimp only
  rw [hlog]
  cases hloaded : step.player.log with
  | none =>
    have hscan : step.player.scan = (.error .notLoaded, step.player.disarm.andThen fun player =>
        quietly { player with held := [], anchor := none, clock := Clock.unknown }) := by
      simp [Player.scan, hloaded, Step.andThen]
    rw [Step.andThen, hscan]
    simp [Step.cleared, Step.change, Step.andThen]
  | some log =>
    dsimp only
    cases hscan : ofRecording step.player.lockPrimary log.recording with
    | error failure =>
      have hsurvey : log.survey step.cleared.deck.lockPrimary step.cleared.deck.listener =
          (.error failure, log.moveTo 0) := by
        rw [survey_eq, hlock]
        simp [Log.scan, hscan, Except.map]
      have hfails := announce_deck (step.cleared.change fun player =>
        { player with log := some (log.moveTo 0), listener := Listener.fresh, state := .error })
      rw [hsurvey, Step.andThen, scan_of_failure hloaded hscan]
      refine congrArg (Prod.mk _) (hfails.trans ?_)
      simp [Step.cleared, Step.change, Step.andThen, reporting, calledOff]
    | ok outcome =>
      have hsurvey : log.survey step.cleared.deck.lockPrimary step.cleared.deck.listener =
          (.ok outcome.survey, log.moveTo outcome.clock.dataStart) := by
        rw [survey_eq, hlock]
        simp [Log.scan, hscan, Except.map]
      have hfinds := announce_deck (step.cleared.change fun player =>
        { player with
          log := some (log.moveTo outcome.clock.dataStart), clock := outcome.clock,
          listener := outcome.listener.undated, state := .idle })
      rw [hsurvey, Step.andThen, scan_of_outcome hloaded hscan]
      refine congrArg (Prod.mk _) (hfinds.trans ?_)
      simp [Step.cleared, Step.change, Step.andThen, reporting, calledOff]

theorem withLayout_deck : step.deck.withLayout = (step.change withLayout).deck := by
  have hlayout : step.deck.clock.layout = step.player.clock.layout := rfl
  have hlog : step.deck.log = step.player.log := rfl
  unfold Deck.withLayout
  rw [hlayout, hlog, Step.change, withLayout]
  cases step.player.clock.layout with
  | some layout => rfl
  | none =>
    cases hloaded : step.player.log with
    | none => rfl
    | some log =>
      dsimp only
      rcases log.detectLayout with ⟨_ | ⟨layout, dataStart⟩, found⟩ <;> rfl

theorem start_deck (now later : Nat) : step.deck.start now later = (step.andThen (startLate now later)).deck := by
  unfold Deck.start
  by_cases hstart : step.player.CanStart
  · have hdeck : (step.deck.state = .idle ∨ step.deck.state = .paused) ∧ step.deck.log.isSome := hstart
    have hlate : step.andThen (startLate now later) =
        step.andThen fun player => (announce (player.readied now)).andThen (tick later) :=
      Step.andThen_congr (if_pos hstart)
    have hready : Deck.rebase now { step.deck.withLayout with state := .playing } =
        (step.change (readied now)).deck := by
      rw [withLayout_deck]
      exact rebase_deck (step.change fun player => { player.withLayout with state := .playing }) now
    rw [if_pos hdeck, hready, announce_deck, tick_deck, Step.andThen_assoc, hlate]
    rfl
  · have hdeck : ¬((step.deck.state = .idle ∨ step.deck.state = .paused) ∧ step.deck.log.isSome) := hstart
    rw [if_neg hdeck]
    exact step.deck_of_quiet (if_neg hstart)

theorem pause_deck : step.deck.pause = (step.andThen pause).deck := by
  have hsame : step.deck.state = step.player.state := rfl
  unfold Deck.pause
  rw [hsame]
  by_cases hstate : step.player.state = .playing
  · have hpause : step.andThen pause = ((step.andThen disarm).change fun player =>
        { player with state := .paused }).andThen announce := by
      simp [Player.pause, hstate, Step.andThen, Step.change]
    rw [if_pos hstate, disarm_deck, hpause, ← announce_deck]
    rfl
  · rw [if_neg hstate]
    exact step.deck_of_quiet (if_neg hstate)

theorem stop_deck : step.deck.stop = (step.andThen stop).deck := by
  have hsame : step.deck.state = step.player.state := rfl
  unfold Deck.stop
  rw [hsame]
  by_cases hstate : step.player.state = .playing ∨ step.player.state = .paused
  · have hstop : step.andThen stop = ((step.andThen disarm).change fun player => { player with
        held := [], anchor := none, log := player.log.map (·.moveTo player.clock.dataStart),
        listener := player.listener.undated, clock := player.clock.backToFirst, state := .idle }).andThen announce := by
      simp [Player.stop, hstate, Step.andThen, Step.change]
    have hclock := (step.andThen disarm).player.clock.loosened_backToFirst
    rw [if_pos hstate, disarm_deck, hstop, ← announce_deck]
    simp only [Step.deck, Step.change]
    rw [← hclock]
    rfl
  · rw [if_neg hstate]
    exact step.deck_of_quiet (if_neg hstate)

theorem wake_deck (now : Nat) (token : Token) : step.deck.wake now token = (step.andThen (wake now token)).deck := by
  have hsame : step.deck.pending = step.player.pending := rfl
  unfold Deck.wake
  rw [hsame]
  by_cases hpending : step.player.pending = some token
  · rw [if_pos hpending, Step.andThen, wake_of_pending now hpending]
    exact tick_deck now (step.change fun player => { player with pending := none })
  · rw [if_neg hpending]
    exact step.deck_of_quiet (if_neg hpending)

theorem setSpeed_deck (now : Nat) (number : Binary64) :
    step.deck.setSpeed now number = (step.andThen (setSpeed now number)).deck := by
  unfold Deck.setSpeed
  cases hspeed : Speed.ofNumber? number with
  | none =>
    apply step.deck_of_quiet
    simp [Player.setSpeed, hspeed]
  | some speed =>
    dsimp only
    by_cases hstate : step.player.state = .playing
    · have hdeck : ({ step.deck with speed } : Deck).state = .playing := hstate
      have hrebase : Deck.rebase now { step.deck with speed } =
          (step.change fun player => rebase now { player with speed }).deck :=
        rebase_deck (step.change fun player => { player with speed }) now
      have hplans : step.andThen (setSpeed now number) = step.andThen fun player =>
          ((rebase now { player with speed }).arm (if player.isTimed then 0 else speed.secondOnWall)).andThen
            announce := by
        apply Step.andThen_congr
        simp only [Player.setSpeed, hspeed, hstate, if_true]
        rfl
      rw [if_pos hdeck, hrebase, isTimed_deck, arm_deck, announce_deck, Step.andThen_assoc, hplans]
      rfl
    · have hdeck : ¬({ step.deck with speed } : Deck).state = .playing := hstate
      have hplans : step.andThen (setSpeed now number) = step.andThen fun player => announce { player with speed } := by
        apply Step.andThen_congr
        simp only [Player.setSpeed, hspeed, hstate, if_false]
      rw [if_neg hdeck, hplans]
      exact announce_deck (step.change fun player => { player with speed })

theorem find_deck {log : Log} (fraction : Binary64) (hlog : step.player.log = some log) :
    (if step.deck.isTimed then step.deck.findTime fraction log else step.deck.findLine fraction log) =
      match step.player.landing? fraction log with
      | .error answer => (.error answer, step.deck)
      | .ok landing =>
        (.ok (landing.line, landing.instant),
          (step.change fun player => { player with listener := landing.listener }).deck) := by
  have hback : { step.deck with log := some log } = step.deck := by
    rw [← hlog]
    rfl
  rw [isTimed_deck]
  unfold landing?
  cases htimeline : step.player.clock.timeline with
  | none =>
    have hnot : ¬step.player.isTimed := by simp [isTimed, Clock.isTimed, htimeline]
    rw [if_neg hnot, Deck.findLine]
    dsimp only
    by_cases hlines : log.lineCount = 0
    · rw [if_pos hlines, if_pos hlines]
    · rw [if_neg hlines, if_neg hlines]
      rfl
  | some timeline =>
    have hyes : step.player.isTimed := by simp [isTimed, Clock.isTimed, htimeline]
    have hfirst : step.deck.clock.first = some timeline.first := by simp [Step.deck, Clock.loosened, htimeline]
    have hspan : step.deck.clock.span? = some timeline.span := by
      have h := step.player.clock.span?_loosened
      rw [htimeline] at h
      exact h
    have htarget : timeline.first.add? (shareOfSpan timeline.span fraction) = seekTarget? timeline fraction := rfl
    rw [if_pos hyes, Deck.findTime, hfirst, hspan]
    dsimp only
    rw [htarget]
    cases seekTarget? timeline fraction with
    | none => rfl
    | some target =>
      obtain ⟨line, hsearched⟩ := searchOn_eq step.player.clock.layout target step.player.listener.undated
        (log.unread_moveTo step.player.clock.dataStart)
      have hput : ((log.moveTo step.player.clock.dataStart).moveTo line).moveTo log.next = log := log.moveTo_next
      have hdeck : searchOn step.deck.clock.layout target step.deck.listener.undated
          (log.moveTo step.deck.clock.dataStart) = _ := hsearched
      dsimp only
      rw [hdeck]
      dsimp only
      rw [hput, hback]
      cases firstAtOrAfter step.player.clock.layout target step.player.listener.undated
        (log.recording.recordsAt step.player.clock.dataStart) with
      | none => rfl
      | some landing =>
        dsimp only
        rw [← hlog]
        rfl

-- A player that a seek has moved, before it plans anew.
def Step.landed (landing : Landing) (log : Log) (step : Step) : Step :=
  ((step.change fun player => { player with listener := landing.listener }).andThen disarm).change fun player =>
    { player with
      held := [], log := some (log.moveTo landing.line),
      clock := match landing.instant with
        | some instant => player.clock.withCurrent instant
        | none => player.clock }

def replanned (now : Nat) (player : Player) : Step :=
  (if player.state = .playing then (player.rebase now).arm 0 else quietly player).andThen announce

theorem replan_deck (now : Nat) : step.deck.replan now = (step.andThen (replanned now)).deck := by
  have hsame : step.deck.state = step.player.state := rfl
  unfold Deck.replan
  rw [hsame]
  by_cases hstate : step.player.state = .playing
  · have hplans : step.andThen (replanned now) =
        step.andThen fun player => ((player.rebase now).arm 0).andThen announce :=
      Step.andThen_congr (by rw [replanned, if_pos hstate])
    rw [if_pos hstate, rebase_deck, arm_deck, announce_deck, Step.andThen_assoc, hplans]
    rfl
  · have hplans : step.andThen (replanned now) = step.andThen announce :=
      Step.andThen_congr (by rw [replanned, if_neg hstate]; rfl)
    rw [if_neg hstate, announce_deck, hplans]

theorem land_deck {log : Log} {landing : Landing} (now : Nat) (hlog : step.player.log = some log)
    (htimed : landing.instant.isSome → step.player.isTimed) :
    Deck.land now landing.line landing.instant
        (step.change fun player => { player with listener := landing.listener }).deck =
      (step.andThen (land now landing log)).deck := by
  have hland : step.andThen (land now landing log) = (step.landed landing log).andThen (replanned now) := by
    simp only [Step.landed, Step.change_eq, Step.andThen_assoc]
    rfl
  rw [hland, ← replan_deck]
  unfold Deck.land
  rw [disarm_deck]
  dsimp only
  apply congrArg
  have hmoved : ((step.change fun player => { player with listener := landing.listener }).andThen disarm).deck.log.map
      (fun log => log.moveTo landing.line) = some (log.moveTo landing.line) := by
    simp [Step.change, Step.deck, hlog]
  rw [hmoved]
  cases hinstant : landing.instant with
  | none =>
    simp only [Step.landed, hinstant]
    rfl
  | some instant =>
    have htimed : ((step.change fun player => { player with listener := landing.listener }).andThen
        disarm).player.clock.isTimed := by
      have h : step.player.clock.isTimed := htimed (by simp [hinstant])
      simpa [Step.change] using h
    have hclock := Clock.loosened_withCurrent _ instant htimed
    rw [if_pos (Option.isSome_some), Step.landed, hinstant]
    simp only [Step.change, Step.deck] at hclock ⊢
    rw [← hclock]

theorem seek_deck (now : Nat) (fraction : Binary64) :
    step.deck.seek now fraction =
      ((step.player.seek now fraction).1, (step.andThen fun player => (player.seek now fraction).2).deck) := by
  have hsame : step.deck.log = step.player.log := rfl
  have hseekable : step.deck.isSeekable = step.player.isSeekable := rfl
  have hstays : step.deck = (step.andThen quietly).deck := step.deck_of_quiet rfl
  unfold Deck.seek
  rw [hsame, hseekable, Step.andThen, seek_eq]
  cases hlog : step.player.log with
  | none => exact congrArg (Prod.mk _) hstays
  | some log =>
    dsimp only
    by_cases hready : (fraction.within (Binary64.Finite.zero false) Binary64.Finite.one &&
        step.player.isSeekable) = true
    · rw [if_pos hready, if_pos hready, find_deck step fraction hlog]
      cases hlanding : step.player.landing? fraction log with
      | error answer => exact congrArg (Prod.mk _) hstays
      | ok landing =>
        have htimed : landing.instant.isSome → step.player.isTimed := by
          cases lands hlanding with
          | byTime timeline htimeline => simp [isTimed, Clock.isTimed, htimeline]
          | byLine => simp
        exact congrArg (Prod.mk _) (land_deck step now hlog htimed)
    · rw [if_neg hready, if_neg hready]
      exact congrArg (Prod.mk _) hstays

theorem run_deck (now later : Nat) (command : Command) :
    step.deck.run now later command =
      ((command.runLate now later step.player).1,
        (step.andThen fun player => (command.runLate now later player).2).deck) := by
  cases command with
  | load recording => exact congrArg (Prod.mk _) (load_deck step recording)
  | loadFailed => exact congrArg (Prod.mk _) (loadFailed_deck step)
  | scan =>
    rw [Deck.run, scan_deck]
    rfl
  | start => exact congrArg (Prod.mk _) (start_deck step now later)
  | pause => exact congrArg (Prod.mk _) (pause_deck step)
  | stop => exact congrArg (Prod.mk _) (stop_deck step)
  | tick => exact congrArg (Prod.mk _) (tick_deck now step)
  | rebase =>
    rw [Deck.run, rebase_deck, Step.change_eq]
    rfl
  | wake token => exact congrArg (Prod.mk _) (wake_deck step now token)
  | seek fraction =>
    rw [Deck.run, seek_deck]
    rfl
  | setSpeed number => exact congrArg (Prod.mk _) (setSpeed_deck step now number)

end Commands

section Runs

theorem handle_deck (orders : List SlowOrder) (step : Step) :
    step.deck.handle orders =
      ((step.player.handle orders).1, (step.andThen fun player => (player.handle orders).2).deck) := by
  induction orders generalizing step with
  | nil => exact congrArg (Prod.mk _) (step.deck_of_quiet rfl)
  | cons order rest ih =>
    rw [Deck.handle, run_deck]
    dsimp only
    rw [ih, Step.andThen_assoc]
    rfl

-- Field by field or not, a player answers and does the same, and is the same.
theorem handle_deck_new (config : Config) (orders : List SlowOrder) :
    (Deck.new config).handle orders =
      (((Player.new config).handle orders).1, ((Player.new config).handle orders).2.deck) :=
  handle_deck orders (quietly (Player.new config))

-- So its clock is always a clock loosened, and even one that is reached by looking at the wall once at a time.
theorem clock_of_handle (config : Config) (orders : List SlowOrder)
    (horders : ∀ order ∈ orders, order.now ≤ order.later) :
    ∃ prompt, Reachable config prompt ∧ ((Deck.new config).handle orders).2.clock = prompt.clock.loosened := by
  obtain ⟨tokens, prompt, hreach, -, hplayer⟩ := recounted_handle_new config orders horders
  refine ⟨prompt, hreach, ?_⟩
  rw [handle_deck_new, Step.deck, hplayer]
  rfl

theorem inStep_handle (config : Config) (orders : List SlowOrder) :
    ((Deck.new config).handle orders).2.clock.InStep := by
  rw [handle_deck_new]
  exact Clock.inStep_loosened _

theorem tightened_handle (config : Config) (orders : List SlowOrder) :
    ((Deck.new config).handle orders).2.clock.tightened = ((Player.new config).handle orders).2.player.clock := by
  rw [handle_deck_new]
  exact Clock.tightened_loosened _

end Runs

end VoyageLog.Player
