import VoyageLog.Proofs.Playback.Timer

namespace VoyageLog.Player

-- So many tokens are left out of the count, and so many nanoseconds are added on the wall.
structure Frame where
  tokens : Nat
  wall : Nat

def Anchor.reframed (frame : Frame) (anchor : Anchor) : Anchor :=
  { anchor with wall := anchor.wall + frame.wall }

def Effect.reframed (frame : Frame) : Effect → Effect
  | .wake token delay => .wake (token - frame.tokens) delay
  | .cancel token => .cancel (token - frame.tokens)
  | .emit record => .emit record
  | .update status => .update status

-- A token from before the count becomes zero, which is no token of any player.
def Command.reframed (frame : Frame) : Command → Command
  | .wake token => .wake (token - frame.tokens)
  | command => command

def Order.reframed (frame : Frame) (order : Order) : Order :=
  ⟨order.now + frame.wall, order.command.reframed frame⟩

def reframed (frame : Frame) (player : Player) : Player :=
  { player with
    anchor := player.anchor.map (·.reframed frame), pending := player.pending.map (· - frame.tokens),
    issued := player.issued - frame.tokens }

def Step.reframed (frame : Frame) (step : Step) : Step :=
  ⟨step.player.reframed frame, step.effects.map (·.reframed frame)⟩

-- No token is waited for that is left out of the count.
structure Fits (frame : Frame) (player : Player) : Prop where
  issued : frame.tokens ≤ player.issued
  pending : ∀ token, player.pending = some token → frame.tokens < token

section Steps

variable (frame : Frame) (player : Player)

theorem announce_reframed : announce (player.reframed frame) = (announce player).reframed frame := rfl

theorem flush_reframed : flush (player.reframed frame) = (flush player).reframed frame := by
  simp only [flush, Step.reframed, List.map_map, reframed, Step.mk.injEq, true_and]
  rfl

theorem disarm_reframed : disarm (player.reframed frame) = (disarm player).reframed frame := by
  cases hpending : player.pending <;> simp [disarm, reframed, Step.reframed, hpending, Effect.reframed]

-- The step that follows may itself be given the other time.
theorem andThen_reframed {frame : Frame} {step : Step} {next other : Player → Step}
    (h : other (step.player.reframed frame) = (next step.player).reframed frame) :
    (step.reframed frame).andThen other = (step.andThen next).reframed frame := by
  change Step.mk (other (step.player.reframed frame)).player
    (step.effects.map (·.reframed frame) ++ (other (step.player.reframed frame)).effects) = _
  rw [h]
  simp [Step.andThen, Step.reframed]

theorem arm_reframed (delay : Nat) (h : frame.tokens ≤ player.issued) :
    arm delay (player.reframed frame) = (arm delay player).reframed frame := by
  have hnext : player.issued - frame.tokens + 1 = player.issued + 1 - frame.tokens := by omega
  unfold arm
  rw [disarm_reframed]
  apply andThen_reframed
  simp [Step.reframed, reframed, Effect.reframed, hnext]

theorem finish_reframed : finish (player.reframed frame) = (finish player).reframed frame := by
  unfold finish
  rw [flush_reframed]
  apply andThen_reframed
  rw [disarm_reframed]
  exact andThen_reframed rfl

theorem rebase_reframed (now : Nat) :
    (player.reframed frame).rebase (now + frame.wall) = (player.rebase now).reframed frame := by
  cases htimeline : player.clock.timeline <;> simp [rebase, reframed, htimeline, Anchor.reframed]

-- Both the time now and the time that a record is due are later by the same.
theorem delayUntil?_reframed (now : Nat) (instant : Instant) :
    (player.reframed frame).delayUntil? (now + frame.wall) instant = player.delayUntil? now instant := by
  cases hanchor : player.anchor with
  | none => simp [delayUntil?, reframed, hanchor]
  | some anchor =>
    cases htimeline : player.clock.timeline with
    | none => simp [delayUntil?, reframed, hanchor, htimeline]
    | some timeline =>
      simp only [delayUntil?, reframed, hanchor, htimeline, Option.map_some, Anchor.reframed]
      generalize player.speed.wallMicroseconds (instant.since timeline.first - anchor.offset) = lead
      split
      · rfl
      · by_cases hdue : now < anchor.wall + lead.toNat * 1000
        · rw [if_pos hdue, if_pos (by omega)]
          congr 1
          omega
        · rw [if_neg hdue, if_neg (by omega)]

theorem take_reframed (now : Nat) (record : Record) :
    (player.reframed frame).take (now + frame.wall) record =
      ((player.take now record).1.reframed frame, (player.take now record).2) := by
  have hsame : Reading.ofRecord (player.reframed frame).clock.layout (player.reframed frame).isTimed
      (player.reframed frame).listener record =
      Reading.ofRecord player.clock.layout player.isTimed player.listener record := rfl
  unfold take
  rw [hsame]
  rcases Reading.ofRecord player.clock.layout player.isTimed player.listener record with ⟨_ | reading, listener⟩
  · rfl
  · cases hinstant : reading.instant with
    | none =>
      simp only [hinstant]
      rfl
    | some instant =>
      simp only [hinstant]
      have hdelay := delayUntil?_reframed frame (hold reading.payload { player with listener }) now instant
      exact congrArg (Prod.mk _) hdelay

theorem takeAll_reframed (now : Nat) (records : List Record) :
    takeAll (now + frame.wall) records (player.reframed frame) =
      ((takeAll now records player).1.reframed frame, (takeAll now records player).2) := by
  induction records generalizing player with
  | nil => rfl
  | cons record rest ih =>
    have hone := take_reframed frame player now record
    rcases htake : player.take now record with ⟨next, _ | delay⟩
    · rw [htake] at hone
      simp only [takeAll, hone, htake]
      exact ih next
    · rw [htake] at hone
      simp only [takeAll, hone, htake]

theorem playOn_reframed (now : Nat) (log : Log) (h : frame.tokens ≤ player.issued) :
    playOn (now + frame.wall) log (player.reframed frame) = (playOn now log player).reframed frame := by
  have htaken := takeAll_reframed frame player now log.unread
  rcases hall : takeAll now log.unread player with ⟨taken, _ | ⟨line, delay⟩⟩
  · rw [hall] at htaken
    simp only [playOn, htaken, hall]
    exact finish_reframed frame { taken with log := some (log.moveTo log.lineCount) }
  · rw [hall] at htaken
    have hissued : taken.issued = player.issued := congrArg (·.issued) (rested_of_takeAll hall)
    have hflush := flush_reframed frame { taken with log := some (log.moveTo line) }
    simp only [playOn, htaken, hall]
    rw [show flush { taken.reframed frame with log := some (log.moveTo line) } = _ from hflush]
    refine andThen_reframed ?_
    rw [arm_reframed frame _ delay (by rw [flush_player, hissued]; exact h)]
    exact andThen_reframed (announce_reframed ..)

theorem tick_reframed (now : Nat) (h : frame.tokens ≤ player.issued) :
    tick (now + frame.wall) (player.reframed frame) = (tick now player).reframed frame := by
  have hsame : (player.reframed frame).state = player.state := rfl
  unfold tick
  rw [hsame, disarm_reframed]
  split
  · refine andThen_reframed ?_
    have hlog : ((disarm player).player.reframed frame).log = (disarm player).player.log := rfl
    rw [hlog]
    split
    · exact finish_reframed ..
    · exact playOn_reframed frame _ now _ (by rw [disarm_player]; exact h)
  · rfl

theorem reset_reframed : reset (player.reframed frame) = (reset player).reframed frame := by
  unfold reset
  rw [disarm_reframed]
  exact andThen_reframed rfl

theorem load_reframed (recording : Recording) :
    load recording (player.reframed frame) = (load recording player).reframed frame := by
  unfold load
  rw [reset_reframed]
  exact andThen_reframed rfl

theorem loadFailed_reframed : loadFailed (player.reframed frame) = (loadFailed player).reframed frame := by
  unfold loadFailed
  rw [reset_reframed]
  exact andThen_reframed rfl

-- What a scan looks at is not in the frame.
theorem scan_reframed :
    scan (player.reframed frame) = ((scan player).1, (scan player).2.reframed frame) := by
  have hcleared : (disarm (player.reframed frame)).andThen (fun player =>
        quietly { player with held := [], anchor := none, clock := Clock.unknown }) =
      ((disarm player).andThen fun player =>
        quietly { player with held := [], anchor := none, clock := Clock.unknown }).reframed frame := by
    rw [disarm_reframed]
    exact andThen_reframed rfl
  unfold scan
  rw [hcleared]
  generalize (disarm player).andThen (fun player =>
    quietly { player with held := [], anchor := none, clock := Clock.unknown }) = cleared
  have hlog : (cleared.reframed frame).player.log = cleared.player.log := rfl
  have hlock : (cleared.reframed frame).player.lockPrimary = cleared.player.lockPrimary := rfl
  dsimp only
  rw [hlog, hlock]
  cases cleared.player.log with
  | none => rfl
  | some log =>
    dsimp only
    rcases log.scan cleared.player.lockPrimary with ⟨failure | outcome, moved⟩
    · refine congrArg (Prod.mk _) (andThen_reframed ?_)
      rfl
    · refine congrArg (Prod.mk _) (andThen_reframed ?_)
      rfl

theorem withLayout_reframed : (player.reframed frame).withLayout = player.withLayout.reframed frame := by
  have hlayout : (player.reframed frame).clock.layout = player.clock.layout := rfl
  have hlog : (player.reframed frame).log = player.log := rfl
  unfold withLayout
  rw [hlayout, hlog]
  split
  · split <;> rfl
  · rfl

theorem readied_reframed (now : Nat) :
    (player.reframed frame).readied (now + frame.wall) = (player.readied now).reframed frame := by
  unfold readied
  rw [withLayout_reframed]
  exact rebase_reframed frame { player.withLayout with state := .playing } now

theorem startLate_reframed (now later : Nat) (h : frame.tokens ≤ player.issued) :
    startLate (now + frame.wall) (later + frame.wall) (player.reframed frame) =
      (startLate now later player).reframed frame := by
  have hcan : (player.reframed frame).CanStart ↔ player.CanStart := Iff.rfl
  by_cases hstart : player.CanStart
  · have hready : (player.readied now).issued = player.issued := (tokens_readied now player).2
    have hone : startLate now later player = (announce (player.readied now)).andThen (tick later) := if_pos hstart
    have hother : startLate (now + frame.wall) (later + frame.wall) (player.reframed frame) =
        (announce ((player.reframed frame).readied (now + frame.wall))).andThen (tick (later + frame.wall)) :=
      if_pos (hcan.mpr hstart)
    rw [hone, hother, readied_reframed, announce_reframed]
    exact andThen_reframed (tick_reframed frame _ later (by rw [announce_player, hready]; exact h))
  · have hone : startLate now later player = quietly player := if_neg hstart
    have hother : startLate (now + frame.wall) (later + frame.wall) (player.reframed frame) =
        quietly (player.reframed frame) := if_neg (fun hstart' => hstart (hcan.mp hstart'))
    rw [hone, hother]
    rfl

theorem start_reframed (now : Nat) (h : frame.tokens ≤ player.issued) :
    start (now + frame.wall) (player.reframed frame) = (start now player).reframed frame := by
  rw [← startLate_self, ← startLate_self]
  exact startLate_reframed frame player now now h

theorem pause_reframed : pause (player.reframed frame) = (pause player).reframed frame := by
  have hsame : (player.reframed frame).state = player.state := rfl
  unfold pause
  rw [hsame, disarm_reframed]
  split
  · exact andThen_reframed rfl
  · rfl

theorem stop_reframed : stop (player.reframed frame) = (stop player).reframed frame := by
  have hsame : (player.reframed frame).state = player.state := rfl
  unfold stop
  rw [hsame, disarm_reframed]
  split
  · exact andThen_reframed rfl
  · rfl

theorem sub_tokens_inj {base waited token : Nat} (h : base < waited) :
    waited - base = token - base ↔ waited = token := by
  omega

-- A token that is left out of the count is not waited for on either side.
theorem wake_reframed (now : Nat) (token : Token) (h : Fits frame player) :
    wake (now + frame.wall) (token - frame.tokens) (player.reframed frame) =
      (wake now token player).reframed frame := by
  have hwaits : (player.reframed frame).pending = some (token - frame.tokens) ↔
      player.pending = some token := by
    cases hpending : player.pending with
    | none => simp [reframed, hpending]
    | some waited =>
      simpa [reframed, hpending] using sub_tokens_inj (h.pending waited hpending)
  by_cases hpending : player.pending = some token
  · unfold wake
    rw [if_pos (hwaits.mpr hpending), if_pos hpending]
    exact tick_reframed frame { player with pending := none } now h.issued
  · unfold wake
    rw [if_neg (fun hother => hpending (hwaits.mp hother)), if_neg hpending]
    rfl

theorem setSpeed_reframed (now : Nat) (number : Binary64) (h : frame.tokens ≤ player.issued) :
    setSpeed (now + frame.wall) number (player.reframed frame) =
      (setSpeed now number player).reframed frame := by
  unfold setSpeed
  cases Speed.ofNumber? number with
  | none => rfl
  | some speed =>
    have hbase := rebase_reframed frame { player with speed } now
    by_cases hstate : player.state = .playing
    · have harm : ∀ delay, (arm delay ((rebase now { player with speed }).reframed frame)).andThen announce =
          ((arm delay (rebase now { player with speed })).andThen announce).reframed frame := by
        intro delay
        rw [arm_reframed frame (rebase now { player with speed }) delay h]
        exact andThen_reframed (announce_reframed ..)
      have hplan := congrArg
        (fun player => (arm (if player.isTimed then 0 else speed.secondOnWall) player).andThen announce) hbase
      exact (if_pos hstate).trans
        ((hplan.trans (harm _)).trans (congrArg (Step.reframed frame) (if_pos hstate).symm))
    · exact (if_neg hstate).trans ((announce_reframed frame { player with speed }).trans
        (congrArg (Step.reframed frame) (if_neg hstate).symm))

-- What a playing player does once it has landed.
theorem resume_reframed (now : Nat) (h : frame.tokens ≤ player.issued) :
    (if (player.reframed frame).state = .playing then
        ((player.reframed frame).rebase (now + frame.wall)).arm 0
      else quietly (player.reframed frame)) =
      (if player.state = .playing then (player.rebase now).arm 0 else quietly player).reframed frame := by
  have hsame : (player.reframed frame).state = player.state := rfl
  rw [hsame, rebase_reframed, arm_reframed frame (player.rebase now) 0 h]
  split <;> rfl

theorem land_reframed (now : Nat) (landing : Landing) (log : Log) (h : frame.tokens ≤ player.issued) :
    land (now + frame.wall) landing log (player.reframed frame) =
      (land now landing log player).reframed frame := by
  have hdisarm := disarm_reframed frame { player with listener := landing.listener }
  have hresume := resume_reframed frame (player.landed landing log) now h
  unfold land
  refine (congrArg (fun step => Step.andThen step _) hdisarm).trans (andThen_reframed ?_)
  rw [disarm_player]
  exact (congrArg (fun step => Step.andThen step _) hresume).trans (andThen_reframed (announce_reframed ..))

theorem seek_reframed (now : Nat) (fraction : Binary64) (h : frame.tokens ≤ player.issued) :
    seek (now + frame.wall) fraction (player.reframed frame) =
      ((seek now fraction player).1, (seek now fraction player).2.reframed frame) := by
  have hlog : (player.reframed frame).log = player.log := rfl
  have hseekable : (player.reframed frame).isSeekable = player.isSeekable := rfl
  simp only [seek_eq]
  rw [hlog, hseekable]
  cases player.log with
  | none => rfl
  | some log =>
    have hlanding : landing? fraction log (player.reframed frame) = landing? fraction log player := rfl
    dsimp only
    rw [hlanding]
    split
    · cases landing? fraction log player with
      | error answer => rfl
      | ok landing => exact congrArg (Prod.mk _) (land_reframed frame player now landing log h)
    · rfl

end Steps

theorem run_reframed {frame : Frame} {player : Player} (now : Nat) (command : Command)
    (h : Fits frame player) :
    (command.reframed frame).run (now + frame.wall) (player.reframed frame) =
      ((command.run now player).1, (command.run now player).2.reframed frame) := by
  cases command with
  | load recording => exact congrArg (Prod.mk _) (load_reframed frame player recording)
  | loadFailed => exact congrArg (Prod.mk _) (loadFailed_reframed ..)
  | scan => simp only [Command.reframed, Command.run, scan_reframed]
  | start => exact congrArg (Prod.mk _) (start_reframed frame player now h.issued)
  | pause => exact congrArg (Prod.mk _) (pause_reframed ..)
  | stop => exact congrArg (Prod.mk _) (stop_reframed ..)
  | tick => exact congrArg (Prod.mk _) (tick_reframed frame player now h.issued)
  | rebase =>
    simp only [Command.reframed, Command.run, rebase_reframed]
    rfl
  | wake token => exact congrArg (Prod.mk _) (wake_reframed frame player now token h)
  | seek fraction => simp only [Command.reframed, Command.run, seek_reframed frame player now fraction h.issued]
  | setSpeed number => exact congrArg (Prod.mk _) (setSpeed_reframed frame player now number h.issued)

theorem Fits.asked {frame : Frame} {player : Player} {step : Step} (h : Fits frame player)
    (hasks : Asks player step) : Fits frame step.player := by
  have hnext : ∀ token, step.player.pending = some token → frame.tokens < token := by
    intro token htoken
    cases hasks with
    | nothing hpending _ _ => exact h.pending token (hpending ▸ htoken)
    | callOff hpending _ _ => simp [hpending] at htoken
    | rearm _ hpending _ _ =>
      obtain rfl : player.issued + 1 = token := by simpa [hpending] using htoken
      exact Nat.lt_succ_of_le h.issued
  refine ⟨?_, hnext⟩
  have hissued := h.issued
  cases hasks <;> omega

-- A wake-up asks the timer as a player does that waits for no token any more.
theorem Fits.asks {frame : Frame} {player : Player} (order : Order) (h : Fits frame player) :
    ∃ ready, Fits frame ready ∧ Asks ready (player.obey order) := by
  obtain ⟨now, command⟩ := order
  by_cases hwake : ∃ token, command = .wake token
  · obtain ⟨token, rfl⟩ := hwake
    by_cases hpending : player.pending = some token
    · refine ⟨{ player with pending := none }, ⟨h.issued, by simp⟩, ?_⟩
      rw [show player.obey ⟨now, .wake token⟩ = tick now { player with pending := none } from if_pos hpending]
      exact asks_tick now _
    · refine ⟨player, h, ?_⟩
      rw [show player.obey ⟨now, .wake token⟩ = quietly player from if_neg hpending]
      exact .nothing rfl rfl rfl
  · exact ⟨player, h, asks_run now player command fun token heq => hwake ⟨token, heq⟩⟩

theorem Fits.obey {frame : Frame} {player : Player} (order : Order) (h : Fits frame player) :
    Fits frame (player.obey order).player := by
  obtain ⟨ready, hfits, hasks⟩ := h.asks order
  exact hfits.asked hasks

def Effect.token? : Effect → Option Token
  | .wake token _ | .cancel token => some token
  | .emit _ | .update _ => none

theorem token_mem_calls {effects : List Effect} {effect : Effect} {token : Token} (h : effect ∈ effects)
    (htoken : effect.token? = some token) : effect ∈ calls effects := by
  refine List.mem_filter.mpr ⟨h, ?_⟩
  cases effect <;> simp_all [Effect.token?, Effect.isCall]

theorem Fits.tokens_asked {frame : Frame} {player : Player} {step : Step} {effect : Effect} {token : Token}
    (h : Fits frame player) (hasks : Asks player step) (heffect : effect ∈ step.effects)
    (htoken : effect.token? = some token) : frame.tokens < token := by
  have hcall := token_mem_calls heffect htoken
  have hoff : effect ∈ player.calledOff → frame.tokens < token := by
    intro hmem
    obtain ⟨waited, hwaited, rfl⟩ := List.mem_map.mp hmem
    obtain rfl : waited = token := by simpa [Effect.token?] using htoken
    exact h.pending waited (by simpa using hwaited)
  cases hasks with
  | nothing _ _ hcalls => simp [hcalls] at hcall
  | callOff _ _ hcalls => exact hoff (hcalls ▸ hcall)
  | rearm delay _ _ hcalls =>
    rw [hcalls] at hcall
    rcases List.mem_append.mp hcall with hmem | hmem
    · exact hoff hmem
    · obtain rfl : effect = .wake (player.issued + 1) delay := by simpa using hmem
      obtain rfl : player.issued + 1 = token := by simpa [Effect.token?] using htoken
      exact Nat.lt_succ_of_le h.issued

-- What a player answers to its orders and does at them.
def transcript (player : Player) : List Order → List (Answer × List Effect)
  | [] => []
  | order :: rest =>
    let (answer, step) := order.command.run order.now player
    (answer, step.effects) :: step.player.transcript rest

-- The same entry as it reads with the tokens counted anew.
def reframedEntry (frame : Frame) (entry : Answer × List Effect) : Answer × List Effect :=
  (entry.1, entry.2.map (·.reframed frame))

-- Whatever is ordered, the two players go on alike.
theorem transcript_reframed {frame : Frame} {player : Player} (orders : List Order) (h : Fits frame player) :
    (player.reframed frame).transcript (orders.map (·.reframed frame)) =
      (player.transcript orders).map (reframedEntry frame) := by
  induction orders generalizing player with
  | nil => rfl
  | cons order rest ih =>
    have hone := run_reframed order.now order.command h
    have hrest := ih (h.obey order)
    simp only [List.map_cons, transcript, Order.reframed, hone]
    exact congrArg (List.cons _) hrest

-- Nothing that is done from here on is about a token that is left out of the count.
theorem Fits.tokens_transcript {frame : Frame} {player : Player} (orders : List Order) (h : Fits frame player) :
    ∀ entry ∈ player.transcript orders, ∀ effect ∈ entry.2, ∀ token, effect.token? = some token →
      frame.tokens < token := by
  induction orders generalizing player with
  | nil => simp [transcript]
  | cons order rest ih =>
    intro entry hentry effect heffect token htoken
    rcases List.mem_cons.mp hentry with rfl | hrest
    · obtain ⟨ready, hfits, hasks⟩ := h.asks order
      exact hfits.tokens_asked hasks heffect htoken
    · exact ih (h.obey order) entry hrest effect heffect token htoken

end VoyageLog.Player
