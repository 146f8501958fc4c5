import VoyageLog.Proofs.Playback.Outset

namespace VoyageLog

theorem Log.moveTo_of_min {log : Log} {line other : Nat} (h : min line log.lineCount = min other log.lineCount) :
    log.moveTo line = log.moveTo other := by
  simp only [moveTo, h]

-- To look for the layout moves the cursor, no more.
theorem Log.recording_detectLayout (log : Log) : log.detectLayout.2.recording = log.recording := by
  unfold detectLayout read
  cases (log.moveTo 0).unread <;> rfl

-- A scan leaves off at the first instant, and it knows the layout of whatever there is to play.
theorem Scan.outset_of_scan {lockPrimary : Bool} {recording : Recording} {outcome : Outcome}
    (hscan : ofRecording lockPrimary recording = .ok outcome) :
    outcome.clock.backToFirst = outcome.clock ∧ (outcome.clock.layout = none → recording.records = []) := by
  cases succeeds hscan with
  | empty hrecords => exact ⟨rfl, fun _ => hrecords⟩
  | sentences first rest hrecords dataStart =>
    refine ⟨?_, fun hlayout => by cases hlayout⟩
    cases hprimary : primaryOf (Scan.sentences (recording.recordsAt dataStart)).inventory <;>
      simp [Clock.backToFirst, outcomeOfSentences, hprimary]
  | table first rest hrecords columns dataStart _ rows =>
    refine ⟨?_, fun hlayout => by cases hlayout⟩
    cases hends : rows.ends <;> simp [Clock.backToFirst, outcomeOfTable, hends]

namespace Player

section Stopped

variable {player : Player} {log : Log}

-- A stop takes back whatever was played, and finds its layout known.
theorem stop_of_begun (hready : Ready player) (hstate : player.state = .playing ∨ player.state = .paused) :
    player.stop.player = player.outset := by
  rw [outset, hready.withLayout_of_begun hstate]
  simp [Player.stop, hstate, halted]

theorem outset_anew (config : Config) (player : Player) (log : Log) :
    (anew config player log).outset = (anew config player log).withLayout := by
  have hcase := (anew config player log).laidOut
  unfold outset
  generalize (anew config player log).withLayout = known at hcase
  cases hcase with
  | known | blank => rfl
  | found loaded hloaded _ first =>
    obtain rfl : Log.start log.recording = loaded := Option.some.inj hloaded
    have hstart : max (Log.start log.recording).next (Layout.ofFirst first).2 = (Layout.ofFirst first).2 :=
      Nat.zero_max _
    rw [hstart]
    rfl

theorem outset_scan {outcome : Scan.Outcome} (hlog : player.log = some log)
    (hscan : Scan.ofRecording player.lockPrimary log.recording = .ok outcome) :
    (scan player).2.player.outset = (scan player).2.player := by
  obtain ⟨hfirst, hknown⟩ := Scan.outset_of_scan hscan
  have hstep := scan_of_outcome hlog hscan
  have hwith : (scan player).2.player.withLayout = (scan player).2.player := by
    have hcase := (scan player).2.player.laidOut
    generalize (scan player).2.player.withLayout = known at hcase
    cases hcase with
    | known | blank => rfl
    | found moved hmoved hlayout first rest hrecords =>
      rw [hstep] at hmoved hlayout
      obtain rfl := Option.some.inj hmoved
      simp [Log.moveTo, hknown hlayout] at hrecords
  rw [outset, hwith, hstep]
  simp only [reporting_player, halted, hfirst, Option.map_some, Log.moveTo_moveTo]
  rfl

end Stopped

-- News without the progress.
def Effect.veiled : Effect → Effect
  | .update status => .update { status with progress := Binary64.zero }
  | effect => effect

def veiledEntry (entry : Answer × List Effect) : Answer × List Effect :=
  (entry.1, entry.2.map (·.veiled))

-- Orders that have the layout looked for, or put an end to what is loaded.
def Command.settles : Command → Bool
  | .load _ | .loadFailed | .scan | .start => true
  | .pause | .stop | .tick | .rebase | .wake _ | .seek _ | .setSpeed _ => false

-- A transcript of these orders, read without the progress until the first of them that settles the layout.
def untilSettled : List Order → List (Answer × List Effect) → List (Answer × List Effect)
  | order :: rest, entry :: entries =>
    if order.command.settles then entry :: entries else veiledEntry entry :: untilSettled rest entries
  | _, entries => entries

-- A player that waits for nothing, and knows nothing of the time.
structure Dormant (player : Player) : Prop where
  idle : player.state = .idle
  pending : player.pending = none
  untimed : player.clock.timeline = none

section Dormant

variable {player : Player}

theorem Dormant.seek {log : Log} (now : Nat) (fraction : Binary64) (h : Dormant player)
    (hlog : player.log = some log) :
    player.seek now fraction =
      if fraction.within (Binary64.Finite.zero false) Binary64.Finite.one && log.lineCount ≠ 0 then
        (.moved, reporting [] { player with
          held := [],
          log := some (log.moveTo (max (lineOfShare log.lineCount fraction) player.clock.dataStart)) })
      else (.refused, quietly player) := by
  have hseekable : player.isSeekable := by simp [isSeekable, h.idle]
  by_cases hlines : log.lineCount = 0
  · simp [seek_eq, hlog, hseekable, landing?, h.untimed, hlines]
  · by_cases hwithin : fraction.within (Binary64.Finite.zero false) Binary64.Finite.one
    · simp [seek_eq, hlog, hseekable, landing?, h.untimed, hlines, hwithin, land, disarm, h.pending, h.idle,
        Step.andThen, announce, reporting, quietly]
    · simp [seek_eq, hlog, hwithin]

-- It has nothing to pause, to stop or to go on with.
theorem Dormant.still (now : Nat) (h : Dormant player) :
    player.pause = quietly player ∧ player.stop = quietly player ∧ player.tick now = quietly player ∧
      ∀ token, player.wake now token = quietly player := by
  refine ⟨?_, ?_, ?_, ?_⟩
  · simp [Player.pause, h.idle]
  · simp [Player.stop, h.idle]
  · simp [Player.tick, h.idle]
  · simp [Player.wake, h.pending]

theorem Dormant.veiled_status {other : Player} (h : Dormant player) (hother : Dormant other) :
    (Effect.update other.status).veiled = (Effect.update player.status).veiled := by
  simp [Effect.veiled, status, Clock.current?, h.idle, hother.idle, h.untimed, hother.untimed]

end Dormant

-- A player that has just something loaded, and does not know what.
structure Unsettled (player : Player) : Prop extends Dormant player where
  loaded : ∃ log, player.log = some log
  unknown : player.clock = Clock.unknown

theorem withLayout_alongside (player : Player) (speed : Speed) (anchor : Option Anchor) :
    withLayout { player with speed, anchor } = { player.withLayout with speed, anchor } := by
  cases hlayout : player.clock.layout with
  | some layout => simp [withLayout, hlayout]
  | none =>
    cases hlog : player.log with
    | none => simp [withLayout, hlayout, hlog]
    | some log =>
      rcases hfound : log.detectLayout with ⟨_ | ⟨layout, dataStart⟩, found⟩ <;>
        simp [withLayout, hlayout, hlog, hfound]

section Unsettled

variable {player : Player}

-- To know the layout changes no more than where the player stands.
theorem Unsettled.withLayout (h : Unsettled player) :
    ∃ log otherLog clock, player.log = some log ∧ otherLog.recording = log.recording ∧ clock.timeline = none ∧
      player.withLayout = { player with log := some otherLog, clock } := by
  obtain ⟨log, hlog⟩ := h.loaded
  have hcase := player.laidOut
  generalize player.withLayout = known at hcase
  cases hcase with
  | known | blank => exact ⟨log, log, player.clock, hlog, rfl, h.untimed, by rw [← hlog]⟩
  | found found hfound _ first =>
    exact ⟨found, found.moveTo (max found.next (Layout.ofFirst first).2), { player.clock with
      layout := some (Layout.ofFirst first).1, dataStart := (Layout.ofFirst first).2 },
      hfound, rfl, h.untimed, rfl⟩

theorem Unsettled.dormant (h : Unsettled player) : Dormant player.withLayout := by
  obtain ⟨log, otherLog, clock, -, -, htimeline, hwith⟩ := h.withLayout
  rw [hwith]
  exact ⟨h.idle, h.pending, htimeline⟩

-- A line before the data is no place to go to.
theorem Unsettled.moved {log otherLog : Log} (line : Nat) (h : Unsettled player) (hlog : player.log = some log)
    (hother : player.withLayout.log = some otherLog) :
    Player.withLayout
        { player with held := [], log := some (log.moveTo (max line player.clock.dataStart)) } =
      { player.withLayout with
        held := [], log := some (otherLog.moveTo (max line player.withLayout.clock.dataStart)) } := by
  have hlayout : player.clock.layout = none := by simp [h.unknown, Clock.unknown]
  have hstart : player.clock.dataStart = 0 := by simp [h.unknown, Clock.unknown]
  have hdetect : (log.moveTo (max line player.clock.dataStart)).detectLayout = log.detectLayout :=
    Log.detectLayout_congr rfl
  have hsame := Log.recording_detectLayout log
  rcases hfound : log.detectLayout with ⟨_ | ⟨layout, dataStart⟩, found⟩
  · have hrecording : found.recording = log.recording := by simpa [hfound] using hsame
    obtain rfl : found.moveTo log.next = otherLog := by simpa [Player.withLayout, hlayout, hlog, hfound] using hother
    have hplace : found.moveTo (log.moveTo (max line player.clock.dataStart)).next =
        found.moveTo (max line player.clock.dataStart) := by
      apply Log.moveTo_of_min
      simp [Log.moveTo, Log.lineCount, hrecording]
    simp [Player.withLayout, hlayout, hlog, hdetect, hfound, hplace, Log.moveTo_moveTo]
  · have hrecording : found.recording = log.recording := by simpa [hfound] using hsame
    obtain rfl : found.moveTo (max log.next dataStart) = otherLog := by
      simpa [Player.withLayout, hlayout, hlog, hfound] using hother
    have hplace : found.moveTo (max (log.moveTo (max line player.clock.dataStart)).next dataStart) =
        found.moveTo (max line dataStart) := by
      apply Log.moveTo_of_min
      simp only [Log.moveTo, Log.lineCount, hrecording, hstart]
      omega
    simp [Player.withLayout, hlayout, hlog, hdetect, hfound, hplace, Log.moveTo_moveTo]

-- Looking for the layout is what a start does first.
theorem Unsettled.run_of_settles (now : Nat) {command : Command} (h : Unsettled player)
    (hsettles : command.settles) : command.run now player.withLayout = command.run now player := by
  obtain ⟨log, otherLog, clock, hlog, hrecording, -, hwith⟩ := h.withLayout
  cases command with
  | load recording => simp [Command.run, Player.load, reset, Step.andThen, disarm, h.pending, hwith, announce]
  | loadFailed => simp [Command.run, Player.loadFailed, reset, Step.andThen, disarm, h.pending, hwith, announce]
  | scan =>
    have hmove := Log.moveTo_congr hrecording
    have hknown : player.withLayout.log = some otherLog := by rw [hwith]
    have hlock : player.withLayout.lockPrimary = player.lockPrimary := by rw [hwith]
    cases hscan : Scan.ofRecording player.lockPrimary log.recording with
    | error failure =>
      have hsame := scan_of_failure hknown (by rw [hlock, hrecording, hscan])
      simp only [Command.run, hsame, scan_of_failure hlog hscan]
      simp [hmove, hwith, calledOff]
    | ok outcome =>
      have hsame := scan_of_outcome hknown (by rw [hlock, hrecording, hscan])
      simp only [Command.run, hsame, scan_of_outcome hlog hscan]
      simp [hmove, hwith, calledOff]
  | start =>
    have hstart : player.CanStart := ⟨.inl h.idle, by simp [hlog]⟩
    have hstartKnown : player.withLayout.CanStart := ⟨.inl h.dormant.idle, by simp [hwith]⟩
    have hready : player.withLayout.readied now = player.readied now := by
      rw [readied, withLayout_withLayout, readied]
    have hrun : ∀ {player : Player}, player.CanStart →
        player.start now = (announce (player.readied now)).andThen (Player.tick now) := fun hcan => if_pos hcan
    simp only [Command.run, hrun hstart, hrun hstartKnown, hready]
  | pause | stop | tick | rebase | wake | seek | setSpeed => cases hsettles

-- What one order comes to for an unsettled player, and for the one that knows the layout.
structure SameButLayout (result known : Answer × Step) : Prop where
  answer : known.1 = result.1
  unsettled : Unsettled result.2.player
  player : known.2.player = result.2.player.withLayout
  effects : known.2.effects.map (·.veiled) = result.2.effects.map (·.veiled)

theorem Unsettled.refusing (answer : Answer) (h : Unsettled player) :
    SameButLayout (answer, quietly player) (answer, quietly player.withLayout) :=
  ⟨rfl, h, rfl, rfl⟩

theorem Unsettled.announcing (answer : Answer) (h : Unsettled player) :
    SameButLayout (answer, announce player) (answer, announce player.withLayout) :=
  ⟨rfl, h, rfl, congrArg (fun effect => [effect]) (h.toDormant.veiled_status h.dormant)⟩

theorem Unsettled.alongside (speed : Speed) (anchor : Option Anchor) (h : Unsettled player) :
    Unsettled { player with speed, anchor } :=
  ⟨⟨h.idle, h.pending, h.untimed⟩, h.loaded, h.unknown⟩

theorem Unsettled.rebase (now : Nat) (h : Unsettled player) :
    SameButLayout (.done, quietly (player.rebase now)) (.done, quietly (player.withLayout.rebase now)) := by
  have hrebase : player.rebase now = { player with anchor := none } := by simp [Player.rebase, h.untimed]
  have hrebaseKnown : player.withLayout.rebase now = { player.withLayout with anchor := none } := by
    simp [Player.rebase, h.dormant.untimed]
  have hspeed : player.withLayout.speed = player.speed := by
    obtain ⟨log, otherLog, clock, -, -, -, hwith⟩ := h.withLayout
    rw [hwith]
  have halong := withLayout_alongside player player.speed none
  have hsame : player.withLayout.rebase now = (player.rebase now).withLayout := by
    rw [hrebase, hrebaseKnown, halong, ← hspeed]
  rw [hsame, hrebase]
  exact (h.alongside player.speed none).refusing .done

theorem Unsettled.seek (now : Nat) (fraction : Binary64) (h : Unsettled player) :
    SameButLayout (Command.run now player (.seek fraction)) (Command.run now player.withLayout (.seek fraction)) := by
  obtain ⟨log, otherLog, clock, hlog, hrecording, -, hwith⟩ := h.withLayout
  have hother : player.withLayout.log = some otherLog := by rw [hwith]
  have hline : otherLog.lineCount = log.lineCount := congrArg Recording.lineCount hrecording
  have hseek := h.toDormant.seek now fraction hlog
  have hseekKnown := h.dormant.seek now fraction hother
  rw [hline] at hseekKnown
  by_cases hgoes : fraction.within (Binary64.Finite.zero false) Binary64.Finite.one && log.lineCount ≠ 0
  · rw [if_pos hgoes] at hseek hseekKnown
    have hmoved := h.moved (lineOfShare log.lineCount fraction) hlog hother
    rw [← hmoved] at hseekKnown
    simp only [Command.run, hseek, hseekKnown]
    apply Unsettled.announcing
    exact ⟨⟨h.idle, h.pending, h.untimed⟩, ⟨_, rfl⟩, h.unknown⟩
  · rw [if_neg hgoes] at hseek hseekKnown
    simp only [Command.run, hseek, hseekKnown]
    exact h.refusing (.sought .refused)

theorem Unsettled.setSpeed (now : Nat) (number : Binary64) (h : Unsettled player) :
    SameButLayout (Command.run now player (.setSpeed number))
      (Command.run now player.withLayout (.setSpeed number)) := by
  cases hspeed : Speed.ofNumber? number with
  | none =>
    simp only [Command.run, Player.setSpeed, hspeed]
    exact h.refusing .done
  | some speed =>
    have halong := withLayout_alongside player speed player.anchor
    have hanchor : player.withLayout.anchor = player.anchor := by
      obtain ⟨log, otherLog, clock, -, -, -, hwith⟩ := h.withLayout
      rw [hwith]
    have hsame : { player.withLayout with speed } = Player.withLayout { player with speed } := by
      rw [halong, ← hanchor]
    have hset : Command.run now player (.setSpeed number) = (.done, announce { player with speed }) := by
      simp [Command.run, Player.setSpeed, hspeed, h.idle]
    have hsetKnown : Command.run now player.withLayout (.setSpeed number) =
        (.done, announce { player.withLayout with speed }) := by
      simp [Command.run, Player.setSpeed, hspeed, h.dormant.idle]
    rw [hset, hsetKnown, hsame]
    exact (h.alongside speed player.anchor).announcing .done

-- Whatever else is ordered, the layout makes a difference to the progress only.
theorem Unsettled.run (now : Nat) {command : Command} (h : Unsettled player) (hsettles : command.settles = false) :
    SameButLayout (command.run now player) (command.run now player.withLayout) := by
  obtain ⟨hpause, hstop, htick, hwake⟩ := h.still now
  obtain ⟨hpauseKnown, hstopKnown, htickKnown, hwakeKnown⟩ := h.dormant.still now
  cases command with
  | load | loadFailed | scan | start => cases hsettles
  | pause =>
    simp only [Command.run, hpause, hpauseKnown]
    exact h.refusing .done
  | stop =>
    simp only [Command.run, hstop, hstopKnown]
    exact h.refusing .done
  | tick =>
    simp only [Command.run, htick, htickKnown]
    exact h.refusing .done
  | wake token =>
    simp only [Command.run, hwake, hwakeKnown]
    exact h.refusing .done
  | rebase => exact h.rebase now
  | seek fraction => exact h.seek now fraction
  | setSpeed number => exact h.setSpeed now number

theorem Unsettled.transcript (orders : List Order) (h : Unsettled player) :
    untilSettled orders (player.withLayout.transcript orders) = untilSettled orders (player.transcript orders) := by
  induction orders generalizing player with
  | nil => rfl
  | cons order rest ih =>
    cases hsettles : order.command.settles with
    | true => simp only [Player.transcript, h.run_of_settles order.now hsettles]
    | false =>
      have hsame := h.run order.now hsettles
      simp [Player.transcript, untilSettled, hsettles, hsame.answer, hsame.player, veiledEntry, hsame.effects,
        ih hsame.unsettled]

end Unsettled

theorem untilSettled_reframed (frame : Frame) (orders : List Order) (entries : List (Answer × List Effect)) :
    untilSettled (orders.map (·.reframed frame)) entries = untilSettled orders entries := by
  induction orders generalizing entries with
  | nil => rfl
  | cons order rest ih =>
    cases entries with
    | nil => rfl
    | cons entry entries =>
      have hsettles : (order.reframed frame).command.settles = order.command.settles := by
        cases hcommand : order.command <;> simp [Order.reframed, Command.reframed, hcommand, Command.settles]
      simp only [List.map_cons, untilSettled, hsettles, ih]

-- Two players that go on alike, but for the progress that is told until the layout is settled.
structure SetsOutLike (base : Nat) (first second : Player) : Prop where
  alike : ∀ (orders : List Order) (early late : Nat),
    untilSettled orders (first.transcript (orders.map (·.reframed ⟨base, early⟩))) =
      untilSettled orders ((second.transcript (orders.map (·.reframed ⟨0, late⟩))).map (reframedEntry ⟨base, 0⟩))
  counted : ∀ orders, ∀ entry ∈ second.transcript orders, ∀ effect ∈ entry.2, ∀ token,
    effect.token? = some token → base < token

theorem setsOutLike_of_unsettled {base : Nat} {first second : Player} (h : Unsettled first)
    (hgoes : GoesOnLike base first.withLayout second) : SetsOutLike base first second := by
  refine ⟨fun orders early late => ?_, hgoes.counted⟩
  have hsettled := h.transcript (orders.map (·.reframed ⟨base, early⟩))
  rw [untilSettled_reframed, untilSettled_reframed] at hsettled
  rw [← hsettled, hgoes.alike orders early late]

section Stop

variable {config : Config} {player twin : Player} {log : Log}

-- A new player that sets out as this one does stands where the stop takes this one, but for its count.
theorem outset_of_sameOutset (h : twin.SameOutset player) (hspeed : twin.speed = player.speed)
    (hissued : twin.issued = 0) : twin.outset = { player.outset with issued := 0 } := by
  have hspeedOut := speed_outset twin
  have hissuedOut := issued_outset twin
  rw [h]
  generalize twin.outset = out at hspeedOut hissuedOut
  rw [← hspeed, ← hspeedOut, ← hissued, ← hissuedOut]

theorem scanned_outset (hlog : player.log = some log) : Scanned log player.outset := by
  have hcase := player.laidOut
  unfold outset
  generalize player.withLayout = known at hcase
  cases hcase with
  | known | blank => exact ⟨⟨player.clock.dataStart, by simp [halted, hlog]⟩, rfl, rfl, rfl⟩
  | found found hfound =>
    obtain rfl := Option.some.inj (hlog.symm.trans hfound)
    exact ⟨⟨_, rfl⟩, rfl, rfl, rfl⟩

-- Wherever playback is stopped, the player goes on as a new one does that is as fast and has just loaded the
-- recording, and scanned it if this one had. It cannot have been scanned in vain.
theorem stop_sets_out_anew (now : Nat) (h : Reachable config player)
    (hstate : player.state = .playing ∨ player.state = .paused) :
    (player.obey ⟨now, .stop⟩).player.state = .idle ∧ (player.obey ⟨now, .stop⟩).player.pending = none ∧
      ∃ log, player.log = some log ∧
        (Holding config log.recording true player ∨ Holding config log.recording false player) ∧
        (Holding config log.recording true player →
          (∃ report, (scan (anew config player log)).1 = .ok report) ∧
          GoesOnLike player.issued (scan (anew config player log)).2.player
            (player.obey ⟨now, .stop⟩).player) ∧
        (Holding config log.recording false player →
          SetsOutLike player.issued (anew config player log) (player.obey ⟨now, .stop⟩).player) := by
  obtain ⟨log, hlog⟩ := h.steady.loaded_of_begun hstate
  have hstop : (player.obey ⟨now, .stop⟩).player = player.outset := stop_of_begun h.steady.toReady hstate
  have hscanned := scanned_outset hlog
  have hissued := issued_outset player
  rw [hstop]
  refine ⟨rfl, rfl, log, hlog, ?_, fun hholding => ?_, fun hholding => ?_⟩
  · obtain ⟨scanned, hholding⟩ := h.holding hlog
    cases scanned with
    | false => exact .inr hholding
    | true => exact .inl hholding
  · have hanew : (anew config player log).log = some (Log.start log.recording) := rfl
    cases hscan : Scan.ofRecording config.lockPrimary log.recording with
    | error failure =>
      have herror := hholding.failed hscan rfl
      rcases hstate with hstate | hstate <;> simp [hstate] at herror
    | ok outcome =>
      have hstep := scan_of_outcome hanew hscan
      refine ⟨⟨outcome.report, congrArg (·.1) hstep⟩, ?_⟩
      have hfresh : (fresh config log.recording true).SameOutset (scan (anew config player log)).2.player :=
        sameOutset_scan rfl hanew rfl ⟨rfl, rfl⟩
      have hspeed : (scan (anew config player log)).2.player.speed = player.speed :=
        (speed_scan hanew).trans speed_anew
      have hcount : (scan (anew config player log)).2.player.issued = 0 := by rw [hstep]; rfl
      have htwin := outset_of_sameOutset (hfresh.symm.trans hholding.sameOutset) hspeed hcount
      rw [outset_scan hanew hscan] at htwin
      exact hissued ▸ goesOnLike_of_scanned hscanned htwin
  · have hfresh : (fresh config log.recording false).SameOutset (anew config player log) :=
      SameCourse.sameOutset ⟨⟨rfl, rfl⟩, rfl, rfl, rfl⟩
    have htwin := outset_of_sameOutset (hfresh.symm.trans hholding.sameOutset) speed_anew rfl
    rw [outset_anew] at htwin
    have hunsettled : Unsettled (anew config player log) := ⟨⟨rfl, rfl, rfl⟩, ⟨_, rfl⟩, rfl⟩
    exact setsOutLike_of_unsettled hunsettled (hissued ▸ goesOnLike_of_scanned hscanned htwin)

end Stop

-- It has played ten of the twelve messages below the header, and nothing was scanned.
def unscannedPlayer : Player :=
  ((Player.new Config.default).obeyAll (⟨0, .load commentedTable⟩ :: unscannedOrders)).player

-- A player that was hurried and sent back sets out anew, and so does one that does not know the time.
theorem stop_sets_out_anew_hurried_or_unscanned :
    Reachable Config.default hurriedPlayer ∧ hurriedPlayer.state = .playing ∧
      Holding Config.default threeMessages true hurriedPlayer ∧
      Reachable Config.default unscannedPlayer ∧ unscannedPlayer.state = .paused ∧
      Holding Config.default commentedTable false unscannedPlayer ∧
      (∃ log, hurriedPlayer.log = some log ∧
        GoesOnLike 4 (scan (anew Config.default hurriedPlayer log)).2.player
          (hurriedPlayer.obey ⟨5000000000, .stop⟩).player) ∧
      ∃ log, unscannedPlayer.log = some log ∧
        SetsOutLike 1 (anew Config.default unscannedPlayer log) (unscannedPlayer.obey ⟨2, .stop⟩).player := by
  have hscanned : Holding Config.default threeMessages true hurriedPlayer := by
    have hloaded : Holding Config.default threeMessages false _ := .load 0 .new
    refine (hloaded.scan 0).playAll [⟨0, .start⟩, ⟨1000000000, .setSpeed (Binary64.ofNat 2)⟩,
      ⟨1000000000, .wake 2⟩, ⟨2000000000, .seek Binary64.zero⟩] ?_
    simp [Command.Plays]
  have hunscanned : Holding Config.default commentedTable false unscannedPlayer := by
    have hloaded : Holding Config.default commentedTable false _ := .load 0 .new
    refine hloaded.playAll unscannedOrders ?_
    simp [unscannedOrders, Command.Plays]
  have hplaying : hurriedPlayer.state = .playing := by decide +kernel
  have hpaused : unscannedPlayer.state = .paused := by decide +kernel
  have hissued : hurriedPlayer.issued = 4 := by decide +kernel
  have hcount : unscannedPlayer.issued = 1 := by decide +kernel
  refine ⟨hscanned.reachable, hplaying, hscanned, hunscanned.reachable, hpaused, hunscanned, ?_, ?_⟩
  · obtain ⟨-, -, log, hlog, -, hgoes, -⟩ := stop_sets_out_anew 5000000000 hscanned.reachable (.inl hplaying)
    obtain ⟨held, hheld, hrecording⟩ := hscanned.loaded
    obtain rfl := Option.some.inj (hlog.symm.trans hheld)
    exact ⟨log, hlog, hissued ▸ (hgoes (hrecording ▸ hscanned)).2⟩
  · obtain ⟨-, -, log, hlog, -, -, hsets⟩ := stop_sets_out_anew 2 hunscanned.reachable (.inr hpaused)
    obtain ⟨held, hheld, hrecording⟩ := hunscanned.loaded
    obtain rfl := Option.some.inj (hlog.symm.trans hheld)
    exact ⟨log, hlog, hcount ▸ hsets (hrecording ▸ hunscanned)⟩

end Player

end VoyageLog
