import VoyageLog.Proofs.Playback.Commands
import VoyageLog.Proofs.Playback.Reads

namespace VoyageLog.Player

-- A command, and what the wall shows when it is given.
structure Order where
  now : Nat
  command : Command

def obey (player : Player) (order : Order) : Step := (order.command.run order.now player).2

theorem obeying (player : Player) (now : Nat) (command : Command) :
    ∃ result, command.run now player = result ∧ Obeyed now player command result ∧
      player.obey ⟨now, command⟩ = result.2 :=
  ⟨_, rfl, obeyed now player command, rfl⟩

-- All orders in turn, with the effects of all of them.
def obeyAll (player : Player) : List Order → Step
  | [] => quietly player
  | order :: rest => (player.obey order).andThen fun next => next.obeyAll rest

theorem obey_of_refused {player : Player} {now : Nat} {fraction : Binary64}
    (h : (player.seek now fraction).1 = .refused) : player.obey ⟨now, .seek fraction⟩ = quietly player :=
  seek_of_not_moved (by simp [h])

inductive Reachable (config : Config) : Player → Prop
  | new : Reachable config (Player.new config)
  | obey {player : Player} (order : Order) (h : Reachable config player) :
      Reachable config (player.obey order).player

theorem Reachable.obeyAll {config : Config} {player : Player} (orders : List Order)
    (h : Reachable config player) : Reachable config (player.obeyAll orders).player := by
  induction orders generalizing player with
  | nil => exact h
  | cons order rest ih => exact ih (h.obey order)

-- What a layout that is looked for can turn out to be.
inductive LaidOut (player : Player) : Player → Prop
  | known (hknown : player.clock.layout.isSome ∨ player.log = none) : LaidOut player player
  | blank (log : Log) (hlog : player.log = some log) (hlayout : player.clock.layout = none)
      (hrecords : log.recording.records = []) : LaidOut player player
  | found (log : Log) (hlog : player.log = some log) (hlayout : player.clock.layout = none)
      (first : Record) (rest : List Record) (hrecords : log.recording.records = first :: rest) :
      LaidOut player { player with
        log := some (log.moveTo (max log.next (Layout.ofFirst first).2)),
        clock := { player.clock with
          layout := some (Layout.ofFirst first).1, dataStart := (Layout.ofFirst first).2 } }

theorem laidOut (player : Player) : LaidOut player player.withLayout := by
  cases hlog : player.log with
  | none =>
    have hwith : player.withLayout = player := by
      cases hlayout : player.clock.layout <;> simp [withLayout, hlayout, hlog]
    rw [hwith]
    exact .known (.inr hlog)
  | some log =>
    cases hlayout : player.clock.layout with
    | some layout =>
      have hwith : player.withLayout = player := by simp [withLayout, hlayout]
      rw [hwith]
      exact .known (.inl (by simp [hlayout]))
    | none =>
      have hunread : (log.moveTo 0).unread = log.recording.records := by
        simp [Log.unread, Log.moveTo, Recording.recordsAt_zero]
      cases hrecords : log.recording.records with
      | nil =>
        have hwith : player.withLayout = player := by
          rw [hrecords] at hunread
          simp only [withLayout, hlayout, hlog, Log.detectLayout, Log.read, hunread]
          have hback : ((log.moveTo 0).moveTo (log.moveTo 0).lineCount).moveTo log.next = log := log.moveTo_next
          rw [hback, ← hlog]
        rw [hwith]
        exact .blank log hlog hlayout hrecords
      | cons first rest =>
        have hwith := LaidOut.found log hlog hlayout first rest hrecords
        rw [hrecords] at hunread
        convert hwith using 1
        simp only [withLayout, hlayout, hlog, Log.detectLayout, Log.read, hunread]
        rfl

-- What holds of a player that is about to tick.
structure Ready (player : Player) : Prop where
  held : player.held = []
  loaded : player.log = none → player.state = .idle ∨ player.state = .error
  laidOut : player.state = .playing ∨ player.state = .paused → ∀ log, player.log = some log →
    player.clock.layout = none → log.recording.records = []

-- What holds of a player between two orders.
structure Steady (player : Player) : Prop extends Ready player where
  armed : player.state = .playing ↔ player.pending.isSome

-- It does not matter what the player waits for.
theorem Ready.withPending {player : Player} (pending : Option Token) (hready : Ready player) :
    Ready { player with pending } :=
  ⟨hready.held, hready.loaded, hready.laidOut⟩

theorem Ready.loaded_of_begun {player : Player} (hready : Ready player)
    (hstate : player.state = .playing ∨ player.state = .paused) : ∃ log, player.log = some log := by
  cases hlog : player.log with
  | none =>
    have hidle := hready.loaded hlog
    rcases hstate with hstate | hstate <;> simp [hstate] at hidle
  | some log => exact ⟨log, rfl⟩

-- A player that has begun to play has no layout to look for.
theorem Ready.withLayout_of_begun {player : Player} (hready : Ready player)
    (hstate : player.state = .playing ∨ player.state = .paused) : player.withLayout = player := by
  have hcase := player.laidOut
  generalize player.withLayout = known at hcase
  cases hcase with
  | known => rfl
  | blank => rfl
  | found log hlog hlayout first rest hrecords =>
    have hnone := hready.laidOut hstate log hlog hlayout
    simp [hrecords] at hnone

theorem Ready.tick {player : Player} (now : Nat) (hready : Ready player)
    (hstate : player.state = .playing) : Steady (tick now player).player := by
  have hcase := ticked now player
  generalize Player.tick now player = step at hcase
  cases hcase with
  | still hstill => exact absurd hstate hstill
  | unloaded _ hlog =>
    have hidle := hready.loaded hlog
    simp [hstate] at hidle
  | ended _ log hlog taken htaken =>
    exact ⟨⟨rfl, by simp, by simp⟩, by simp⟩
  | waits _ log hlog taken line delay htaken =>
    have hrested := rested_of_takeAll htaken
    have hplaying : taken.state = .playing := (congrArg Player.state hrested).trans hstate
    have hlayout : taken.clock.layout = player.clock.layout := congrArg (·.clock.layout) hrested
    refine ⟨⟨rfl, by simp, ?_⟩, by simp [hplaying]⟩
    intro _ moved hmoved hnone
    have hrecords := hready.laidOut (.inl hstate) log hlog (hlayout ▸ hnone)
    simp only [reporting_player, Option.some.injEq] at hmoved
    simpa [← hmoved, Log.moveTo] using hrecords

theorem Steady.new (config : Config) : Steady (Player.new config) :=
  ⟨⟨rfl, fun _ => .inl rfl, by simp [Player.new]⟩, by simp [Player.new]⟩

-- A player that may start knows its layout from then on, unless there is nothing to play.
theorem Steady.readied {player : Player} (now : Nat) (hsteady : Steady player)
    (hstart : player.CanStart) : Ready (player.readied now) := by
  obtain ⟨hstate, hlog⟩ := hstart
  have hcase := player.laidOut
  unfold Player.readied
  generalize player.withLayout = known at hcase
  cases hcase with
  | known hknown =>
    refine ⟨hsteady.held, ?_, ?_⟩
    · intro hnone
      simp [show player.log = none from hnone] at hlog
    · intro _ log hsome hnone
      rcases hknown with hknown | hknown
      · simp [show player.clock.layout = none from hnone] at hknown
      · simp [hknown] at hlog
  | blank log hsome hnone hrecords =>
    refine ⟨hsteady.held, ?_, ?_⟩
    · intro hnone
      simp [show player.log = none from hnone] at hlog
    · intro _ other hother _
      have hlog : player.log = some other := hother
      obtain rfl : log = other := by simpa [hsome] using hlog
      exact hrecords
  | found log hsome hnone first rest hrecords =>
    exact ⟨hsteady.held, by simp [rebase], by simp [rebase]⟩

theorem Ready.landed {player : Player} {log : Log} (landing : Landing) (hready : Ready player)
    (hlog : player.log = some log) : Ready (player.landed landing log) := by
  refine ⟨rfl, by simp [Player.landed], ?_⟩
  intro hstate moved hmoved hnone
  have hlayout : (player.landed landing log).clock.layout = player.clock.layout := by
    unfold Player.landed
    cases landing.instant <;> rfl
  have hrecords := hready.laidOut hstate log hlog (hlayout ▸ hnone)
  simp only [Player.landed, Option.some.injEq] at hmoved
  simpa [← hmoved, Log.moveTo] using hrecords

theorem Steady.obey {player : Player} (order : Order) (hsteady : Steady player) :
    Steady (player.obey order).player := by
  obtain ⟨now, command⟩ := order
  obtain ⟨result, -, hcase, hobey⟩ := player.obeying now command
  rw [hobey]
  cases hcase with
  | load recording => exact ⟨⟨rfl, by simp, by simp⟩, by simp⟩
  | loadFailed => exact ⟨⟨rfl, by simp, by simp⟩, by simp⟩
  | scanUnloaded hlog =>
    have hidle := hsteady.loaded hlog
    exact ⟨⟨rfl, fun _ => hidle, by simp [hlog]⟩, by rcases hidle with h | h <;> simp [h]⟩
  | scanFailed => exact ⟨⟨rfl, by simp, by simp⟩, by simp⟩
  | scan => exact ⟨⟨rfl, by simp, by simp⟩, by simp⟩
  | start hstart => exact (hsteady.readied now hstart).tick now rfl
  | startRefused => exact hsteady
  | pause hstate =>
    refine ⟨⟨hsteady.held, ?_, fun _ => hsteady.laidOut (.inl hstate)⟩, by simp⟩
    intro hlog
    have hidle := hsteady.loaded hlog
    simp [hstate] at hidle
  | pauseRefused => exact hsteady
  | stop => exact ⟨⟨rfl, by simp, by simp⟩, by simp⟩
  | stopRefused => exact hsteady
  | tick =>
    by_cases hstate : player.state = .playing
    · exact hsteady.toReady.tick now hstate
    · have hstill : Player.tick now player = quietly player := by simp [Player.tick, hstate]
      rw [hstill]
      exact hsteady
  | rebase => exact ⟨⟨hsteady.held, hsteady.loaded, hsteady.laidOut⟩, hsteady.armed⟩
  | wake token hpending =>
    have hstate : player.state = .playing := hsteady.armed.mpr (by simp [hpending])
    exact (hsteady.toReady.withPending none).tick now hstate
  | wakeRefused => exact hsteady
  | seekRefused => exact hsteady
  | seekPlaying fraction log hlog landing hlanding hstate =>
    have hready := hsteady.toReady.landed landing hlog
    exact ⟨⟨hready.held, hready.loaded, hready.laidOut⟩, by simp [landed, Player.rebase, hstate]⟩
  | seek fraction log hlog landing hlanding hstate =>
    refine ⟨hsteady.toReady.landed landing hlog, ?_⟩
    rcases hstate with h | h <;> simp [landed, h]
  | speedRefused => exact hsteady
  | speedPlaying number speed hspeed hstate =>
    exact ⟨⟨hsteady.held, hsteady.loaded, hsteady.laidOut⟩, by simp [Player.rebase, hstate]⟩
  | speed number speed hspeed hstate =>
    exact ⟨⟨hsteady.held, hsteady.loaded, hsteady.laidOut⟩, hsteady.armed⟩

theorem Reachable.steady {config : Config} {player : Player} (h : Reachable config player) :
    Steady player := by
  induction h with
  | new => exact Steady.new config
  | obey order _ ih => exact ih.obey order

-- What a player was set up with for all that it plays.
structure SameSetup (player other : Player) : Prop where
  capacity : other.capacity = player.capacity
  lockPrimary : other.lockPrimary = player.lockPrimary

theorem sameSetup_tick (now : Nat) (player : Player) : player.SameSetup (tick now player).player := by
  obtain ⟨log, state, pending, issued, hrested⟩ := rested_tick now player
  have hcapacity := congrArg Player.capacity hrested
  have hlock := congrArg Player.lockPrimary hrested
  exact ⟨hcapacity, hlock⟩

theorem sameSetup_readied (now : Nat) (player : Player) : player.SameSetup (player.readied now) := by
  have hcase := player.laidOut
  unfold readied
  generalize player.withLayout = known at hcase
  cases hcase <;> exact ⟨rfl, rfl⟩

-- No order changes it.
theorem sameSetup_obey (player : Player) (order : Order) :
    player.SameSetup (player.obey order).player := by
  obtain ⟨now, command⟩ := order
  obtain ⟨result, -, hcase, hobey⟩ := player.obeying now command
  rw [hobey]
  cases hcase with
  | start =>
    have hready := sameSetup_readied now player
    have htick := sameSetup_tick now (player.readied now)
    exact ⟨htick.capacity.trans hready.capacity, htick.lockPrimary.trans hready.lockPrimary⟩
  | tick => exact sameSetup_tick now player
  | wake =>
    have htick := sameSetup_tick now { player with pending := none }
    exact ⟨htick.capacity, htick.lockPrimary⟩
  | _ => exact ⟨rfl, rfl⟩

theorem capacity_obey (player : Player) (order : Order) :
    (player.obey order).player.capacity = player.capacity :=
  (sameSetup_obey player order).capacity

theorem Reachable.capacity {config : Config} {player : Player} (h : Reachable config player) :
    player.capacity = max config.capacity batchSize := by
  induction h with
  | new => rfl
  | obey order _ ih => rw [capacity_obey, ih]

theorem Reachable.capacity_pos {config : Config} {player : Player} (h : Reachable config player) :
    0 < player.capacity := by
  rw [h.capacity, batchSize]
  omega

theorem Reachable.lockPrimary {config : Config} {player : Player} (h : Reachable config player) :
    player.lockPrimary = config.lockPrimary := by
  induction h with
  | new => rfl
  | obey order _ ih => rw [(sameSetup_obey _ order).lockPrimary, ih]

-- The playing player that an order has tick, if it has one tick.
def ticking? (player : Player) (order : Order) : Option Player :=
  let ready? : Option Player := match order.command with
    | .start => if player.CanStart then some (player.readied order.now) else none
    | .tick => some player
    | .wake token => if player.pending = some token then some { player with pending := none } else none
    | _ => none
  ready?.filter fun ready => ready.state = .playing

-- The records that an order has a tick take, each with the player that takes it.
def orderReads (player : Player) (order : Order) : List (Record × Player) :=
  match player.ticking? order with
  | some ready => tickReads order.now ready
  | none => []

end VoyageLog.Player
