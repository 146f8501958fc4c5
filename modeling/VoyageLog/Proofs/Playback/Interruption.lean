import VoyageLog.Proofs.Playback.Run

namespace VoyageLog.Player

-- One tick of a run: the cursor before and after it, the records that it takes, and what it sends out.
structure Leg where
  first : Nat
  beyond : Nat
  taken : List Record
  sent : List Text

def line (player : Player) : Nat :=
  match player.log with
  | some log => log.next
  | none => 0

def legs (player : Player) : List Order → List Leg
  | [] => []
  | order :: rest =>
    let step := player.obey order
    let later := step.player.legs rest
    if (player.ticking? order).isSome then
      ⟨player.line, step.player.line, (player.orderReads order).map (·.1), emitted step.effects⟩ :: later
    else later

def Contiguous : Nat → List Leg → Nat → Prop
  | line, [], last => line = last
  | line, leg :: rest, last => leg.first = line ∧ line ≤ leg.beyond ∧ Contiguous leg.beyond rest last

-- Orders that neither load nor scan a recording, nor move playback: a seek is one only if it is refused.
def Interrupts (player : Player) (order : Order) : Prop :=
  match order.command with
  | .start | .pause | .tick | .rebase | .wake _ | .setSpeed _ => True
  | .seek fraction => (player.seek order.now fraction).1 = .refused
  | .load _ | .loadFailed | .scan | .stop => False

def AllInterrupt (player : Player) : List Order → Prop
  | [] => True
  | order :: rest => player.Interrupts order ∧ (player.obey order).player.AllInterrupt rest

-- What an order does to the recording that is played, said once for all of them.
structure Passes (player : Player) (log : Log) (order : Order) (after : Log) : Prop where
  moved : (player.obey order).player.log = some after
  recording : after.recording = log.recording
  forward : log.next ≤ after.next
  taken : (player.orderReads order).map (·.1) = log.recording.stretch log.next after.next
  sent : emitted (player.obey order).effects =
    (((player.orderReads order).map (·.1)).filterMap
      (·.payload? player.clock.layout)).rtake player.capacity
  layout : (player.obey order).player.clock.layout = player.clock.layout
  going : player.state ≠ .idle → (player.obey order).player.state ≠ .idle
  still : player.ticking? order = none → after = log

theorem layout_tick (now : Nat) (player : Player) :
    (tick now player).player.clock.layout = player.clock.layout := by
  obtain ⟨log, state, pending, issued, hrested⟩ := rested_tick now player
  have hlayout := congrArg (·.clock.layout) hrested
  exact hlayout

theorem tick_state_ne_idle {player : Player} (now : Nat) (hstate : player.state ≠ .idle) :
    (tick now player).player.state ≠ .idle := by
  have hcase := ticked now player
  generalize tick now player = step at hcase
  cases hcase with
  | still => exact hstate
  | unloaded => simp
  | ended => simp
  | waits _ log _ taken line delay htaken =>
    have hrested := rested_of_takeAll htaken
    have hsame := congrArg Player.state hrested
    exact fun hidle => hstate (hsame.symm.trans hidle)

-- A tick passes over what it takes; `ready` is the player as the order hands it to the tick.
theorem passes_of_ticking {player : Player} {log : Log} {order : Order} (ready : Player) (news : List Effect)
    (hticking : player.ticking? order = some ready)
    (hstep : player.obey order = ⟨(tick order.now ready).player, news ++ (tick order.now ready).effects⟩)
    (hnews : emitted news = []) (hlog : ready.log = some log) (hheld : ready.held = [])
    (hcapacity : ready.capacity = player.capacity) (hpos : 0 < player.capacity)
    (hlayout : ready.clock.layout = player.clock.layout) (hstate : ready.state ≠ .idle) :
    ∃ after, player.Passes log order after := by
  obtain ⟨after, hafter, hrecording, hforward, htaken⟩ := tick_stretch order.now hlog
  have hreads : player.orderReads order = tickReads order.now ready := by
    simp [orderReads, hticking]
  have hsent := emitted_tick order.now hheld (hcapacity ▸ hpos)
  refine ⟨after, ?_, hrecording, hforward, hreads ▸ htaken, ?_, ?_, ?_, by simp [hticking]⟩
  · rw [hstep]
    exact hafter
  · rw [hstep, emitted_append, hnews, List.nil_append, hsent, hreads, hcapacity, hlayout]
  · rw [hstep]
    exact (layout_tick order.now ready).trans hlayout
  · intro _
    rw [hstep]
    exact tick_state_ne_idle order.now hstate

-- An order that has no tick leaves the cursor and sends nothing.
theorem passes_of_still {player : Player} {log : Log} {order : Order}
    (hticking : player.ticking? order = none) (hlog : (player.obey order).player.log = some log)
    (hsent : emitted (player.obey order).effects = [])
    (hlayout : (player.obey order).player.clock.layout = player.clock.layout)
    (hstate : player.state ≠ .idle → (player.obey order).player.state ≠ .idle) :
    player.Passes log order log := by
  have hreads : player.orderReads order = [] := by simp [orderReads, hticking]
  exact ⟨hlog, rfl, Nat.le_refl _, by simp [hreads], by simp [hreads, hsent, List.rtake], hlayout, hstate,
    fun _ => rfl⟩

theorem passes_of_quietly {player : Player} {log : Log} {order : Order}
    (hticking : player.ticking? order = none) (hobey : player.obey order = quietly player)
    (hlog : player.log = some log) : player.Passes log order log := by
  apply passes_of_still hticking
  · rw [hobey]
    exact hlog
  · rw [hobey]
    rfl
  · rw [hobey]
    rfl
  · rw [hobey]
    exact id

-- A start that had to look for the layout would move the cursor by itself.
theorem passes_of_interrupts {player : Player} {log : Log} {order : Order} (hsteady : Steady player)
    (hpos : 0 < player.capacity) (hlaid : player.CanStart → player.withLayout = player)
    (hlog : player.log = some log) (horder : player.Interrupts order) :
    ∃ after, player.Passes log order after := by
  obtain ⟨now, command⟩ := order
  obtain ⟨result, hrun, hcase, hobey⟩ := player.obeying now command
  cases hcase with
  | load | loadFailed | scanUnloaded | scanFailed | scan | stop | stopRefused => exact horder.elim
  | start hstart =>
    have hwith := hlaid hstart
    have hready : player.readied now = rebase now { player with state := .playing } := by
      rw [readied, hwith]
    refine passes_of_ticking (player.readied now) [.update (player.readied now).status]
      ?_ hobey rfl ?_ ?_ ?_ hpos ?_ ?_
    · simp [ticking?, hstart, readied, rebase]
    · rw [hready]
      exact hlog
    · rw [hready]
      exact hsteady.held
    · rw [hready]
      rfl
    · rw [hready]
      rfl
    · simp [readied, rebase]
  | startRefused hstart =>
    exact ⟨log, passes_of_quietly (by simp [ticking?, hstart]) hobey hlog⟩
  | pause hplaying =>
    refine ⟨log, passes_of_still ?_ ?_ ?_ ?_ ?_⟩ <;> simp [hobey, ticking?, hlog, calledOff]
  | pauseRefused => exact ⟨log, passes_of_quietly (by simp [ticking?]) hobey hlog⟩
  | tick =>
    by_cases hplaying : player.state = .playing
    · exact passes_of_ticking player [] (by simp [ticking?, hplaying]) hobey rfl hlog
        hsteady.held rfl hpos rfl (by simp [hplaying])
    · have hstill : Player.tick now player = quietly player := by simp [Player.tick, hplaying]
      have hquiet : player.obey ⟨now, .tick⟩ = quietly player := hobey.trans hstill
      exact ⟨log, passes_of_quietly (by simp [ticking?, hplaying]) hquiet hlog⟩
  | rebase =>
    refine ⟨log, passes_of_still ?_ ?_ ?_ ?_ ?_⟩ <;>
      simp [hobey, ticking?, Player.rebase, hlog]
  | wake token hpending =>
    have hplaying : player.state = .playing := hsteady.armed.mpr (by simp [hpending])
    exact passes_of_ticking { player with pending := none } []
      (by simp [ticking?, hpending, hplaying]) hobey rfl hlog hsteady.held rfl hpos rfl
      (by simp [hplaying])
  | wakeRefused token hpending =>
    exact ⟨log, passes_of_quietly (by simp [ticking?, hpending]) hobey hlog⟩
  | seekRefused => exact ⟨log, passes_of_quietly (by simp [ticking?]) hobey hlog⟩
  | seekPlaying fraction | seek fraction =>
    -- This seek has moved playback, so it was not refused.
    have hmoved : Answer.sought (player.seek now fraction).1 = .sought .moved := congrArg Prod.fst hrun
    have hrefused : (player.seek now fraction).1 = .refused := horder
    simp [hrefused] at hmoved
  | speedRefused => exact ⟨log, passes_of_quietly (by simp [ticking?]) hobey hlog⟩
  | speedPlaying number speed hspeed hplaying =>
    refine ⟨log, passes_of_still ?_ ?_ ?_ ?_ ?_⟩ <;>
      simp [hobey, ticking?, Player.rebase, calledOff, hlog]
  | speed =>
    refine ⟨log, passes_of_still ?_ ?_ ?_ ?_ ?_⟩ <;> simp [hobey, ticking?, hlog]

theorem line_of_log {player : Player} {log : Log} (h : player.log = some log) : player.line = log.next := by
  simp [line, h]

-- What one order does, carried through the whole run. `held`, `pending` and the layout come along in
-- `Steady` and `Passes`; `going` keeps an idle player out, which would look for a layout at its start.
theorem legs_of_interruption {player : Player} {log : Log} (orders : List Order)
    (hsteady : Steady player) (hpos : 0 < player.capacity) (hstate : player.state ≠ .idle)
    (hlog : player.log = some log) (horders : player.AllInterrupt orders) :
    Contiguous player.line (player.legs orders) (player.obeyAll orders).player.line ∧
      (∀ leg ∈ player.legs orders,
        leg.taken = log.recording.stretch leg.first leg.beyond ∧
          leg.sent = (leg.taken.filterMap (·.payload? player.clock.layout)).rtake player.capacity) ∧
      emitted (player.obeyAll orders).effects = (player.legs orders).flatMap (·.sent) := by
  induction orders generalizing player log with
  | nil => simp [legs, obeyAll, Contiguous]
  | cons order rest ih =>
    obtain ⟨horder, hrest⟩ := horders
    have hlaid : player.CanStart → player.withLayout = player := fun hstart =>
      hsteady.withLayout_of_begun (.inr (hstart.1.resolve_left hstate))
    obtain ⟨after, hpasses⟩ := passes_of_interrupts hsteady hpos hlaid hlog horder
    obtain ⟨hchain, hlegs, hsent⟩ := ih (hsteady.obey order)
      (by rw [capacity_obey]; exact hpos) (hpasses.going hstate) hpasses.moved hrest
    rw [hpasses.layout, hpasses.recording, capacity_obey] at hlegs
    have hfirst := line_of_log hlog
    have hbeyond := line_of_log hpasses.moved
    simp only [legs, obeyAll, andThen_player, andThen_effects, emitted_append, hsent]
    cases hticking : player.ticking? order with
    | none =>
      have hreads : player.orderReads order = [] := by simp [orderReads, hticking]
      have hnothing : emitted (player.obey order).effects = [] := by
        simp [hpasses.sent, hreads, List.rtake]
      obtain rfl := hpasses.still hticking
      rw [hfirst, ← hbeyond, hnothing]
      exact ⟨hchain, hlegs, rfl⟩
    | some ready =>
      simp only [Option.isSome_some, if_true, List.mem_cons, forall_eq_or_imp, List.flatMap_cons, Contiguous]
      refine ⟨⟨trivial, ?_, hchain⟩, ⟨⟨?_, hpasses.sent⟩, hlegs⟩, trivial⟩
      · rw [hfirst, hbeyond]
        exact hpasses.forward
      · rw [hfirst, hbeyond]
        exact hpasses.taken

theorem Contiguous.le {first last : Nat} {legs : List Leg} (h : Contiguous first legs last) :
    first ≤ last := by
  induction legs generalizing first with
  | nil => exact Nat.le_of_eq h
  | cons leg rest ih => exact Nat.le_trans h.2.1 (ih h.2.2)

theorem Contiguous.stretches {recording : Recording} {first last : Nat} {legs : List Leg}
    (h : Contiguous first legs last) :
    (legs.flatMap fun leg => recording.stretch leg.first leg.beyond) = recording.stretch first last := by
  induction legs generalizing first with
  | nil =>
    obtain rfl : first = last := h
    simp
  | cons leg rest ih =>
    obtain ⟨hfirst, hbeyond, hrest⟩ := h
    rw [List.flatMap_cons, ih hrest, hfirst]
    exact recording.stretch_append hbeyond hrest.le

-- Between two orders nothing is held back, and whatever interrupts playback, its legs make up the stretch
-- from the cursor before to the cursor after.
theorem interruption_keeps_records {config : Config} {player : Player} (h : Reachable config player) :
    player.held = [] ∧
      (player.state = .playing ∨ player.state = .paused → ∃ log, player.log = some log ∧
        ∀ orders, player.AllInterrupt orders →
          Contiguous player.line (player.legs orders) (player.obeyAll orders).player.line ∧
          (player.legs orders).flatMap (·.taken) =
            log.recording.stretch player.line (player.obeyAll orders).player.line ∧
          (∀ leg ∈ player.legs orders,
            leg.taken = log.recording.stretch leg.first leg.beyond ∧
              leg.sent = (leg.taken.filterMap (·.payload? player.clock.layout)).rtake
                (max config.capacity batchSize)) ∧
          emitted (player.obeyAll orders).effects = (player.legs orders).flatMap (·.sent)) := by
  have hsteady := h.steady
  refine ⟨hsteady.held, ?_⟩
  intro hstate
  cases hlog : player.log with
  | none =>
    have hidle := hsteady.loaded hlog
    rcases hstate with hstate | hstate <;> simp [hstate] at hidle
  | some log =>
    refine ⟨log, rfl, ?_⟩
    intro orders horders
    have hcapacity := h.capacity
    have hgoing : player.state ≠ .idle := by rcases hstate with h | h <;> simp [h]
    obtain ⟨hchain, hlegs, hsent⟩ := legs_of_interruption orders hsteady h.capacity_pos hgoing hlog horders
    refine ⟨hchain, ?_, hcapacity ▸ hlegs, hsent⟩
    rw [← hchain.stretches, List.flatMap_congr fun leg hleg => (hlegs leg hleg).1]

def twelveLines : Recording := Recording.ofLines "twelve" (List.replicate 12 ['a'])

-- The first batch takes ten of the twelve lines.
def tenPlayed : Player :=
  ((Player.new Config.default).obeyAll [⟨0, .load twelveLines⟩, ⟨0, .start⟩]).player

def pausedAndResumed : List Order := [⟨5, .pause⟩, ⟨7, .wake 1⟩, ⟨9, .start⟩]

-- A pause, a token that comes too late and a new start do not lose the other two.
theorem interruption_keeps_last_two_of_twelve :
    Reachable Config.default tenPlayed ∧ tenPlayed.state = .playing ∧
      tenPlayed.AllInterrupt pausedAndResumed ∧
      (tenPlayed.legs pausedAndResumed).flatMap (·.taken) = twelveLines.stretch 10 12 := by
  have hreach : Reachable Config.default tenPlayed := Reachable.new.obeyAll _
  have hstate : tenPlayed.state = .playing := by decide +kernel
  have horders : tenPlayed.AllInterrupt pausedAndResumed := ⟨trivial, trivial, trivial, trivial⟩
  have hline : tenPlayed.line = 10 := by decide +kernel
  have hlast : (tenPlayed.obeyAll pausedAndResumed).player.line = 12 := by decide +kernel
  obtain ⟨-, hkept⟩ := interruption_keeps_records hreach
  obtain ⟨log, hlog, hruns⟩ := hkept (.inl hstate)
  have hrecording : log.recording = twelveLines := by
    have hsame : tenPlayed.log.map (·.recording) = some twelveLines := rfl
    simpa [hlog] using hsame
  obtain ⟨-, htaken, -, -⟩ := hruns pausedAndResumed horders
  refine ⟨hreach, hstate, horders, ?_⟩
  rw [htaken, hrecording, hline, hlast]

end VoyageLog.Player
