import VoyageLog.Proofs.Playback.Ticks

namespace VoyageLog.Player

variable {player : Player} {P : Recording → Prop}

theorem log_tick_of_none (now : Nat) (h : player.log = none) : (tick now player).player.log = none := by
  have hcase := ticked now player
  generalize Player.tick now player = step at hcase
  cases hcase with
  | still | unloaded => exact h
  | ended _ log hlog | waits _ log hlog => simp [h] at hlog

-- Whatever holds of all that is sent on the first order and on the others holds of all that is sent.
theorem forall_emitted_cons {Q : Text → Prop} {order : Order} {rest : List Order}
    (hone : ∀ text ∈ emitted (player.obey order).effects, Q text)
    (hmore : ∀ text ∈ emitted ((player.obey order).player.obeyAll rest).effects, Q text) :
    ∀ text ∈ emitted (player.obeyAll (order :: rest)).effects, Q text := by
  rw [obeyAll, andThen_effects, emitted_append]
  intro text htext
  rcases List.mem_append.mp htext with htext | htext
  · exact hone text htext
  · exact hmore text htext

-- The recording that is loaded, if any is, is of this kind.
def Holds (P : Recording → Prop) (player : Player) : Prop := ∀ log, player.log = some log → P log.recording

theorem Holds.moveTo {other : Player} {log : Log} {line : Nat} (h : player.Holds P) (hlog : player.log = some log)
    (hmoved : other.log = some (log.moveTo line)) : other.Holds P := by
  intro found hfound
  obtain rfl := Option.some.inj (hmoved.symm.trans hfound)
  exact h log hlog

theorem Holds.tick (now : Nat) (h : player.Holds P) : (tick now player).player.Holds P := by
  intro after hafter
  cases hlog : player.log with
  | none =>
    have hnone := log_tick_of_none now hlog
    simp [hnone] at hafter
  | some log =>
    obtain ⟨found, hfound, hrecording, -⟩ := tick_stretch now hlog
    obtain rfl := Option.some.inj (hfound.symm.trans hafter)
    exact hrecording ▸ h log hlog

theorem Holds.readied (now : Nat) (h : player.Holds P) : (player.readied now).Holds P := by
  have hcase := player.laidOut
  unfold Player.readied
  generalize player.withLayout = known at hcase
  cases hcase with
  | known | blank => exact h
  | found log hlog => exact h.moveTo hlog rfl

theorem Holds.obey (order : Order) (h : player.Holds P)
    (horder : ∀ other, order.command = .load other → P other) : (player.obey order).player.Holds P := by
  obtain ⟨now, command⟩ := order
  obtain ⟨result, -, hcase, hobey⟩ := player.obeying now command
  rw [hobey]
  cases hcase with
  | load other =>
    rintro _ hloaded
    obtain rfl := Option.some.inj hloaded
    exact horder other rfl
  | loadFailed => simp [Holds]
  | scanUnloaded => exact h
  | scanFailed log hlog | scan log hlog => exact h.moveTo hlog rfl
  | start => exact (h.readied now).tick now
  | stop =>
    cases hlog : player.log with
    | none => simp [Holds]
    | some log => exact h.moveTo hlog rfl
  | tick => exact h.tick now
  | wake =>
    have hready : Holds P { player with pending := none } := h
    exact hready.tick now
  | seekPlaying fraction log hlog landing | seek fraction log hlog landing => exact h.moveTo hlog rfl
  | pause | rebase | speedPlaying | speed => exact h
  | startRefused | pauseRefused | stopRefused | wakeRefused | seekRefused | speedRefused => exact h

theorem Holds.ticking {order : Order} {ready : Player} (h : player.Holds P)
    (hticking : player.ticking? order = some ready) : ready.Holds P := by
  cases readies hticking with
  | start now => exact h.readied now
  | tick | wake => exact h

-- What some record of a recording of this kind has to say.
def SaidBy (P : Recording → Prop) (text : Text) : Prop :=
  ∃ recording, P recording ∧ ∃ record ∈ recording.records, ∃ layout, record.payload? layout = some text

theorem saidBy_of_tick (now : Nat) (hready : Ready player) (hpos : 0 < player.capacity) (h : player.Holds P) :
    ∀ text ∈ emitted (tick now player).effects, SaidBy P text := by
  intro text htext
  rw [emitted_tick now hready.held hpos] at htext
  cases hlog : player.log with
  | none => simp [tickReads, hlog, List.rtake] at htext
  | some log =>
    obtain ⟨after, -, -, -, htaken⟩ := tick_stretch now hlog
    rw [htaken] at htext
    obtain ⟨record, hrecord, hpayload⟩ := List.mem_filterMap.mp (List.mem_of_mem_drop htext)
    exact ⟨log.recording, h log hlog, record, (List.mem_filter.mp hrecord).1, _, hpayload⟩

theorem saidBy_of_obey {config : Config} (order : Order) (h : Reachable config player) (hholds : player.Holds P) :
    ∀ text ∈ emitted (player.obey order).effects, SaidBy P text := by
  cases hticking : player.ticking? order with
  | none => simp [emitted_of_still hticking]
  | some ready =>
    have hready := ready_of_ticking h.steady hticking
    have hpos : 0 < ready.capacity := capacity_of_ticking hticking ▸ h.capacity_pos
    rw [emitted_of_ticking hticking]
    exact saidBy_of_tick order.now hready hpos (hholds.ticking hticking)

theorem saidBy_of_obeyAll {config : Config} (orders : List Order) (h : Reachable config player)
    (hholds : player.Holds P) (horders : ∀ order ∈ orders, ∀ other, order.command = .load other → P other) :
    ∀ text ∈ emitted (player.obeyAll orders).effects, SaidBy P text := by
  induction orders generalizing player with
  | nil => simp [obeyAll]
  | cons order rest ih =>
    have hone := saidBy_of_obey order h hholds
    have hmore := ih (h.obey order) (hholds.obey order (horders order (by simp)))
      fun later hlater => horders later (by simp [hlater])
    exact forall_emitted_cons hone hmore

end VoyageLog.Player
