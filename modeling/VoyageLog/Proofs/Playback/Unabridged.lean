import VoyageLog.Proofs.Playback.Interruption
import VoyageLog.Proofs.Playback.States

namespace VoyageLog.Player

-- The oldest record that the player holds gives way to the one that it takes.
def Evicts (read : Record × Player) : Prop :=
  (read.1.payload? read.2.clock.layout).isSome ∧ read.2.capacity ≤ read.2.held.length

instance (read : Record × Player) : Decidable (Evicts read) := inferInstanceAs (Decidable (_ ∧ _))

def Spares (player : Player) (order : Order) : Prop :=
  ∀ read ∈ player.orderReads order, ¬Evicts read

instance (player : Player) (order : Order) : Decidable (player.Spares order) :=
  inferInstanceAs (Decidable (∀ _ ∈ _, _))

def AllSpare (player : Player) : List Order → Prop
  | [] => True
  | order :: rest => player.Spares order ∧ (player.obey order).player.AllSpare rest

-- What is taken without an eviction fits in beside what is held.
theorem length_payloads_le (now : Nat) (records : List Record) (player : Player)
    (hheld : player.held.length ≤ player.capacity) (hpos : 0 < player.capacity)
    (hspares : ∀ read ∈ reads now records player, ¬Evicts read) :
    player.held.length + (((reads now records player).map (·.1)).filterMap
      (·.payload? player.clock.layout)).length ≤ player.capacity := by
  induction records generalizing player with
  | nil => simpa [reads] using hheld
  | cons record rest ih =>
    have hfits : (player.held ++ (record.payload? player.clock.layout).toList).length ≤ player.capacity := by
      have hone := hspares (record, player) (by simp [reads])
      cases hpayload : record.payload? player.clock.layout with
      | none => simpa using hheld
      | some payload =>
        have hroom : player.held.length < player.capacity := by simpa [Evicts, hpayload] using hone
        rw [List.length_append]
        exact hroom
    have hnext := held_take now record (rtake_of_length_le hheld).symm hpos
    rw [rtake_of_length_le hfits] at hnext
    have hcapacity := capacity_take now record player
    have hlayout := layout_take now record player
    have hlength : (((reads now (record :: rest) player).map (·.1)).filterMap
        (·.payload? player.clock.layout)).length = (record.payload? player.clock.layout).toList.length +
          (((reads now (record :: rest) player).tail.map (·.1)).filterMap
            (·.payload? player.clock.layout)).length := by
      cases hpayload : record.payload? player.clock.layout <;> simp [reads, hpayload, Nat.add_comm]
    rw [hlength]
    rcases htake : player.take now record with ⟨next, _ | delay⟩
    · rw [htake] at hnext hcapacity hlayout
      dsimp only at hnext hcapacity hlayout
      have hmore := ih next (by rw [hnext, hcapacity]; exact hfits) (by omega) ?_
      · rw [hnext, hcapacity, hlayout, List.length_append] at hmore
        simp only [reads, htake, List.tail_cons]
        omega
      · intro read hread
        exact hspares read (by simp [reads, htake, hread])
    · simpa [reads, htake] using hfits

-- The player that an order has tick holds and knows what the ordered one does.
theorem of_ticking {player ready : Player} {order : Order}
    (hlaid : player.CanStart → player.withLayout = player) (h : player.ticking? order = some ready) :
    ready.held = player.held ∧ ready.capacity = player.capacity ∧ ready.clock = player.clock ∧
      ready.log = player.log ∧ ready.state = .playing := by
  cases readies h with
  | start now hstart =>
    rw [readied, hlaid hstart]
    exact ⟨rfl, rfl, rfl, rfl, rfl⟩
  | tick _ hstate | wake _ _ _ hstate => exact ⟨rfl, rfl, rfl, rfl, hstate⟩

theorem Spares.length_le {player : Player} {order : Order} (hspares : player.Spares order)
    (hsteady : Steady player) (hpos : 0 < player.capacity)
    (hlaid : player.CanStart → player.withLayout = player) :
    (((player.orderReads order).map (·.1)).filterMap (·.payload? player.clock.layout)).length ≤
      player.capacity := by
  cases hticking : player.ticking? order with
  | none => simp [orderReads, hticking]
  | some ready =>
    obtain ⟨hheld, hcapacity, hclock, hlog, hplaying⟩ := of_ticking hlaid hticking
    have hreads : player.orderReads order = tickReads order.now ready := by simp [orderReads, hticking]
    rw [Spares, hreads] at hspares
    rw [hreads]
    cases hloaded : ready.log with
    | none => simp [tickReads, hloaded]
    | some log =>
      rw [tickReads_of_playing order.now hplaying hloaded] at hspares ⊢
      have hempty : ready.held = [] := hheld.trans hsteady.held
      have hfits := length_payloads_le order.now log.unread { ready with pending := none }
        (by simp [hempty]) (by simpa [hcapacity] using hpos) hspares
      simpa [hempty, hcapacity, hclock] using hfits

theorem withLayout_of_known {player : Player} (h : player.clock.layout.isSome) :
    player.withLayout = player := by
  obtain ⟨layout, hlayout⟩ := Option.isSome_iff_exists.mp h
  simp [withLayout, hlayout]

-- Where there are no records, there is no layout to be found.
theorem withLayout_of_laid {player : Player} {log : Log} (hlog : player.log = some log)
    (h : player.clock.layout.isSome ∨ log.recording.records = []) : player.withLayout = player := by
  rcases h with hknown | hblank
  · exact withLayout_of_known hknown
  · have hcase := player.laidOut
    generalize player.withLayout = known at hcase
    cases hcase with
    | known | blank => rfl
    | found other hother hlayout first rest hrecords =>
      obtain rfl := Option.some.inj (hlog.symm.trans hother)
      simp [hblank] at hrecords

-- A run without an eviction sends out the stretch that it passes over.
theorem emitted_of_spares {player : Player} {log : Log} (orders : List Order) (hsteady : Steady player)
    (hpos : 0 < player.capacity) (hlog : player.log = some log)
    (hlayout : player.clock.layout.isSome ∨ log.recording.records = [])
    (horders : player.AllInterrupt orders) (hspares : player.AllSpare orders) :
    ∃ after, (player.obeyAll orders).player.log = some after ∧ after.recording = log.recording ∧
      log.next ≤ after.next ∧
      emitted (player.obeyAll orders).effects =
        (log.recording.stretch log.next after.next).filterMap (·.payload? player.clock.layout) := by
  induction orders generalizing player log with
  | nil => exact ⟨log, hlog, rfl, Nat.le_refl _, by simp [obeyAll]⟩
  | cons order rest ih =>
    obtain ⟨horder, horders⟩ := horders
    obtain ⟨hspare, hspares⟩ := hspares
    have hlaid : player.CanStart → player.withLayout = player := fun _ => withLayout_of_laid hlog hlayout
    obtain ⟨middle, hpasses⟩ := passes_of_interrupts hsteady hpos hlaid hlog horder
    have hsent := hpasses.sent
    rw [rtake_of_length_le (hspare.length_le hsteady hpos hlaid), hpasses.taken] at hsent
    obtain ⟨after, hafter, hrecording, hforward, hrest⟩ :=
      ih (hsteady.obey order) (by rw [capacity_obey]; exact hpos) hpasses.moved
        (by rw [hpasses.layout, hpasses.recording]; exact hlayout) horders hspares
    rw [hpasses.layout, hpasses.recording] at hrest
    refine ⟨after, hafter, hrecording.trans hpasses.recording, hpasses.forward.trans hforward, ?_⟩
    rw [obeyAll, andThen_effects, emitted_append, hsent, hrest, ← List.filterMap_append,
      log.recording.stretch_append hpasses.forward hforward]

-- Orders that take playback to the end, without moving it and without an eviction.
structure PlaysOut (player : Player) (orders : List Order) : Prop where
  interrupts : player.AllInterrupt orders
  spares : player.AllSpare orders
  ended : (player.obeyAll orders).player.state = .atEnd

theorem PlaysOut.emitted_eq {player : Player} {log : Log} {orders : List Order}
    (h : player.PlaysOut orders) (hsteady : Steady player) (hfinished : player.Finished)
    (hpos : 0 < player.capacity) (hlog : player.log = some log)
    (hlayout : player.clock.layout.isSome ∨ log.recording.records = []) :
    emitted (player.obeyAll orders).effects =
      log.unread.filterMap (·.payload? player.clock.layout) := by
  obtain ⟨after, hafter, hrecording, hforward, hsent⟩ :=
    emitted_of_spares orders hsteady hpos hlog hlayout h.interrupts h.spares
  have hnothing : log.recording.recordsAt after.next = [] := by
    have hunread := finished_obeyAll orders hfinished h.ended after hafter
    rwa [Log.unread, hrecording] at hunread
  have hbound : after.next ≤ log.recording.lineCount := hrecording ▸ after.next_le
  have hall : log.unread = log.recording.stretch log.next after.next := by
    rw [Log.unread, Recording.recordsAt_eq_stretch, ← log.recording.stretch_append hforward hbound,
      ← Recording.recordsAt_eq_stretch, hnothing, List.append_nil]
  rw [hsent, hall]

end VoyageLog.Player
