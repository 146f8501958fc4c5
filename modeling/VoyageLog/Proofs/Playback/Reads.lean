import Mathlib.Data.List.DropRight
import VoyageLog.Proofs.Playback.Step
import VoyageLog.Proofs.Recording.Stretch

namespace VoyageLog

-- What a record has to say, if it is readable.
def Record.payload? (layout : Option Layout) (record : Record) : Option Text :=
  match layout with
  | some (.table columns) => (columns.row? record.text).map (·.message)
  | _ => some record.text

namespace Player

@[simp] theorem emitted_append (first second : List Effect) :
    emitted (first ++ second) = emitted first ++ emitted second := by
  induction first with
  | nil => rfl
  | cons effect rest ih => cases effect <;> simp [emitted, ih]

@[simp] theorem emitted_map_emit (records : List Text) : emitted (records.map .emit) = records := by
  induction records with
  | nil => rfl
  | cons record rest ih => simp [emitted, ih]

@[simp] theorem emitted_map_cancel (tokens : List Token) : emitted (tokens.map .cancel) = [] := by
  induction tokens with
  | nil => rfl
  | cons token rest ih => simpa [emitted] using ih

@[simp] theorem emitted_map_update (news : List Status) : emitted (news.map .update) = [] := by
  induction news with
  | nil => rfl
  | cons status rest ih => simpa [emitted] using ih

@[simp] theorem emitted_nil : emitted [] = [] := rfl

@[simp] theorem emitted_update (status : Status) (rest : List Effect) :
    emitted (.update status :: rest) = emitted rest := rfl

@[simp] theorem emitted_wake (token : Token) (delay : Nat) (rest : List Effect) :
    emitted (.wake token delay :: rest) = emitted rest := rfl

def reads (now : Nat) : List Record → Player → List (Record × Player)
  | [], _ => []
  | record :: rest, player =>
    (record, player) ::
      match player.take now record with
      | (_, some _) => []
      | (next, none) => reads now rest next

theorem reads_of_takeAll_none {now : Nat} {records : List Record} {player taken : Player}
    (h : takeAll now records player = (taken, none)) :
    (reads now records player).map (·.1) = records := by
  induction records generalizing player with
  | nil => rfl
  | cons record rest ih =>
    rcases htake : player.take now record with ⟨next, _ | delay⟩
    · simp only [takeAll, htake] at h
      simp [reads, htake, ih h]
    · simp [takeAll, htake] at h

-- The last record that is taken is the one that the player waits after.
theorem reads_of_takeAll_some {now line delay : Nat} {records : List Record} {player taken : Player}
    (h : takeAll now records player = (taken, some (line, delay))) :
    ∃ before record rest, records = before ++ record :: rest ∧
      (reads now records player).map (·.1) = before ++ [record] ∧ line = record.line + 1 := by
  induction records generalizing player with
  | nil => simp [takeAll] at h
  | cons record rest ih =>
    rcases htake : player.take now record with ⟨next, _ | wait⟩
    · simp only [takeAll, htake] at h
      obtain ⟨before, last, after, hrest, hreads, hline⟩ := ih h
      exact ⟨record :: before, last, after, by simp [hrest], by simp [reads, htake, hreads], hline⟩
    · simp only [takeAll, htake, Prod.mk.injEq, Option.some.injEq] at h
      exact ⟨[], record, rest, rfl, by simp [reads, htake], h.2.1.symm⟩

theorem Reading.payload_ofRecord (layout : Option Layout) (timed : Bool)
    (listener : TimeSource.Listener) (record : Record) :
    (Reading.ofRecord layout timed listener record).1.map (·.payload) = record.payload? layout := by
  rcases layout with _ | _ | columns
  · cases timed <;> rfl
  · cases timed <;> rfl
  · simp [Reading.ofRecord, Record.payload?, Option.map_map, Function.comp_def]

theorem rtake_of_length_le {records : List Text} {room : Nat} (h : records.length ≤ room) :
    records.rtake room = records := by
  simp [List.rtake, Nat.sub_eq_zero_of_le h]

-- A full player gives up the oldest record, and so keeps the last ones of all it was given.
theorem held_hold (player : Player) {given : List Text} (record : Text)
    (hheld : player.held = given.rtake player.capacity) (hpos : 0 < player.capacity) :
    (hold record player).held = (given ++ [record]).rtake player.capacity := by
  obtain ⟨room, hroom⟩ : ∃ room, player.capacity = room + 1 := ⟨player.capacity - 1, by omega⟩
  simp only [hold, hheld, hroom, List.rtake_concat_succ]
  by_cases hfull : room + 1 ≤ given.length
  · have hlength : (given.rtake (room + 1)).length = room + 1 := by
      simp only [List.rtake, List.length_drop]
      omega
    have htail : (given.rtake (room + 1)).tail = given.rtake room := by
      simp only [List.rtake, List.tail_drop]
      congr 1
      omega
    have hne : given.rtake (room + 1) ≠ [] := by
      intro hnil
      simp [hnil] at hlength
    rw [if_pos (by simp [hlength]), List.tail_append_of_ne_nil hne, htail]
  · rw [rtake_of_length_le (by omega), rtake_of_length_le (by omega), if_neg]
    simp only [List.length_append, List.length_cons, List.length_nil]
    omega

theorem held_take {player : Player} {given : List Text} (now : Nat) (record : Record)
    (hheld : player.held = given.rtake player.capacity) (hpos : 0 < player.capacity) :
    (player.take now record).1.held =
      (given ++ (record.payload? player.clock.layout).toList).rtake player.capacity := by
  have hpayload :=
    Reading.payload_ofRecord player.clock.layout player.isTimed player.listener record
  unfold take
  split
  · rename_i listener hreading
    rw [hreading] at hpayload
    simp [← hpayload, hheld]
  · rename_i reading listener hreading
    rw [hreading] at hpayload
    have hhold := held_hold { player with listener } reading.payload hheld hpos
    simp only [Option.map_some] at hpayload
    dsimp only
    split <;> simpa [← hpayload] using hhold

theorem capacity_take (now : Nat) (record : Record) (player : Player) :
    (player.take now record).1.capacity = player.capacity := by
  have h := congrArg Player.capacity (rested_take now record player)
  exact h

theorem ofRecord_untimed (layout : Option Layout) (listener : TimeSource.Listener) (record : Record) :
    Reading.ofRecord layout false listener record = ((record.payload? layout).map (⟨·, none⟩), listener) := by
  rcases layout with _ | _ | columns
  · rfl
  · rfl
  · simp [Reading.ofRecord, Record.payload?, Function.comp_def]

-- Without a timeline a record is taken for what it has to say, and only a full batch has the player wait.
theorem take_untimed {player : Player} (now : Nat) (record : Record) (huntimed : player.isTimed = false) :
    player.take now record =
      match record.payload? player.clock.layout with
      | none => (player, none)
      | some payload => (hold payload player,
          if batchSize ≤ (hold payload player).held.length then some player.speed.secondOnWall else none) := by
  have hstill : ∀ payload, (hold payload player).isTimed = false := fun _ => huntimed
  unfold take
  rw [huntimed, ofRecord_untimed]
  cases record.payload? player.clock.layout with
  | none => rfl
  | some payload =>
    simp only [Option.map_some, hstill, Bool.not_false, Bool.true_and, decide_eq_true_eq]
    rfl

theorem layout_take (now : Nat) (record : Record) (player : Player) :
    (player.take now record).1.clock.layout = player.clock.layout := by
  have h := congrArg (·.clock.layout) (rested_take now record player)
  exact h

theorem held_takeAll (player : Player) (given : List Text) (now : Nat) (records : List Record)
    (hheld : player.held = given.rtake player.capacity) (hpos : 0 < player.capacity) :
    (takeAll now records player).1.held =
      (given ++ ((reads now records player).map (·.1)).filterMap
        (·.payload? player.clock.layout)).rtake player.capacity := by
  induction records generalizing player given with
  | nil => simpa [takeAll, reads] using hheld
  | cons record rest ih =>
    have hone := held_take now record hheld hpos
    have hcapacity := capacity_take now record player
    have hlayout := layout_take now record player
    rcases htake : player.take now record with ⟨next, _ | delay⟩
    · rw [htake] at hone hcapacity hlayout
      dsimp only at hone hcapacity hlayout
      have hrest := ih next (given ++ (record.payload? player.clock.layout).toList)
        (by rw [hcapacity]; exact hone) (by omega)
      simp only [takeAll, reads, htake, List.map_cons]
      rw [hrest, hcapacity, hlayout, List.append_assoc]
      cases hpayload : record.payload? player.clock.layout <;> simp [hpayload]
    · rw [htake] at hone
      simp only [takeAll, reads, htake, List.map_cons, List.map_nil]
      rw [hone]
      cases hpayload : record.payload? player.clock.layout <;> simp [hpayload]

-- The records that a tick takes.
def tickReads (now : Nat) (player : Player) : List (Record × Player) :=
  match player.state, player.log with
  | .playing, some log => reads now log.unread { player with pending := none }
  | _, _ => []

theorem tickReads_of_not_playing {player : Player} (now : Nat) (hstate : player.state ≠ .playing) :
    tickReads now player = [] := by
  unfold tickReads
  split
  · contradiction
  · rfl

theorem tickReads_of_playing {player : Player} {log : Log} (now : Nat)
    (hstate : player.state = .playing) (hlog : player.log = some log) :
    tickReads now player = reads now log.unread { player with pending := none } := by
  unfold tickReads
  split
  · rename_i found _ hfound
    obtain rfl : found = log := by simpa [hfound] using hlog
    rfl
  · rename_i hnone
    exact absurd hlog (hnone log hstate)

-- The cursor moves over just the records that are taken.
theorem tick_stretch {player : Player} {log : Log} (now : Nat) (hlog : player.log = some log) :
    ∃ after, (tick now player).player.log = some after ∧ after.recording = log.recording ∧
      log.next ≤ after.next ∧
      (tickReads now player).map (·.1) = log.recording.stretch log.next after.next := by
  have hcase := ticked now player
  generalize htick : tick now player = step at hcase
  cases hcase with
  | still hstate =>
    refine ⟨log, hlog, rfl, Nat.le_refl _, ?_⟩
    rw [Recording.stretch_self, tickReads_of_not_playing now hstate, List.map_nil]
  | unloaded _ hnone => simp [hnone] at hlog
  | ended hstate found hfound taken htaken =>
    obtain rfl : found = log := by simpa [hfound] using hlog
    refine ⟨found.moveTo found.lineCount, rfl, rfl, ?_, ?_⟩
    · simpa [Log.moveTo, Log.lineCount] using found.next_le
    · rw [tickReads_of_playing now hstate hlog, reads_of_takeAll_none htaken]
      simp [Log.unread, Log.moveTo, Log.lineCount, Recording.recordsAt_eq_stretch]
  | waits hstate found hfound taken line delay htaken =>
    obtain rfl : found = log := by simpa [hfound] using hlog
    obtain ⟨before, record, rest, hunread, hreads, hline⟩ := reads_of_takeAll_some htaken
    have hmem : record ∈ found.recording.recordsAt found.next := by
      rw [← Log.unread, hunread]
      simp
    have hrecord := Recording.le_line_of_mem_recordsAt hmem
    have hmove : (found.moveTo line).next = record.line + 1 := by
      simp only [Log.moveTo, Log.lineCount, hline]
      omega
    refine ⟨found.moveTo line, rfl, rfl, by omega, ?_⟩
    rw [hmove, (Recording.stretch_of_recordsAt hunread).1, ← hreads, tickReads_of_playing now hstate hlog]

theorem held_of_takeAll {now : Nat} {records : List Record} {player taken : Player}
    {ending : Option (Nat × Nat)} (htaken : takeAll now records player = (taken, ending))
    (hheld : player.held = []) (hpos : 0 < player.capacity) :
    taken.held = (((reads now records player).map (·.1)).filterMap
      (·.payload? player.clock.layout)).rtake player.capacity := by
  have hnone : player.held = ([] : List Text).rtake player.capacity := by simpa using hheld
  have hall := held_takeAll player [] now records hnone hpos
  rw [htaken, List.nil_append] at hall
  exact hall

-- What a tick sends out are the last payloads of what it reads.
theorem emitted_tick {player : Player} (now : Nat) (hheld : player.held = [])
    (hpos : 0 < player.capacity) :
    emitted (tick now player).effects =
      (((tickReads now player).map (·.1)).filterMap
        (·.payload? player.clock.layout)).rtake player.capacity := by
  have hcase := ticked now player
  generalize htick : tick now player = step at hcase
  cases hcase with
  | still hstate =>
    simp [tickReads_of_not_playing now hstate, List.rtake]
  | unloaded hstate hnone => simp [tickReads, hnone, hheld, calledOff, List.rtake]
  | ended hstate log hlog taken htaken =>
    have hall := held_of_takeAll htaken hheld hpos
    simp [tickReads_of_playing now hstate hlog, hall, calledOff]
  | waits hstate log hlog taken line delay htaken =>
    have hall := held_of_takeAll htaken hheld hpos
    simp [tickReads_of_playing now hstate hlog, hall, calledOff]

end Player

end VoyageLog
