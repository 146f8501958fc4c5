import VoyageLog.Proofs.Playback.Holdings
import VoyageLog.Proofs.Playback.Landings
import VoyageLog.Proofs.Recording.Cursor
import VoyageLog.Proofs.Recording.Sightings

namespace VoyageLog

-- A scan has the layout and the start of the data from the first record.
theorem Scan.shown_of_scan {lockPrimary : Bool} {recording : Recording} {outcome : Outcome} {layout : Layout}
    (hscan : ofRecording lockPrimary recording = .ok outcome) (hlayout : outcome.clock.layout = some layout) :
    ∃ first rest, recording.records = first :: rest ∧
      Layout.ofFirst first = (layout, outcome.clock.dataStart) := by
  cases succeeds hscan with
  | empty => cases hlayout
  | sentences first rest hrecords dataStart hfirst | table first rest hrecords columns dataStart hfirst =>
    obtain rfl := Option.some.inj hlayout
    exact ⟨first, rest, hrecords, hfirst⟩

namespace Player

-- The layout is the one that the first record shows, and the cursor is not before the data.
def KeepsToData (player : Player) : Prop :=
  ∀ log layout, player.log = some log → player.clock.layout = some layout →
    ∃ first rest, log.recording.records = first :: rest ∧
      Layout.ofFirst first = (layout, player.clock.dataStart) ∧ player.clock.dataStart ≤ log.next

section Keeping

variable {player : Player}

theorem keepsToData_of_unknown (h : player.clock.layout = none) : player.KeepsToData := by
  intro log layout _ hlayout
  simp [h] at hlayout

-- A cursor that is moved behind the start of the data stays there, since there are lines enough.
theorem KeepsToData.moveTo {other : Player} {log : Log} {line : Nat} (h : player.KeepsToData)
    (hlog : player.log = some log) (hmoved : other.log = some (log.moveTo line))
    (hlayout : other.clock.layout = player.clock.layout)
    (hstart : other.clock.dataStart = player.clock.dataStart) (hline : player.clock.dataStart ≤ line) :
    other.KeepsToData := by
  intro found layout hfound hknown
  obtain rfl := Option.some.inj (hmoved.symm.trans hfound)
  obtain ⟨first, rest, hrecords, hfirst, -⟩ := h log layout hlog (hlayout ▸ hknown)
  have hlines := Recording.start_le_lineCount hrecords
  rw [hfirst] at hlines
  refine ⟨first, rest, hrecords, hstart ▸ hfirst, ?_⟩
  rw [hstart]
  exact Nat.le_min.mpr ⟨hline, hlines⟩

theorem KeepsToData.of_same {other : Player} (h : player.KeepsToData) (hlog : other.log = player.log)
    (hlayout : other.clock.layout = player.clock.layout)
    (hstart : other.clock.dataStart = player.clock.dataStart) : other.KeepsToData := by
  intro log layout hsome hknown
  rw [hstart]
  exact h log layout (hlog ▸ hsome) (hlayout ▸ hknown)

theorem KeepsToData.tick (now : Nat) (h : player.KeepsToData) : (tick now player).player.KeepsToData := by
  obtain ⟨moved, state, pending, issued, hrested⟩ := rested_tick now player
  have hlayout : (Player.tick now player).player.clock.layout = player.clock.layout :=
    congrArg (·.clock.layout) hrested
  have hstart : (Player.tick now player).player.clock.dataStart = player.clock.dataStart :=
    congrArg (·.clock.dataStart) hrested
  intro after layout hafter hknown
  cases hlog : player.log with
  | none =>
    have hnone := log_tick_of_none now hlog
    simp [hnone] at hafter
  | some log =>
    obtain ⟨found, hfound, hrecording, hforward, -⟩ := tick_stretch now hlog
    obtain rfl := Option.some.inj (hfound.symm.trans hafter)
    obtain ⟨first, rest, hrecords, hfirst, hbehind⟩ := h log layout hlog (hlayout ▸ hknown)
    rw [hrecording, hstart]
    exact ⟨first, rest, hrecords, hfirst, Nat.le_trans hbehind hforward⟩

theorem KeepsToData.readied (now : Nat) (h : player.KeepsToData) : (player.readied now).KeepsToData := by
  have hcase := player.laidOut
  unfold Player.readied
  generalize player.withLayout = known at hcase
  cases hcase with
  | known => exact h
  | blank => exact h
  | found log hlog hlayout first rest hrecords =>
    rintro _ _ hmoved hknown
    obtain rfl := Option.some.inj hmoved
    obtain rfl := Option.some.inj hknown
    have hlines := Recording.start_le_lineCount hrecords
    exact ⟨first, rest, hrecords, rfl, Nat.le_min.mpr ⟨Nat.le_max_right _ _, hlines⟩⟩

theorem dataStart_le_of_lands {fraction : Binary64} {log : Log} {landing : Landing}
    (h : Lands fraction log player landing) : player.clock.dataStart ≤ landing.line := by
  cases h with
  | byTime timeline htimeline target htarget landing hfound =>
    obtain ⟨before, record, rest, instant, hrecords, hline, -⟩ := found_of_firstAtOrAfter hfound
    rw [hline]
    exact (Recording.lines_of_recordsAt hrecords).1
  | byLine => exact Nat.le_max_right _ _

theorem KeepsToData.landed {fraction : Binary64} {log : Log} {landing : Landing} (h : player.KeepsToData)
    (hlog : player.log = some log) (hlanding : player.landing? fraction log = .ok landing) :
    (player.landed landing log).KeepsToData := by
  refine h.moveTo hlog rfl ?_ ?_ (dataStart_le_of_lands (lands hlanding))
  · unfold Player.landed
    cases landing.instant <;> rfl
  · unfold Player.landed
    cases landing.instant <;> rfl

theorem keepsToData_obey (order : Order) (h : player.KeepsToData) :
    (player.obey order).player.KeepsToData := by
  obtain ⟨now, command⟩ := order
  obtain ⟨result, -, hcase, hobey⟩ := player.obeying now command
  rw [hobey]
  cases hcase with
  | load | loadFailed | scanUnloaded | scanFailed => exact keepsToData_of_unknown rfl
  | scan log hlog outcome hscan =>
    rintro _ layout hmoved hlayout
    obtain rfl := Option.some.inj hmoved
    obtain ⟨first, rest, hrecords, hfirst⟩ := Scan.shown_of_scan hscan hlayout
    have hlines := Recording.start_le_lineCount hrecords
    rw [hfirst] at hlines
    exact ⟨first, rest, hrecords, hfirst, Nat.le_min.mpr ⟨Nat.le_refl _, hlines⟩⟩
  | start => exact (h.readied now).tick now
  | stop =>
    cases hlog : player.log with
    | none => exact h.of_same (by simp [hlog]) rfl rfl
    | some log => exact h.moveTo hlog (by simp) rfl rfl (Nat.le_refl _)
  | tick => exact h.tick now
  | wake =>
    have hready : KeepsToData { player with pending := none } := h.of_same rfl rfl rfl
    exact hready.tick now
  | seekPlaying fraction log hlog landing hlanding => exact (h.landed hlog hlanding).of_same rfl rfl rfl
  | seek fraction log hlog landing hlanding => exact h.landed hlog hlanding
  | pause | rebase | speedPlaying | speed => exact h.of_same rfl rfl rfl
  | startRefused | pauseRefused | stopRefused | wakeRefused | seekRefused | speedRefused => exact h

end Keeping

theorem Reachable.keepsToData {config : Config} {player : Player} (h : Reachable config player) :
    player.KeepsToData := by
  induction h with
  | new => exact keepsToData_of_unknown rfl
  | obey order _ ih => exact keepsToData_obey order ih

section Table

variable {player : Player} {recording : Recording} {first : Record} {rest : List Record} {columns : Columns}

-- Texts that are the messages of some rows below the header.
def Messages (recording : Recording) (first : Record) (columns : Columns) (texts : List Text) : Prop :=
  ∀ text ∈ texts, ∃ record ∈ recording.recordsAt (first.line + 1),
    ∃ row, columns.row? record.text = some row ∧ row.message = text

-- Once it plays, a player of a table knows the layout, and its cursor is below the header.
theorem below_header {log : Log} (hready : Ready player) (hkeeps : player.KeepsToData)
    (hstate : player.state = .playing ∨ player.state = .paused) (hlog : player.log = some log)
    (hrecords : log.recording.records = first :: rest)
    (hheader : Columns.ofHeader? first.text = some columns) :
    player.clock.layout = some (.table columns) ∧ first.line + 1 ≤ log.next := by
  have hshown : Layout.ofFirst first = (.table columns, first.line + 1) := by
    simp [Layout.ofFirst, hheader]
  cases hlayout : player.clock.layout with
  | none =>
    have hnone := hready.laidOut hstate log hlog hlayout
    simp [hrecords] at hnone
  | some layout =>
    obtain ⟨other, others, hothers, hfirst, hbehind⟩ := hkeeps log layout hlog hlayout
    obtain ⟨rfl, -⟩ := List.cons.inj (hrecords.symm.trans hothers)
    obtain ⟨rfl, hstart⟩ := Prod.mk.inj (hshown.symm.trans hfirst)
    exact ⟨rfl, hstart ▸ hbehind⟩

theorem messages_of_tick {log : Log} (now : Nat) (hready : Ready player) (hkeeps : player.KeepsToData)
    (hstate : player.state = .playing) (hpos : 0 < player.capacity) (hlog : player.log = some log)
    (hrecords : log.recording.records = first :: rest)
    (hheader : Columns.ofHeader? first.text = some columns) :
    Messages log.recording first columns (emitted (tick now player).effects) := by
  obtain ⟨hlayout, hbelow⟩ := below_header hready hkeeps (.inl hstate) hlog hrecords hheader
  obtain ⟨after, -, -, -, htaken⟩ := tick_stretch now hlog
  rw [emitted_tick now hready.held hpos, htaken, hlayout]
  intro text htext
  obtain ⟨record, hrecord, hpayload⟩ := List.mem_filterMap.mp (List.mem_of_mem_drop htext)
  obtain ⟨row, hrow, hmessage⟩ := Option.map_eq_some_iff.mp hpayload
  obtain ⟨hmem, hlines⟩ := List.mem_filter.mp hrecord
  simp only [Bool.and_eq_true, decide_eq_true_eq] at hlines
  refine ⟨record, ?_, row, hrow, hmessage⟩
  rw [Recording.recordsAt_eq_filter, List.mem_filter]
  exact ⟨hmem, by simpa using Nat.le_trans hbelow hlines.1⟩

-- Nothing but one recording is loaded, if anything is.
def HoldsOnly (recording : Recording) (player : Player) : Prop :=
  ∀ log, player.log = some log → log.recording = recording

theorem HoldsOnly.holds (h : player.HoldsOnly recording) : player.Holds (· = recording) := h

theorem messages_of_obey {config : Config} (order : Order) (h : Reachable config player)
    (honly : player.HoldsOnly recording) (hrecords : recording.records = first :: rest)
    (hheader : Columns.ofHeader? first.text = some columns) :
    Messages recording first columns (emitted (player.obey order).effects) := by
  cases hticking : player.ticking? order with
  | none => simp [emitted_of_still hticking, Messages]
  | some ready =>
    have hready := ready_of_ticking h.steady hticking
    have hstate := playing_of_ticking hticking
    have hroom : 0 < ready.capacity := capacity_of_ticking hticking ▸ h.capacity_pos
    have hkeeps : ready.KeepsToData := by
      cases readies hticking with
      | start now => exact h.keepsToData.readied now
      | tick => exact h.keepsToData
      | wake => exact h.keepsToData.of_same rfl rfl rfl
    have hholds : ready.HoldsOnly recording := honly.holds.ticking hticking
    rw [emitted_of_ticking hticking]
    cases hlog : ready.log with
    | none =>
      have hidle := hready.loaded hlog
      simp [hstate] at hidle
    | some log =>
      obtain rfl := hholds log hlog
      exact messages_of_tick order.now hready hkeeps hstate hroom hlog hrecords hheader

theorem messages_of_obeyAll {config : Config} (orders : List Order) (h : Reachable config player)
    (honly : player.HoldsOnly recording)
    (horders : ∀ order ∈ orders, ∀ other, order.command = .load other → other = recording)
    (hrecords : recording.records = first :: rest) (hheader : Columns.ofHeader? first.text = some columns) :
    (player.obeyAll orders).player.HoldsOnly recording ∧
      Messages recording first columns (emitted (player.obeyAll orders).effects) := by
  induction orders generalizing player with
  | nil => exact ⟨honly, by simp [obeyAll, Messages]⟩
  | cons order rest ih =>
    have hone := messages_of_obey order h honly hrecords hheader
    obtain ⟨hholds, hmore⟩ := ih (h.obey order) (honly.holds.obey order (horders order (by simp)))
      fun later hlater => horders later (by simp [hlater])
    exact ⟨hholds, forall_emitted_cons hone hmore⟩

-- Whatever is ordered of a player that has loaded a table, scanned or not, as long as it is not given another
-- recording: it never plays from above the first line below the header, and all that it sends are messages.
theorem only_messages_below_header {config : Config} (now : Nat) (orders : List Order)
    (h : Reachable config player) (hrecords : recording.records = first :: rest)
    (hheader : Columns.ofHeader? first.text = some columns)
    (horders : ∀ order ∈ orders, ∀ other, order.command = .load other → other = recording) :
    let reached := player.obeyAll (⟨now, .load recording⟩ :: orders)
    (reached.player.state = .playing ∨ reached.player.state = .paused →
      ∃ log, reached.player.log = some log ∧ log.recording = recording ∧
        first.line + 1 ≤ log.next ∧ log.next ≤ recording.lineCount) ∧
    Messages recording first columns (emitted reached.effects) := by
  intro reached
  have hreach : Reachable config reached.player := h.obeyAll _
  have hloaded : (player.obey ⟨now, .load recording⟩).player.HoldsOnly recording := by
    have hlog : (player.obey ⟨now, .load recording⟩).player.log = some (Log.start recording) := rfl
    rintro _ hsome
    obtain rfl := Option.some.inj (hlog.symm.trans hsome)
    rfl
  have hquiet : emitted (player.obey ⟨now, .load recording⟩).effects = [] := emitted_of_still rfl
  obtain ⟨honly, hmessages⟩ := messages_of_obeyAll orders (h.obey ⟨now, .load recording⟩) hloaded
    horders hrecords hheader
  refine ⟨?_, ?_⟩
  · intro hstate
    cases hlog : reached.player.log with
    | none =>
      have hidle := hreach.steady.loaded hlog
      rcases hstate with hstate | hstate <;> simp [hstate] at hidle
    | some log =>
      obtain rfl := honly log hlog
      have hready := hreach.steady.toReady
      obtain ⟨-, hbelow⟩ := below_header hready hreach.keepsToData hstate hlog hrecords hheader
      exact ⟨log, rfl, rfl, hbelow, log.next_le⟩
  · have hsent : emitted reached.effects =
        emitted ((player.obey ⟨now, .load recording⟩).player.obeyAll orders).effects := by
      simp only [reached, obeyAll, andThen_effects, emitted_append, hquiet, List.nil_append]
    rw [hsent]
    exact hmessages

end Table

-- A comment above the header, and a row without a message below it.
def commentedTable : Recording :=
  Recording.ofLines "commented table"
    (["# log".toList, "timestamp,message".toList, "none".toList] ++ List.replicate 12 ",b".toList)

-- Without a scan the player is sent back to the first line, started, and paused after the first batch.
def unscannedOrders : List Order := [⟨0, .seek Binary64.zero⟩, ⟨0, .start⟩, ⟨1, .pause⟩]

theorem only_messages_below_commented_header :
    let reached := (Player.new Config.default).obeyAll (⟨0, .load commentedTable⟩ :: unscannedOrders)
    reached.player.state = .paused ∧ (∃ log, reached.player.log = some log ∧ 2 ≤ log.next) ∧
      emitted reached.effects = List.replicate 10 "b".toList ∧
      Messages commentedTable ⟨1, "timestamp,message".toList⟩ ⟨0, 1⟩ (emitted reached.effects) := by
  intro reached
  have hstate : reached.player.state = .paused := by decide +kernel
  have hsent : emitted reached.effects = List.replicate 10 "b".toList := by decide +kernel
  have hheader : Columns.ofHeader? "timestamp,message".toList = some ⟨0, 1⟩ := by decide +kernel
  have hrecords : commentedTable.records =
      ⟨1, "timestamp,message".toList⟩ :: commentedTable.records.tail := by
    decide +kernel
  have horders : ∀ order ∈ unscannedOrders, ∀ other, order.command = .load other → other = commentedTable := by
    simp [unscannedOrders]
  have hnew : Reachable Config.default (Player.new Config.default) := .new
  obtain ⟨hbelow, hmessages⟩ := only_messages_below_header 0 unscannedOrders hnew hrecords hheader horders
  obtain ⟨log, hlog, -, hline, -⟩ := hbelow (.inr hstate)
  exact ⟨hstate, ⟨log, hlog, hline⟩, hsent, hmessages⟩

end Player

end VoyageLog
