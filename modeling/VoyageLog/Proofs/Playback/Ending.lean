import VoyageLog.Proofs.Playback.Anchors
import VoyageLog.Proofs.Playback.Timer

namespace VoyageLog.Player

theorem delayUntil?_pos {now delay : Nat} {instant : Instant} {player : Player}
    (h : player.delayUntil? now instant = some delay) : 0 < delay := by
  unfold delayUntil? at h
  split at h
  · rename_i anchor timeline hanchor htimeline
    dsimp only at h
    split at h
    · cases h
    · split at h
      · rename_i hdue
        obtain rfl := Option.some.inj h
        omega
      · cases h
  · cases h

-- A player that plays by time waits for what is not due yet, and for nothing else.
theorem take_pos {now delay : Nat} {record : Record} {player next : Player} (htimed : player.isTimed)
    (h : player.take now record = (next, some delay)) : 0 < delay := by
  unfold take at h
  split at h
  · cases h
  · rename_i reading listener hreading
    dsimp only at h
    split at h
    · exact delayUntil?_pos (Prod.mk.inj h).2
    · have hbatch := (Prod.mk.inj h).2
      have hstill : (hold reading.payload { player with listener }).isTimed = true := htimed
      simp [hstill] at hbatch

theorem takeAll_pos {now line delay : Nat} {records : List Record} {player taken : Player}
    (htimed : player.isTimed) (h : takeAll now records player = (taken, some (line, delay))) : 0 < delay := by
  induction records generalizing player with
  | nil => simp [takeAll] at h
  | cons record rest ih =>
    rcases htake : player.take now record with ⟨next, _ | wait⟩
    · have hrested := rested_take now record player
      rw [htake] at hrested
      simp only [takeAll, htake] at h
      exact ih ((isTimed_of_rested hrested).trans htimed) h
    · simp only [takeAll, htake, Prod.mk.injEq, Option.some.injEq] at h
      obtain ⟨-, -, rfl⟩ := h
      exact take_pos htimed htake

-- What a tick of a playing player comes to: the end, or a wait after some records.
inductive Strides (player : Player) (log after : Log) (step : Step) : Prop
  | ends (hstate : step.player.state = .atEnd) (hunread : after.unread = [])
      (hpending : step.player.pending = none) (hcalls : calls step.effects = player.calledOff)
  | waits (taken : List Record) (htaken : taken ≠ []) (hunread : log.unread = taken ++ after.unread)
      (token : Token) (delay : Nat) (hstate : step.player.state = .playing)
      (hpending : step.player.pending = some token)
      (hcalls : calls step.effects = player.calledOff ++ [.wake token delay])
      (hdelay : player.isTimed → 0 < delay)

theorem strides_tick {player : Player} {log : Log} (now : Nat) (hstate : player.state = .playing)
    (hlog : player.log = some log) :
    ∃ after, (tick now player).player.log = some after ∧ Strides player log after (tick now player) := by
  have hcase := ticked now player
  generalize tick now player = step at hcase
  cases hcase with
  | still hstill => exact absurd hstate hstill
  | unloaded _ hnone => simp [hnone] at hlog
  | ended _ found hfound taken htaken =>
    refine ⟨found.moveTo found.lineCount, rfl, .ends rfl ?_ rfl (by simp)⟩
    rw [Log.unread_moveTo]
    exact found.recording.recordsAt_lineCount
  | waits _ found hfound taken line delay htaken =>
    obtain rfl : found = log := Option.some.inj (hfound.symm.trans hlog)
    have hplaying : taken.state = .playing := (congrArg Player.state (rested_of_takeAll htaken)).trans hstate
    obtain ⟨before, record, rest, hunread, -, rfl⟩ := reads_of_takeAll_some htaken
    refine ⟨found.moveTo (record.line + 1), rfl,
      .waits (before ++ [record]) (by simp) ?_ (player.issued + 1) delay hplaying rfl (by simp) ?_⟩
    · rw [Log.unread_moveTo, (Recording.stretch_of_recordsAt hunread).2, hunread]
      simp
    · intro htimed
      have hbare : isTimed { player with pending := none } := htimed
      exact takeAll_pos hbare htaken

-- The token that the player waits for is delivered, if there is one.
def deliver (player : Player) (now : Nat) : Step :=
  match player.pending with
  | some token => player.obey ⟨now, .wake token⟩
  | none => quietly player

-- And so on, with nothing else in between.
def deliverAll (player : Player) : List Nat → Step
  | [] => quietly player
  | now :: rest => (player.deliver now).andThen fun next => next.deliverAll rest

theorem deliver_of_pending {player : Player} {token : Token} (now : Nat) (h : player.pending = some token) :
    player.deliver now = tick now { player with pending := none } := by
  simp [deliver, obey, Command.run, wake, h]

theorem deliverAll_of_idle {player : Player} (times : List Nat) (h : player.pending = none) :
    player.deliverAll times = quietly player := by
  induction times with
  | nil => rfl
  | cons now rest ih =>
    simp only [deliverAll, deliver, h, Step.andThen, quietly, ih]
    rfl

-- Each delivery leaves fewer records to read, until none is left.
theorem atEnd_of_deliverAll {player : Player} {log : Log} (times : List Nat) (hsteady : Steady player)
    (hstate : player.state = .playing) (hlog : player.log = some log)
    (htimes : log.unread.length < times.length) : (player.deliverAll times).player.state = .atEnd := by
  induction times generalizing player log with
  | nil => simp at htimes
  | cons now rest ih =>
    obtain ⟨token, hpending⟩ := Option.isSome_iff_exists.mp (hsteady.armed.mp hstate)
    have hdeliver := deliver_of_pending now hpending
    have hnext : Steady (player.deliver now).player :=
      hdeliver ▸ (hsteady.toReady.withPending none).tick now hstate
    obtain ⟨after, hafter, hstrides⟩ : ∃ after, (player.deliver now).player.log = some after ∧
        Strides { player with pending := none } log after (player.deliver now) :=
      hdeliver ▸ strides_tick now hstate hlog
    rw [deliverAll, andThen_player]
    cases hstrides with
    | ends hend _ hidle =>
      rw [deliverAll_of_idle rest hidle]
      exact hend
    | waits taken htaken hunread _ _ hplaying =>
      apply ih hnext hplaying hafter
      have hpos := List.length_pos_iff.mpr htaken
      simp only [hunread, List.length_append, List.length_cons] at htimes
      omega

-- The tick of an order is all that the order comes to.
theorem strides_obey {player ready : Player} {log : Log} {order : Order}
    (hticking : player.ticking? order = some ready) (hlog : ready.log = some log) :
    ∃ after, (player.obey order).player.log = some after ∧ Strides ready log after (player.obey order) := by
  have hstate := playing_of_ticking hticking
  obtain ⟨after, hafter, hstrides⟩ := strides_tick order.now hstate hlog
  cases readies hticking with
  | start now hstart =>
    have hrun : player.obey ⟨now, .start⟩ = (announce (player.readied now)).andThen (tick now) := if_pos hstart
    rw [hrun]
    refine ⟨after, hafter, ?_⟩
    cases hstrides with
    | ends hend hunread hpending hcalls => exact .ends hend hunread hpending (by simpa using hcalls)
    | waits taken htaken hunread token delay hplaying hpending hcalls hdelay =>
      exact .waits taken htaken hunread token delay hplaying hpending (by simpa using hcalls) hdelay
  | tick now => exact ⟨after, hafter, hstrides⟩
  | wake now token hpending =>
    have hrun : player.obey ⟨now, .wake token⟩ = tick now { player with pending := none } := if_pos hpending
    rw [hrun]
    exact ⟨after, hafter, hstrides⟩

-- Every tick ends the playback, or takes some of what is to be read and asks for just one wake-up, by time for a
-- later moment. So a playing player is at its end after one delivery more than it has records to read, however
-- early or late each of them comes.
theorem playback_ends {config : Config} {player : Player} (h : Reachable config player) :
    (∀ order ready, player.ticking? order = some ready →
      ∃ log after, ready.log = some log ∧ (player.obey order).player.log = some after ∧
        Strides ready log after (player.obey order)) ∧
    (player.state = .playing → ∃ log, player.log = some log ∧
      ∀ times : List Nat, log.unread.length < times.length →
        (player.deliverAll times).player.state = .atEnd) := by
  refine ⟨?_, ?_⟩
  · intro order ready hticking
    obtain ⟨log, hlog⟩ :=
      (ready_of_ticking h.steady hticking).loaded_of_begun (.inl (playing_of_ticking hticking))
    obtain ⟨after, hafter, hstrides⟩ := strides_obey hticking hlog
    exact ⟨log, after, hlog, hafter, hstrides⟩
  · intro hstate
    obtain ⟨log, hlog⟩ := h.steady.loaded_of_begun (.inl hstate)
    exact ⟨log, hlog, fun times => atEnd_of_deliverAll times h.steady hstate hlog⟩

-- One row has no message cell, and the last one tells no time.
def unevenTable : Recording :=
  Recording.ofLines "uneven table"
    ["timestamp,message".toList, "2024-01-01T12:00:00Z,a".toList, "2024-01-01T12:00:04Z,b".toList,
      "2024-01-01T12:00:09Z,c".toList, "2024-01-01T12:00:10Z".toList, "none,d".toList]

-- Four seconds are to wait until the second message is due.
def unevenPlayer : Player :=
  ((Player.new Config.default).obeyAll [⟨0, .load unevenTable⟩, ⟨0, .scan⟩, ⟨0, .start⟩]).player

-- Three rows are left when the first of the wake-ups comes, too early for the second message.
theorem playback_ends_of_uneven_table :
    Reachable Config.default unevenPlayer ∧ unevenPlayer.state = .playing ∧ unevenPlayer.isTimed ∧
      unevenPlayer.log.map (·.unread.length) = some 3 ∧
      (unevenPlayer.deliver 0).player.log.map (·.unread.length) = some 2 ∧
      (unevenPlayer.deliverAll [0, 7000000000, 1, 2]).player.state = .atEnd := by
  have hreach : Reachable Config.default unevenPlayer := Reachable.new.obeyAll _
  have hstate : unevenPlayer.state = .playing := by decide +kernel
  have htimed : unevenPlayer.isTimed := by decide +kernel
  have hleft : unevenPlayer.log.map (·.unread.length) = some 3 := by decide +kernel
  have hnext : (unevenPlayer.deliver 0).player.log.map (·.unread.length) = some 2 := by decide +kernel
  obtain ⟨log, hlog, hends⟩ := (playback_ends hreach).2 hstate
  have hfew : log.unread.length < [0, 7000000000, 1, 2].length := by
    have hcount : log.unread.length = 3 := by simpa [hlog] using hleft
    simp [hcount]
  exact ⟨hreach, hstate, htimed, hleft, hnext, hends _ hfew⟩

end VoyageLog.Player
