import VoyageLog.Proofs.Playback.Ending
import VoyageLog.Proofs.Playback.Faults
import VoyageLog.Proofs.Playback.Resuming

namespace VoyageLog

-- A second at a speed, in whole nanoseconds.
theorem Speed.secondOnWall_near (speed : Speed) :
    |(speed.secondOnWall : Rat) - 1000000000 / speed.rate.value| < 1 := by
  obtain ⟨seconds, hseconds, hnear⟩ := speed.second_near
  obtain ⟨hlow, hhigh⟩ := abs_le.mp hnear
  obtain ⟨hbelow, habove⟩ := Binary64.roundHalfEven_near (seconds.value * 1000000000)
  have hdelay : speed.secondOnWall = (Binary64.roundHalfEven (seconds.value * 1000000000)).toNat := by
    simp only [Speed.secondOnWall, hseconds]
  have hleast : 1 / 1000 ≤ 1 / speed.rate.value := by
    obtain ⟨hslow, hfast⟩ := speed.rate_bounds
    rw [div_le_div_iff₀ (by norm_num) (by linarith only [hslow])]
    linarith only [hfast]
  have hquotient : 1000000000 / speed.rate.value = 1 / speed.rate.value * 1000000000 := by ring
  rw [hdelay, hquotient, abs_lt]
  generalize Binary64.roundHalfEven (seconds.value * 1000000000) = whole at hbelow habove ⊢
  have hnonneg : 0 ≤ whole := by
    have hpos : (0 : Rat) < whole := by linarith only [hbelow, hlow, hleast]
    exact_mod_cast hpos.le
  obtain ⟨count, rfl⟩ := Int.eq_ofNat_of_zero_le hnonneg
  rw [Int.cast_natCast] at hbelow habove
  rw [Int.toNat_natCast]
  constructor
  · linarith only [hbelow, hlow]
  · linarith only [habove, hhigh]

namespace Player

section Filling

variable {player : Player}

theorem take_unreadable {record : Record} (now : Nat) (huntimed : player.isTimed = false)
    (hpayload : record.payload? player.clock.layout = none) : player.take now record = (player, none) := by
  rw [take_untimed now record huntimed, hpayload]

-- Below its capacity it has room for the record.
theorem take_readable {record : Record} {payload : Text} (now : Nat) (huntimed : player.isTimed = false)
    (hpayload : record.payload? player.clock.layout = some payload) (hroom : player.held.length < player.capacity) :
    player.take now record = ({ player with held := player.held ++ [payload] },
      if batchSize ≤ player.held.length + 1 then some player.speed.secondOnWall else none) := by
  have hfits : ¬player.capacity < (player.held ++ [payload]).length := by
    rw [List.length_append, List.length_singleton]
    omega
  have hheld : hold payload player = { player with held := player.held ++ [payload] } := by
    simp only [hold, hfits, if_false]
  rw [take_untimed now record huntimed, hpayload]
  simp only [hheld, List.length_append, List.length_singleton]

-- What there is to say in some records for a player that knows their layout.
def sayings (player : Player) (records : List Record) : List Text :=
  records.filterMap (·.payload? player.clock.layout)

-- What a player without a timeline comes to: it runs out of records, or it has a batch together.
inductive Fills (player : Player) (records : List Record) : Player × Option (Nat × Nat) → Prop
  | ends (hfew : (player.held ++ player.sayings records).length < batchSize) :
      Fills player records ({ player with held := player.held ++ player.sayings records }, none)
  | fills (before : List Record) (record : Record) (rest : List Record)
      (hrecords : records = before ++ record :: rest)
      (hfull : (player.held ++ player.sayings (before ++ [record])).length = batchSize) :
      Fills player records ({ player with held := player.held ++ player.sayings (before ++ [record]) },
        some (record.line + 1, player.speed.secondOnWall))

theorem Fills.unreadable {record : Record} {rest : List Record} {result : Player × Option (Nat × Nat)}
    (hpayload : record.payload? player.clock.layout = none) (h : Fills player rest result) :
    Fills player (record :: rest) result := by
  have hsame : ∀ more, player.sayings (record :: more) = player.sayings more := by
    intro more
    simp [sayings, hpayload]
  cases h with
  | ends hfew =>
    rw [← hsame] at hfew ⊢
    exact .ends hfew
  | fills before last after hrecords hfull =>
    rw [← hsame] at hfull ⊢
    exact .fills (record :: before) last after (congrArg (record :: ·) hrecords) hfull

theorem Fills.readable {record : Record} {payload : Text} {rest : List Record}
    {result : Player × Option (Nat × Nat)} (hpayload : record.payload? player.clock.layout = some payload)
    (h : Fills { player with held := player.held ++ [payload] } rest result) :
    Fills player (record :: rest) result := by
  have hsaid : ∀ more, player.held ++ player.sayings (record :: more) =
      player.held ++ [payload] ++ player.sayings more := by
    intro more
    simp [sayings, hpayload]
  cases h with
  | ends hfew =>
    have hends : Fills player (record :: rest) _ := .ends (by rw [hsaid]; exact hfew)
    rw [hsaid] at hends
    exact hends
  | fills before last after hrecords hfull =>
    have hfills : Fills player (record :: rest) _ :=
      .fills (record :: before) last after (congrArg (record :: ·) hrecords) (by
        rw [List.cons_append, hsaid]
        exact hfull)
    rw [List.cons_append, hsaid] at hfills
    exact hfills

theorem fills_takeAll (now : Nat) (records : List Record) (huntimed : player.isTimed = false)
    (hroom : batchSize ≤ player.capacity) (hheld : player.held.length < batchSize) :
    Fills player records (takeAll now records player) := by
  induction records generalizing player with
  | nil =>
    have hends : Fills player [] _ := .ends (by simpa [sayings] using hheld)
    simpa [sayings, takeAll] using hends
  | cons record rest ih =>
    cases hpayload : record.payload? player.clock.layout with
    | none =>
      simp only [takeAll, take_unreadable now huntimed hpayload]
      exact (ih huntimed hroom hheld).unreadable hpayload
    | some payload =>
      have htake := take_readable now huntimed hpayload (by omega)
      have hlength : (player.held ++ [payload]).length = player.held.length + 1 := by simp
      by_cases hfull : batchSize ≤ player.held.length + 1
      · rw [if_pos hfull] at htake
        have hsaid : player.sayings [record] = [payload] := by simp [sayings, hpayload]
        have hfills : Fills player (record :: rest) _ := .fills [] record rest rfl (by
          rw [List.nil_append, hsaid]
          omega)
        simpa [takeAll, htake, hsaid] using hfills
      · rw [if_neg hfull] at htake
        have hmore : (player.held ++ [payload]).length < batchSize := by omega
        simp only [takeAll, htake]
        exact (@ih { player with held := player.held ++ [payload] } huntimed hroom hmore).readable hpayload

-- So it never takes a record while it is full.
theorem spares_reads (now : Nat) (records : List Record) (huntimed : player.isTimed = false)
    (hroom : batchSize ≤ player.capacity) (hheld : player.held.length < batchSize) :
    ∀ read ∈ reads now records player, ¬Evicts read := by
  induction records generalizing player with
  | nil => simp [reads]
  | cons record rest ih =>
    have hone : ¬Evicts (record, player) := by
      rintro ⟨-, hevicts⟩
      change player.capacity ≤ player.held.length at hevicts
      omega
    cases hpayload : record.payload? player.clock.layout with
    | none =>
      simp only [reads, take_unreadable now huntimed hpayload, List.forall_mem_cons]
      exact ⟨hone, ih huntimed hroom hheld⟩
    | some payload =>
      have htake := take_readable now huntimed hpayload (by omega)
      by_cases hfull : batchSize ≤ player.held.length + 1
      · rw [if_pos hfull] at htake
        simpa [reads, htake] using hone
      · rw [if_neg hfull] at htake
        simp only [reads, htake, List.forall_mem_cons]
        refine ⟨hone, @ih { player with held := player.held ++ [payload] } huntimed hroom ?_⟩
        rw [List.length_append, List.length_singleton]
        omega

end Filling

-- A step that sends out a full batch and asks for just one wake-up, a second away at the speed of the player.
structure Batch (speed : Speed) (batch : List Text) (step : Step) : Prop where
  sent : emitted step.effects = batch
  full : batch.length = batchSize
  asked : ∃ token, calls step.effects = [.wake token speed.secondOnWall] ∧ step.player.pending = some token
  playing : step.player.state = .playing

-- A step that sends out what is left and asks for no wake-up.
structure Closing (rest : List Text) (step : Step) : Prop where
  sent : emitted step.effects = rest
  few : rest.length < batchSize
  asked : calls step.effects = [] ∧ step.player.pending = none
  ended : step.player.state = .atEnd

-- A player between two orders that goes by batches, and all that is left for it to say.
structure Batches (speed : Speed) (left : List Text) (player : Player) : Prop where
  steady : Steady player
  speed : player.speed = speed
  untimed : player.isTimed = false
  roomy : batchSize ≤ player.capacity
  left : ∃ log, player.log = some log ∧ player.sayings log.unread = left
  laid : player.CanStart → player.withLayout = player

-- An order that has the player tick, after which it has no wake-up to call off.
def Opens (player : Player) (order : Order) : Prop :=
  ∃ ready, player.ticking? order = some ready ∧ ready.pending = none

section Ticking

variable {player : Player} {speed : Speed} {left : List Text}

-- A tick sends out a batch and leaves the rest, or it sends out all.
theorem batch_of_tick {log : Log} (now : Nat) (hready : Ready player) (hstate : player.state = .playing)
    (hpending : player.pending = none) (hspeed : player.speed = speed) (huntimed : player.isTimed = false)
    (hroom : batchSize ≤ player.capacity) (hlog : player.log = some log)
    (hleft : player.sayings log.unread = left) :
    (batchSize ≤ left.length ∧ Batch speed (left.take batchSize) (tick now player) ∧
      Batches speed (left.drop batchSize) (tick now player).player) ∨
    Closing left (tick now player) := by
  have hfills := @fills_takeAll { player with pending := none } now log.unread huntimed hroom
    (by rw [hready.held]; decide)
  have hsteady := hready.tick now hstate
  have hcase := ticked now player
  generalize tick now player = step at hsteady hcase ⊢
  cases hcase with
  | still hstill => exact absurd hstate hstill
  | unloaded _ hnone => simp [hnone] at hlog
  | ended _ found hfound taken htaken =>
    obtain rfl := Option.some.inj (hfound.symm.trans hlog)
    rw [htaken] at hfills
    cases hfills with
    | ends hfew =>
      simp only [hready.held, List.nil_append] at hfew
      change (player.sayings found.unread).length < batchSize at hfew
      rw [hleft] at hfew
      refine .inr ⟨?_, hfew, ⟨by simp [calledOff, hpending], rfl⟩, rfl⟩
      simp only [reporting_effects, calledOff, hpending, hready.held, List.nil_append]
      simpa [sayings] using hleft
  | waits _ found hfound taken line delay htaken =>
    obtain rfl := Option.some.inj (hfound.symm.trans hlog)
    rw [htaken] at hfills
    cases hfills with
    | fills before record rest hrecords hfull =>
      simp only [hready.held, List.nil_append] at hfull
      change (player.sayings (before ++ [record])).length = batchSize at hfull
      have hsplit : left = player.sayings (before ++ [record]) ++ player.sayings rest := by
        rw [← hleft, hrecords, sayings, sayings, sayings, ← List.filterMap_append]
        simp
      have hunread : (found.moveTo (record.line + 1)).unread = rest := by
        rw [Log.unread_moveTo]
        exact (Recording.stretch_of_recordsAt hrecords).2
      refine .inl ⟨?_, ⟨?_, ?_, ⟨player.issued + 1, ?_, rfl⟩, hstate⟩,
        hsteady, hspeed, huntimed, hroom, ?_, ?_⟩
      · rw [hsplit, List.length_append]
        omega
      · rw [hsplit, List.take_left' hfull]
        simp only [reporting_effects, calledOff, hpending, hready.held, List.nil_append]
        simp [sayings]
      · rw [hsplit, List.take_left' hfull, hfull]
      · simp [calledOff, hpending, hspeed]
      · refine ⟨_, rfl, ?_⟩
        rw [hsplit, List.drop_left' hfull, hunread]
        rfl
      · rintro ⟨hidle, -⟩
        simp [hstate] at hidle

-- So does an order that has it tick.
theorem Batches.obey {order : Order} (h : Batches speed left player) (hopens : player.Opens order) :
    ((batchSize ≤ left.length ∧ Batch speed (left.take batchSize) (player.obey order) ∧
      Batches speed (left.drop batchSize) (player.obey order).player) ∨
    Closing left (player.obey order)) ∧ player.Spares order := by
  obtain ⟨ready, hticking, hpending⟩ := hopens
  obtain ⟨hheld, hcapacity, hclock, hlog, hplaying⟩ := of_ticking h.laid hticking
  obtain ⟨log, hloaded, hleft⟩ := h.left
  have hready := ready_of_ticking h.steady hticking
  have huntimed : ready.isTimed = false := (congrArg Clock.isTimed hclock).trans h.untimed
  have hroom : batchSize ≤ ready.capacity := hcapacity ▸ h.roomy
  have hspeed : ready.speed = speed := by
    rw [← h.speed]
    cases readies hticking with
    | start now hstart => rw [readied, h.laid hstart]; rfl
    | tick | wake => rfl
  have hsaid : ready.sayings log.unread = left := by rw [← hleft, sayings, sayings, hclock]
  obtain ⟨news, hobey⟩ := obey_eq_of_ticking hticking
  refine ⟨?_, ?_⟩
  · rw [hobey]
    rcases batch_of_tick order.now hready hplaying hpending hspeed huntimed hroom (hlog.trans hloaded) hsaid with
      ⟨henough, hbatch, hnext⟩ | hclosing
    · refine .inl ⟨henough, ⟨?_, hbatch.full, ?_, hbatch.playing⟩, hnext⟩
      · simpa using hbatch.sent
      · simpa using hbatch.asked
    · refine .inr ⟨?_, hclosing.few, ?_, hclosing.ended⟩
      · simpa using hclosing.sent
      · simpa using hclosing.asked
  · have hspares := @spares_reads { ready with pending := none } order.now log.unread huntimed hroom
      (by rw [hready.held]; decide)
    rw [← tickReads_of_playing order.now hplaying (hlog.trans hloaded)] at hspares
    simpa [Spares, orderReads, hticking] using hspares

end Ticking

-- The orders of someone who delivers each token that the player waits for, for as long as it waits for one.
def deliveries (player : Player) : List Nat → List Order
  | [] => []
  | now :: rest =>
    match player.pending with
    | none => []
    | some token => ⟨now, .wake token⟩ :: (player.obey ⟨now, .wake token⟩).player.deliveries rest

-- The same after an order to begin with.
def orderAndDeliver (player : Player) (order : Order) (times : List Nat) : List Order :=
  order :: (player.obey order).player.deliveries times

def steps (player : Player) : List Order → List Step
  | [] => []
  | order :: rest => player.obey order :: (player.obey order).player.steps rest

theorem opens_of_pending {player : Player} {token : Token} (now : Nat) (hstate : player.state = .playing)
    (hpending : player.pending = some token) : player.Opens ⟨now, .wake token⟩ :=
  ⟨{ player with pending := none }, by simp [ticking?, hpending, hstate], rfl⟩

theorem opens_start {player : Player} (now : Nat) (hsteady : Steady player) (hstart : player.CanStart)
    (hlaid : player.withLayout = player) : player.Opens ⟨now, .start⟩ := by
  have hstill : player.pending = none := by
    have hwaits := hsteady.armed
    rcases hstart.1 with hstate | hstate <;> simpa [hstate] using hwaits
  exact ⟨player.readied now, by simp [ticking?, hstart, readied, rebase], by rw [readied, hlaid]; exact hstill⟩

-- What a playback comes to that goes on for so many deliveries at most: a batch of each ten records that are left, and
-- the rest with the step after those.
structure GoesByBatches (speed : Speed) (left : List Text) (player : Player) (orders : List Order)
    (deliveries : Nat) : Prop where
  count : orders.length = min deliveries (left.length / batchSize) + 1
  batch : ∀ (index : Nat) (step : Step), (player.steps orders)[index]? = some step →
    index < left.length / batchSize →
      Batch speed ((left.drop (batchSize * index)).take batchSize) step
  closing : ∀ (index : Nat) (step : Step), (player.steps orders)[index]? = some step →
    index = left.length / batchSize → Closing (left.drop (batchSize * index)) step
  spares : player.AllSpare orders
  complete : left.length / batchSize ≤ deliveries →
    emitted (player.obeyAll orders).effects = left ∧ (player.obeyAll orders).player.state = .atEnd

section Going

variable {player : Player} {speed : Speed} {left : List Text} {order : Order}

theorem goesByBatches_of_closing (deliveries : Nat) (hclosing : Closing left (player.obey order))
    (hspares : player.Spares order) : GoesByBatches speed left player [order] deliveries := by
  have hnone : left.length / batchSize = 0 := Nat.div_eq_of_lt hclosing.few
  refine ⟨by simp [hnone], ?_, ?_, ⟨hspares, trivial⟩, ?_⟩
  · intro index step _ hindex
    omega
  · intro index step hstep hindex
    obtain rfl : index = 0 := hindex.trans hnone
    obtain rfl : player.obey order = step := by simpa [steps] using hstep
    exact hclosing
  · intro _
    refine ⟨?_, hclosing.ended⟩
    simpa [obeyAll] using hclosing.sent

theorem goesByBatches_of_batch (henough : batchSize ≤ left.length)
    (hbatch : Batch speed (left.take batchSize) (player.obey order)) (hspares : player.Spares order) :
    GoesByBatches speed left player [order] 0 := by
  have hsome : 0 < left.length / batchSize := Nat.div_pos henough (by decide)
  refine ⟨by simp, ?_, ?_, ⟨hspares, trivial⟩, fun hnone => by omega⟩
  · intro index step hstep _
    cases index with
    | zero =>
      obtain rfl : player.obey order = step := by simpa [steps] using hstep
      exact hbatch
    | succ => simp [steps] at hstep
  · intro index step hstep hindex
    cases index with
    | zero => omega
    | succ => simp [steps] at hstep

theorem GoesByBatches.cons {orders : List Order} {deliveries : Nat} (henough : batchSize ≤ left.length)
    (hbatch : Batch speed (left.take batchSize) (player.obey order)) (hspares : player.Spares order)
    (hrest : GoesByBatches speed (left.drop batchSize) (player.obey order).player orders deliveries) :
    GoesByBatches speed left player (order :: orders) (deliveries + 1) := by
  have hmore : left.length / batchSize = (left.drop batchSize).length / batchSize + 1 := by
    rw [List.length_drop]
    exact Nat.div_eq_sub_div (by decide) henough
  have hdrop : ∀ index, (left.drop batchSize).drop (batchSize * index) = left.drop (batchSize * (index + 1)) := by
    intro index
    rw [List.drop_drop, Nat.mul_succ, Nat.add_comm]
  refine ⟨?_, ?_, ?_, ⟨hspares, hrest.spares⟩, ?_⟩
  · rw [List.length_cons, hrest.count, hmore]
    omega
  · intro index step hstep hindex
    cases index with
    | zero =>
      obtain rfl : player.obey order = step := by simpa [steps] using hstep
      simpa using hbatch
    | succ index =>
      have hlater := hrest.batch index step (by simpa [steps] using hstep) (by omega)
      rwa [hdrop] at hlater
  · intro index step hstep hindex
    cases index with
    | zero => simp [hmore] at hindex
    | succ index =>
      have hlater := hrest.closing index step (by simpa [steps] using hstep) (by omega)
      rwa [hdrop] at hlater
  · intro hdeliveries
    obtain ⟨hsent, hended⟩ := hrest.complete (by omega)
    refine ⟨?_, hended⟩
    rw [obeyAll, andThen_effects, emitted_append, hbatch.sent, hsent, List.take_append_drop]

-- Players for which the first order is the same go on in the same way.
theorem GoesByBatches.of_obey {other : Player} {orders : List Order} {deliveries : Nat}
    (hobey : other.obey order = player.obey order) (hreads : other.orderReads order = player.orderReads order)
    (h : GoesByBatches speed left player (order :: orders) deliveries) :
    GoesByBatches speed left other (order :: orders) deliveries := by
  have hsteps : other.steps (order :: orders) = player.steps (order :: orders) := by simp only [steps, hobey]
  have hall : other.obeyAll (order :: orders) = player.obeyAll (order :: orders) := by
    simp only [obeyAll, hobey]
  obtain ⟨hcount, hbatch, hclosing, ⟨hspares, hrest⟩, hcomplete⟩ := h
  refine ⟨hcount, hsteps ▸ hbatch, hsteps ▸ hclosing, ⟨?_, hobey ▸ hrest⟩, hall ▸ hcomplete⟩
  rw [Spares, hreads]
  exact hspares

theorem Batches.goesByBatches (times : List Nat) (h : Batches speed left player) (hopens : player.Opens order) :
    GoesByBatches speed left player (player.orderAndDeliver order times) times.length := by
  induction times generalizing player left order with
  | nil =>
    obtain ⟨⟨henough, hbatch, -⟩ | hclosing, hspares⟩ := h.obey hopens
    · exact goesByBatches_of_batch henough hbatch hspares
    · exact goesByBatches_of_closing 0 hclosing hspares
  | cons now rest ih =>
    obtain ⟨⟨henough, hbatch, hnext⟩ | hclosing, hspares⟩ := h.obey hopens
    · obtain ⟨token, -, hpending⟩ := hbatch.asked
      have hgoes := GoesByBatches.cons henough hbatch hspares
        (ih hnext (opens_of_pending now hbatch.playing hpending))
      simpa [orderAndDeliver, deliveries, hpending] using hgoes
    · have hgoes := @goesByBatches_of_closing player speed left order (now :: rest).length hclosing hspares
      simpa [orderAndDeliver, deliveries, hclosing.asked.2] using hgoes

end Going

section Starting

variable {config : Config} {player : Player} {log : Log}

-- A player that is started has all to say that there is to be played from its line on.
theorem Reachable.sayings_withLayout (h : Reachable config player) (hlog : player.log = some log) :
    ∃ there, player.withLayout.log = some there ∧
      player.withLayout.sayings there.unread = log.recording.playedFrom log.next := by
  have hcase := player.laidOut
  generalize player.withLayout = known at hcase
  cases hcase with
  | known hknown =>
    have hlayout : player.clock.layout.isSome := by simpa [hlog] using hknown
    exact ⟨log, hlog, (h.playedFrom_of_known hlog hlayout).symm⟩
  | blank other hother _ hrecords =>
    obtain rfl := Option.some.inj (hlog.symm.trans hother)
    exact ⟨log, hlog, by simp [sayings, Recording.playedFrom, Log.unread, Recording.recordsAt, hrecords]⟩
  | found other hother _ first rest hrecords =>
    obtain rfl := Option.some.inj (hlog.symm.trans hother)
    refine ⟨_, rfl, ?_⟩
    rw [Log.unread_moveTo]
    simp only [sayings, Recording.playedFrom, hrecords]

theorem batches_withLayout (h : Reachable config player) (huntimed : player.isTimed = false)
    (hlog : player.log = some log) :
    Batches player.speed (log.recording.playedFrom log.next) player.withLayout := by
  have hsame : player.withLayout.speed = player.speed ∧ player.withLayout.isTimed = player.isTimed ∧
      player.withLayout.capacity = player.capacity := by
    have hcase := player.laidOut
    generalize player.withLayout = known at hcase
    cases hcase <;> exact ⟨rfl, rfl, rfl⟩
  obtain ⟨hspeed, htimed, hcapacity⟩ := hsame
  refine ⟨h.steady.withLayout, hspeed, htimed.trans huntimed, ?_, h.sayings_withLayout hlog,
    fun _ => withLayout_withLayout player⟩
  rw [hcapacity, h.capacity]
  exact le_max_right _ _

-- Without a timeline playback goes by batches from wherever it starts, whatever wakes it when: it sends out all that
-- is to be played from there, ten of it at a time, and no record gives way to another. From the first line, or the
-- first one of the data, that is all of the recording.
theorem untimed_playback_goes_by_batches (h : Reachable config player) (hstart : player.CanStart)
    (huntimed : player.isTimed = false) (hlog : player.log = some log) (now : Nat) (times : List Nat) :
    GoesByBatches player.speed (log.recording.playedFrom log.next) player
        (player.orderAndDeliver ⟨now, .start⟩ times) times.length ∧
      |(player.speed.secondOnWall : Rat) - 1000000000 / player.speed.rate.value| < 1 ∧
      (log.next = 0 ∨ player.clock.layout.isSome ∧ log.next = player.clock.dataStart →
        log.recording.playedFrom log.next = log.recording.playedFrom 0) := by
  refine ⟨?_, player.speed.secondOnWall_near, ?_⟩
  · have hbatches := batches_withLayout h huntimed hlog
    have hopens := opens_start now h.steady.withLayout (canStart_withLayout hstart) (withLayout_withLayout player)
    have hgoes := hbatches.goesByBatches times hopens
    obtain ⟨hobey, hreads⟩ := start_withLayout now hstart
    rw [orderAndDeliver, ← hobey] at hgoes
    exact hgoes.of_obey hobey hreads
  · rintro (hfirst | ⟨hlayout, hnext⟩)
    · rw [hfirst]
    · obtain ⟨layout, hlayout⟩ := Option.isSome_iff_exists.mp hlayout
      obtain ⟨first, rest, hrecords, hshown, -⟩ := h.keepsToData log layout hlog hlayout
      simp only [Recording.playedFrom, hrecords, hshown, hnext]
      simp

end Starting

-- No row tells a time, and one has no message.
def timelessTable : Recording :=
  Recording.ofLines "timeless table"
    ("timestamp,message".toList :: List.replicate 6 "x,a".toList ++ ["x".toList] ++ List.replicate 6 "x,b".toList)

-- Twice as fast as recorded, and with less room than a batch takes.
def narrowAndFast : Config := ⟨.finite ⟨false, 4503599627370496, -51, by decide⟩, true, 3⟩

def timelessPlayer : Player :=
  ((Player.new narrowAndFast).obeyAll [⟨0, .load timelessTable⟩, ⟨0, .scan⟩]).player

-- Twelve messages go in two steps, half a second apart, and there is nothing for the last delivery to do.
theorem untimed_playback_goes_by_batches_of_timeless_table :
    let orders := timelessPlayer.orderAndDeliver ⟨0, .start⟩ [7, 5]
    Reachable narrowAndFast timelessPlayer ∧ timelessPlayer.CanStart ∧ timelessPlayer.isTimed = false ∧
      timelessPlayer.speed.secondOnWall = 500000000 ∧ orders.length = 2 ∧
      GoesByBatches timelessPlayer.speed (List.replicate 6 ['a'] ++ List.replicate 6 ['b'])
        timelessPlayer orders 2 := by
  have hreach : Reachable narrowAndFast timelessPlayer := Reachable.new.obeyAll _
  have hstart : timelessPlayer.CanStart := by
    have hidle : timelessPlayer.state = .idle := by decide +kernel
    have hloaded : timelessPlayer.log.isSome := by decide +kernel
    exact ⟨.inl hidle, hloaded⟩
  have huntimed : timelessPlayer.isTimed = false := by decide +kernel
  have hsecond : timelessPlayer.speed.secondOnWall = 500000000 := by decide +kernel
  obtain ⟨log, hlog⟩ := Option.isSome_iff_exists.mp hstart.2
  have hpayloads : log.recording.playedFrom log.next = List.replicate 6 ['a'] ++ List.replicate 6 ['b'] := by
    have hall : timelessPlayer.log.map (fun log => log.recording.playedFrom log.next) =
        some (List.replicate 6 ['a'] ++ List.replicate 6 ['b']) := by decide +kernel
    simpa [hlog] using hall
  obtain ⟨hgoes, -⟩ := untimed_playback_goes_by_batches hreach hstart huntimed hlog 0 [7, 5]
  rw [hpayloads] at hgoes
  exact ⟨hreach, hstart, huntimed, hsecond, hgoes.count, hgoes⟩

end Player

end VoyageLog
