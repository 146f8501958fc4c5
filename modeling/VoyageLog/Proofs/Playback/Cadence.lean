import VoyageLog.Proofs.Binary64.Share
import VoyageLog.Proofs.Playback.Appointments
import VoyageLog.Proofs.Playback.Rescan

namespace VoyageLog

open Binary64

theorem Binary64.truncate_by_one {whole : Int} (hlow : 0 ≤ whole) (hhigh : whole ≤ 9007199254740992) :
    (ofInt whole / one).truncate = whole := by
  obtain ⟨number, hnumber, hpositive, hmagnitude⟩ := ofInt_exact hlow hhigh
  have hone : Finite.one.magnitude = 1 := by decide +kernel
  have hquotient : finite number / finite Finite.one = .finite number := by
    rw [div_unsigned hpositive rfl (by rw [hone]; exact zero_lt_one), hone, div_one, nearestSigned_magnitude,
      ← hpositive]
  have hvalue : number.value = whole := by simp [Finite.value, hpositive, hmagnitude]
  rw [hnumber, show one = finite Finite.one from rfl, hquotient]
  change saturate (truncated number.value) = whole
  rw [hvalue, truncated, Rat.num_intCast, Rat.den_intCast]
  simpa using saturate_of_moderate (by omega) (by omega)

-- In real time, whole microseconds take as long as they say.
theorem Speed.wallMicroseconds_realTime {count : Nat} (h : count ≤ 9007199254740992) :
    Speed.realTime.wallMicroseconds (count * 1000) = count := by
  have hspeed : Speed.realTime.toNumber = one := by decide +kernel
  have hcount : wholeMicroseconds (count * 1000) = count := by
    have hexact : ((count : Int) * 1000).tdiv 1000 = count := Int.mul_tdiv_cancel _ (by decide)
    rw [wholeMicroseconds, hexact, if_pos]
    unfold leastWord greatestWord
    omega
  rw [wallMicroseconds, hcount, hspeed]
  exact truncate_by_one (by omega) (by omega)

namespace Player

-- What a run sends out, and what the wall shows then.
def sent (player : Player) : List Order → List (Nat × Text)
  | [] => []
  | order :: rest =>
    (emitted (player.obey order).effects).map (order.now, ·) ++ (player.obey order).player.sent rest

-- When the wake-ups are due that a run asks for.
def wakeTimes (player : Player) : List Order → List Nat
  | [] => []
  | order :: rest =>
    ((delayAsked? (player.obey order).effects).map (order.now + ·)).toList ++
      (player.obey order).player.wakeTimes rest

-- A player that plays by time and was to be woken at this moment, after all that it was told.
structure AwaitsAt (config : Config) (history : List Order) (player : Player) (wall : Nat) : Prop where
  told : ((Player.new config).obeyAll history).player = player
  playing : player.state = .playing
  timed : player.isTimed
  last : ((Player.new config).wakeTimes history).getLast? = some wall

-- Neither a pause nor a speed that is set again leaves the player to wait for what it waited for.
theorem cadence_not_kept :
    (¬∀ config history player wall, AwaitsAt config history player wall → ∀ pausedAt resumedAt,
      pausedAt < wall → pausedAt ≤ resumedAt →
        ∀ sending ∈ player.sent [⟨pausedAt, .pause⟩, ⟨resumedAt, .start⟩],
          resumedAt + (wall - pausedAt) ≤ sending.1) ∧
    ¬∀ config history player wall, AwaitsAt config history player wall → ∀ setAt, setAt < wall →
      ∀ sending ∈ player.sent [⟨setAt, .setSpeed player.speed.toNumber⟩, ⟨setAt, .wake (player.issued + 1)⟩],
        wall ≤ sending.1 := by
  have hawaits : AwaitsAt Config.default [⟨0, .load gappedTable⟩, ⟨0, .scan⟩, ⟨0, .start⟩] gappedPlayer
      2000000000 := by
    refine ⟨rfl, ?_, ?_, ?_⟩ <;> decide +kernel
  refine ⟨fun hkept => ?_, fun hkept => ?_⟩
  · have hsent : (10000000000, ['d']) ∈ gappedPlayer.sent [⟨1000000000, .pause⟩, ⟨10000000000, .start⟩] := by
      decide +kernel
    have hlate := hkept _ _ _ _ hawaits 1000000000 10000000000 (by decide) (by decide) _ hsent
    simp at hlate
  · have hsent : (1000000000, ['d']) ∈ gappedPlayer.sent
        [⟨1000000000, .setSpeed gappedPlayer.speed.toNumber⟩, ⟨1000000000, .wake (gappedPlayer.issued + 1)⟩] := by
      decide +kernel
    have hlate := hkept _ _ _ _ hawaits 1000000000 (by decide) _ hsent
    simp at hlate

section Interrupting

variable {config : Config} {player : Player} {timeline : Timeline}

-- The schedule of a player that goes on at some moment as if the record that was sent last had just been due.
def scheduleFrom (player : Player) (timeline : Timeline) (now : Nat) : Schedule :=
  ⟨⟨now, timeline.elapsed⟩, timeline.first, player.speed⟩

-- There is something left to play.
def HasMore (player : Player) : Prop := ∃ entry ∈ player.ahead, (entry.1.payload? player.clock.layout).isSome

-- Whoever ticks with something left to play sends something.
theorem emitted_ne_nil {ready : Player} {order : Order} {schedule : Schedule} (hsteady : Steady player)
    (hpos : 0 < player.capacity) (hticking : player.ticking? order = some ready)
    (hschedule : ready.schedule? = some schedule) (hmore : ready.HasMore) :
    emitted (player.obey order).effects ≠ [] := by
  have hcatches := catchesUp_obey hsteady hpos hticking hschedule
  cases hcatches with
  | waits before record instant delay hahead hdue hnot hreads hlast =>
    obtain ⟨payload, -, hsent⟩ := hlast
    intro hnothing
    simp [hnothing] at hsent
  | ends hdue hreads =>
    obtain ⟨⟨record, told⟩, hmem, hpayload⟩ := hmore
    obtain ⟨payload, hsays⟩ := Option.isSome_iff_exists.mp hpayload
    have hall : payload ∈ ((tickReads order.now ready).map (·.1)).filterMap (·.payload? ready.clock.layout) := by
      rw [hreads]
      exact List.mem_filterMap.mpr ⟨record, List.mem_map.mpr ⟨_, hmem, rfl⟩, hsays⟩
    have hroom : 0 < ready.capacity := capacity_of_ticking hticking ▸ hpos
    rw [emitted_of_ticking hticking, emitted_tick order.now (ready_of_ticking hsteady hticking).held hroom]
    intro hnothing
    have hlength := List.length_pos_of_mem hall
    have hempty := congrArg List.length hnothing
    simp only [List.rtake, List.length_drop, List.length_nil] at hempty
    omega

-- A playing player whose speed is set to what it is plans its next record anew, for now.
theorem obey_sameSpeed (now : Nat) (hstate : player.state = .playing) (htimed : player.isTimed) :
    player.obey ⟨now, .setSpeed player.speed.toNumber⟩ = reporting
      (player.calledOff ++ [.wake (player.issued + 1) 0])
      { player.rebase now with pending := some (player.issued + 1), issued := player.issued + 1 } := by
  have hsame := Speed.ofNumber?_toNumber player.speed
  obtain ⟨result, -, hcase, hobey⟩ := player.obeying now (.setSpeed player.speed.toNumber)
  rw [hobey]
  cases hcase with
  | speedRefused _ hspeed => simp [hsame] at hspeed
  | speed _ _ _ hstill => exact absurd hstate hstill
  | speedPlaying _ speed hspeed =>
    obtain rfl : player.speed = speed := by simpa [hsame] using hspeed
    simp [htimed]
    rfl

-- The wake-up of a tick is due when the record is that it has sent ahead.
theorem due_of_appointment {order : Order} {record : Record} {wall : Nat} {schedule : Schedule}
    (hreach : Reachable config player) (hasks : player.appointment? order = some ⟨record, wall⟩)
    (hschedule : (player.obey order).player.schedule? = some schedule)
    (htimeline : (player.obey order).player.clock.timeline = some timeline) :
    (wall : Int) = schedule.due timeline.current := by
  obtain ⟨ready, hticking⟩ : ∃ ready, player.ticking? order = some ready := by
    cases hticking : player.ticking? order with
    | some ready => exact ⟨ready, rfl⟩
    | none => simp [appointment?, orderReads, hticking] at hasks
  have hready : ready.schedule? = some schedule := by
    rw [← hschedule, obey_of_ticking hticking, schedule?_tick]
  rcases appointment?_eq hticking (catchesUp_obey hreach.steady hreach.capacity_pos hticking hready) with
    ⟨before, found, instant, due, hsame, hdue, -, hclock⟩ | ⟨hnone, -⟩
  · obtain ⟨-, rfl⟩ : found = record ∧ due = wall := by simpa [hsame] using hasks
    rw [hclock] at htimeline
    obtain ⟨held, -, rfl⟩ := Option.map_eq_some_iff.mp htimeline
    exact hdue
  · simp [hnone] at hasks

-- In real time, and to the microsecond, a new anchor shifts the schedule by as much as it is late for the record
-- that was sent last.
theorem due_scheduleFrom {schedule : Schedule} (hschedule : player.schedule? = some schedule)
    (htimeline : player.clock.timeline = some timeline) (hspeed : player.speed = Speed.realTime)
    {instant : Instant} {passed lapse : Nat} (hpassed : timeline.elapsed - schedule.anchor.offset = passed * 1000)
    (hlapse : instant.since timeline.first - timeline.elapsed = lapse * 1000)
    (hfew : passed + lapse ≤ 9007199254740992) (now : Nat) :
    (player.scheduleFrom timeline now).due instant =
      schedule.due instant + (now - schedule.due timeline.current) := by
  obtain ⟨anchor, _, -, hsame, rfl⟩ := exists_of_schedule hschedule
  obtain rfl := Option.some.inj (htimeline.symm.trans hsame)
  have hwhole : instant.since timeline.first - anchor.offset = (passed + lapse : Nat) * 1000 := by
    dsimp only at hpassed
    push_cast
    omega
  have hcurrent : timeline.current.since timeline.first - anchor.offset = passed * 1000 := hpassed
  simp only [scheduleFrom, Schedule.due, Schedule.lead, hspeed, hlapse, hwhole, hcurrent,
    Speed.wallMicroseconds_realTime hfew, Speed.wallMicroseconds_realTime (show lapse ≤ _ by omega),
    Speed.wallMicroseconds_realTime (show passed ≤ _ by omega)]
  push_cast
  omega

-- The start after a pause sends what comes next, and goes on from there.
theorem resumed_goes_on (h : Reachable config player) (hstate : player.state = .playing)
    (htimeline : player.clock.timeline = some timeline) (pausedAt resumedAt : Nat) :
    (player.HasMore → emitted ((player.obey ⟨pausedAt, .pause⟩).player.obey ⟨resumedAt, .start⟩).effects ≠ []) ∧
    ∀ orders, (∀ order ∈ orders, order.Wakes) →
      ∀ appointment ∈ (player.obey ⟨pausedAt, .pause⟩).player.appointments (⟨resumedAt, .start⟩ :: orders),
        ∃ instant, (appointment.record, some instant) ∈ player.ahead ∧
          (appointment.wall : Int) = (player.scheduleFrom timeline resumedAt).due instant := by
  have hpaused : Reachable config (player.obey ⟨pausedAt, .pause⟩).player := h.obey ⟨pausedAt, .pause⟩
  obtain ⟨ready, hticking, hahead, hlayout, hschedule⟩ :=
    ticking_resumed h.steady hstate htimeline pausedAt resumedAt
  refine ⟨fun hmore => ?_, fun orders horders appointment happointment => ?_⟩
  · refine emitted_ne_nil hpaused.steady hpaused.capacity_pos hticking hschedule ?_
    rw [HasMore, hahead, hlayout]
    exact hmore
  · have hsuffix : ready.ahead <:+ player.ahead := hahead ▸ List.suffix_refl player.ahead
    obtain ⟨hkeeps, hfirst⟩ :=
      onSchedule_of_ticking hpaused.steady hpaused.capacity_pos hticking hschedule hsuffix
    rcases List.mem_append.mp happointment with hnow | hlater
    · exact hfirst appointment (by simpa using hnow)
    · exact hkeeps.due_appointments horders appointment hlater

-- So does the first wake-up after the speed was set to what it is.
theorem replanned_goes_on (h : Reachable config player) (hstate : player.state = .playing)
    (htimeline : player.clock.timeline = some timeline) (setAt : Nat) :
    let replanned := (player.obey ⟨setAt, .setSpeed player.speed.toNumber⟩).player
    (player.HasMore → ∀ now, emitted (replanned.obey ⟨now, .wake (player.issued + 1)⟩).effects ≠ []) ∧
    ∀ orders, (∀ order ∈ orders, order.Wakes) → ∀ appointment ∈ replanned.appointments orders,
      ∃ instant, (appointment.record, some instant) ∈ player.ahead ∧
        (appointment.wall : Int) = (player.scheduleFrom timeline setAt).due instant := by
  intro replanned
  have hreach : Reachable config replanned := h.obey ⟨setAt, .setSpeed player.speed.toNumber⟩
  have hsame : replanned =
      { player.rebase setAt with pending := some (player.issued + 1), issued := player.issued + 1 } := by
    have hobey := obey_sameSpeed setAt hstate (isTimed_of_timeline htimeline)
    exact congrArg Step.player hobey
  have hschedule : replanned.schedule? = some (player.scheduleFrom timeline setAt) := by
    rw [hsame]
    simp [schedule?, Player.rebase, htimeline, scheduleFrom]
  have hahead : replanned.ahead = player.ahead := by
    rw [hsame]
    rfl
  refine ⟨fun hmore now => ?_, fun orders horders => ?_⟩
  · have hticking : replanned.ticking? ⟨now, .wake (player.issued + 1)⟩ =
        some { replanned with pending := none } := by
      rw [hsame]
      simp [ticking?, Player.rebase, hstate]
    refine emitted_ne_nil hreach.steady hreach.capacity_pos hticking hschedule ?_
    rw [hsame]
    exact hmore
  · have hkeeps : OnSchedule (player.scheduleFrom timeline setAt) player.ahead replanned :=
      ⟨hreach.steady, hreach.capacity_pos, hschedule, hahead ▸ List.suffix_refl player.ahead⟩
    exact hkeeps.due_appointments horders

-- An interruption cuts the wait for the record short that was sent last. Neither a pause nor setting the speed in force
-- again sends anything; but the start that follows the pause sends at once whatever comes next, and the speed asks for
-- a wake-up without delay, which does. All that follows is due as long after the start, or after the speed was set, as
-- it was recorded after the current instant, whenever the player was to be woken and however long it was paused.
theorem interruption_cuts_wait_short (h : Reachable config player) (hstate : player.state = .playing)
    (htimeline : player.clock.timeline = some timeline) (interruptedAt resumedAt : Nat) :
    let paused := player.obey ⟨interruptedAt, .pause⟩
    let replanned := player.obey ⟨interruptedAt, .setSpeed player.speed.toNumber⟩
    (emitted paused.effects = [] ∧
      (player.HasMore → emitted (paused.player.obey ⟨resumedAt, .start⟩).effects ≠ []) ∧
      ∀ orders, (∀ order ∈ orders, order.Wakes) →
        ∀ appointment ∈ paused.player.appointments (⟨resumedAt, .start⟩ :: orders), ∃ instant,
          (appointment.record, some instant) ∈ player.ahead ∧
          (appointment.wall : Int) = (player.scheduleFrom timeline resumedAt).due instant) ∧
    (emitted replanned.effects = [] ∧
      calls replanned.effects = player.calledOff ++ [.wake (player.issued + 1) 0] ∧
      (player.HasMore → ∀ now, emitted (replanned.player.obey ⟨now, .wake (player.issued + 1)⟩).effects ≠ []) ∧
      ∀ orders, (∀ order ∈ orders, order.Wakes) → ∀ appointment ∈ replanned.player.appointments orders,
        ∃ instant, (appointment.record, some instant) ∈ player.ahead ∧
          (appointment.wall : Int) = (player.scheduleFrom timeline interruptedAt).due instant) ∧
    (∀ now instant, (player.scheduleFrom timeline now).due instant =
      now + player.speed.wallMicroseconds (instant.since timeline.first - timeline.elapsed) * 1000) ∧
    ∀ before order record wall schedule, Reachable config before →
      before.appointment? order = some ⟨record, wall⟩ → (before.obey order).player = player →
      player.schedule? = some schedule → player.speed = Speed.realTime →
      ∀ instant (passed lapse : Nat), timeline.elapsed - schedule.anchor.offset = passed * 1000 →
        instant.since timeline.first - timeline.elapsed = lapse * 1000 → passed + lapse ≤ 9007199254740992 →
        ∀ now : Nat, (player.scheduleFrom timeline now).due instant = schedule.due instant + (now - wall) := by
  intro paused replanned
  have hcalls : calls replanned.effects = player.calledOff ++ [.wake (player.issued + 1) 0] := by
    have hobey := obey_sameSpeed interruptedAt hstate (isTimed_of_timeline htimeline)
    rw [show replanned = _ from hobey]
    simp
  refine ⟨⟨emitted_of_still rfl, resumed_goes_on h hstate htimeline interruptedAt resumedAt⟩,
    ⟨emitted_of_still rfl, hcalls, replanned_goes_on h hstate htimeline interruptedAt⟩, fun now instant => rfl, ?_⟩
  rintro before order record wall schedule hbefore hasks rfl hschedule hspeed instant passed lapse hpassed hlapse hfew
    now
  rw [due_of_appointment hbefore hasks hschedule htimeline]
  exact due_scheduleFrom hschedule htimeline hspeed hpassed hlapse hfew now

-- A second before it is to be woken the player is paused, and resumed after nine more; the next row goes out then, and
-- the one after it two seconds later.
theorem interruption_cuts_wait_short_by_a_second :
    Reachable Config.default gappedPlayer ∧ gappedPlayer.state = .playing ∧
      (∃ timeline, gappedPlayer.clock.timeline = some timeline) ∧ gappedPlayer.HasMore ∧
      emitted ((gappedPlayer.obey ⟨1000000000, .pause⟩).player.obey ⟨10000000000, .start⟩).effects ≠ [] ∧
      (gappedPlayer.obey ⟨1000000000, .pause⟩).player.appointments
        [⟨10000000000, .start⟩, ⟨12000000000, .wake 2⟩] =
        [⟨⟨5, "2024-01-01T12:00:04Z,d".toList⟩, 12000000000⟩,
          ⟨⟨6, "2024-01-01T12:00:09Z,e".toList⟩, 17000000000⟩] := by
  have hreach : Reachable Config.default gappedPlayer := Reachable.new.obeyAll _
  have hstate : gappedPlayer.state = .playing := by decide +kernel
  have hmore : gappedPlayer.HasMore := by
    unfold HasMore
    decide +kernel
  have hasked : (gappedPlayer.obey ⟨1000000000, .pause⟩).player.appointments
      [⟨10000000000, .start⟩, ⟨12000000000, .wake 2⟩] =
      [⟨⟨5, "2024-01-01T12:00:04Z,d".toList⟩, 12000000000⟩,
        ⟨⟨6, "2024-01-01T12:00:09Z,e".toList⟩, 17000000000⟩] := by decide +kernel
  obtain ⟨timeline, htimeline⟩ : ∃ timeline, gappedPlayer.clock.timeline = some timeline :=
    Option.isSome_iff_exists.mp (by decide +kernel)
  obtain ⟨⟨-, hsends, -⟩, -⟩ := interruption_cuts_wait_short hreach hstate htimeline 1000000000 10000000000
  exact ⟨hreach, hstate, ⟨timeline, htimeline⟩, hmore, hsends hmore, hasked⟩

end Interrupting

end Player

end VoyageLog
