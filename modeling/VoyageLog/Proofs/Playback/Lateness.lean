import VoyageLog.Proofs.Playback.Ending
import VoyageLog.Proofs.Playback.Frames

namespace VoyageLog.Player

-- What is left of a delay when the time has gone on.
def remaining (now later delay : Nat) : Option Nat :=
  if later < now + delay then some (now + delay - later) else none

section Taking

variable {player : Player} {now later : Nat}

theorem delayUntil?_later (instant : Instant) (hle : now ≤ later) :
    player.delayUntil? later instant = (player.delayUntil? now instant).bind (remaining now later) := by
  unfold delayUntil?
  split
  · rename_i anchor timeline _ _
    dsimp only
    generalize player.speed.wallMicroseconds (instant.since timeline.first - anchor.offset) = lead
    by_cases hahead : lead < 0
    · rw [if_pos hahead, if_pos hahead]
      rfl
    rw [if_neg hahead, if_neg hahead]
    by_cases hnow : now < anchor.wall + lead.toNat * 1000
    · have hdue : now + (anchor.wall + lead.toNat * 1000 - now) = anchor.wall + lead.toNat * 1000 := by omega
      rw [if_pos hnow, Option.bind_some, remaining, hdue]
    · rw [if_neg hnow, if_neg (by omega)]
      rfl
  · rfl

-- A record is read alike at all times. Only what it has the player wait for passes with the time.
theorem take_later (record : Record) (htimed : player.isTimed) (hle : now ≤ later) :
    player.take later record =
      ((player.take now record).1, (player.take now record).2.bind (remaining now later)) := by
  unfold take
  rcases Reading.ofRecord player.clock.layout player.isTimed player.listener record with
    ⟨_ | ⟨payload, _ | instant⟩, listener⟩
  · rfl
  · have hstill : (hold payload { player with listener }).isTimed = true := htimed
    simp [hstill]
  · exact congrArg (Prod.mk _) (delayUntil?_later instant hle)

theorem takeAll_later_of_end {records : List Record} {taken : Player} (htimed : player.isTimed) (hle : now ≤ later)
    (htaken : takeAll now records player = (taken, none)) : takeAll later records player = (taken, none) := by
  induction records generalizing player with
  | nil => exact htaken
  | cons record rest ih =>
    have hlate := take_later record htimed hle
    have hstill := isTimed_of_rested (rested_take now record player)
    rcases htake : player.take now record with ⟨next, _ | delay⟩
    · rw [htake] at hlate hstill
      simp only [takeAll, htake] at htaken
      simp only [takeAll, hlate, Option.bind_none]
      exact ih (hstill.trans htimed) htaken
    · simp [takeAll, htake] at htaken

-- A player that would have waited goes on if its time has come, with what it has taken.
theorem takeAll_later_of_wait {records : List Record} {taken : Player} {line delay : Nat} (htimed : player.isTimed)
    (hle : now ≤ later) (htaken : takeAll now records player = (taken, some (line, delay))) :
    ∃ before record rest, records = before ++ record :: rest ∧ line = record.line + 1 ∧
      takeAll later records player =
        match remaining now later delay with
        | some left => (taken, some (line, left))
        | none => takeAll later rest taken := by
  induction records generalizing player with
  | nil => simp [takeAll] at htaken
  | cons record rest ih =>
    have hlate := take_later record htimed hle
    have hstill := isTimed_of_rested (rested_take now record player)
    rcases htake : player.take now record with ⟨next, _ | wait⟩
    · rw [htake] at hlate hstill
      simp only [takeAll, htake] at htaken
      obtain ⟨before, last, after, rfl, hline, hgoes⟩ := ih (hstill.trans htimed) htaken
      refine ⟨record :: before, last, after, rfl, hline, ?_⟩
      simp only [takeAll, hlate, Option.bind_none]
      exact hgoes
    · simp only [takeAll, htake, Prod.mk.injEq, Option.some.injEq] at htaken
      obtain ⟨rfl, rfl, rfl⟩ := htaken
      refine ⟨[], record, rest, rfl, rfl, ?_⟩
      rw [htake] at hlate
      simp only [takeAll, hlate, Option.bind_some]
      cases remaining now later wait <;> rfl

theorem takeAll_of_untimed (now later : Nat) (records : List Record) (huntimed : player.isTimed = false) :
    takeAll later records player = takeAll now records player := by
  induction records generalizing player with
  | nil => rfl
  | cons record rest ih =>
    have hsame : player.take later record = player.take now record := by
      rw [take_untimed later record huntimed, take_untimed now record huntimed]
    have hstill := isTimed_of_rested (rested_take now record player)
    rcases htake : player.take now record with ⟨next, _ | delay⟩
    · rw [htake] at hsame hstill
      simp only [takeAll, hsame, htake]
      exact ih (hstill.trans huntimed)
    · rw [htake] at hsame
      simp only [takeAll, hsame, htake]

end Taking

theorem rtake_rtake_append (records more : List Text) (room : Nat) :
    (records.rtake room ++ more).rtake room = (records ++ more).rtake room := by
  have hwithin : records.length - room ≤ records.length := Nat.sub_le _ _
  simp only [List.rtake]
  rw [← List.drop_append_of_le_length hwithin, List.drop_drop]
  congr 1
  simp only [List.length_drop, List.length_append]
  omega

theorem rtake_append_rtake (records more : List Text) (room : Nat) :
    (records ++ more.rtake room).rtake room = (records ++ more).rtake room := by
  by_cases hfew : more.length ≤ room
  · rw [rtake_of_length_le hfew]
  · have hleft : (more.rtake room).length = room := by
      simp only [List.rtake, List.length_drop]
      omega
    have hbeyond : ∀ rest : List Text, room ≤ rest.length → (records ++ rest).rtake room = rest.rtake room := by
      intro rest hrest
      have hlength : (records ++ rest).length - room = records.length + (rest.length - room) := by
        rw [List.length_append]
        omega
      rw [List.rtake, hlength, List.drop_append, List.drop_eq_nil_of_le (by omega), List.nil_append,
        Nat.add_sub_cancel_left]
      rfl
    rw [hbeyond _ hleft.ge, hbeyond _ (by omega), rtake_of_length_le hleft.le]

-- What paces a player is not what it holds back.
theorem take_holding {player : Player} {held : List Text} (now : Nat) (record : Record) (htimed : player.isTimed)
    (hpos : 0 < player.capacity) (hheld : held.length ≤ player.capacity) :
    ({ player with held } : Player).take now record =
      ({ (player.take now record).1 with
          held := (held ++ (record.payload? player.clock.layout).toList).rtake player.capacity },
        (player.take now record).2) := by
  have hholds : (({ player with held } : Player).take now record).1.held =
      (held ++ (record.payload? player.clock.layout).toList).rtake player.capacity :=
    held_take now record (rtake_of_length_le hheld).symm hpos
  have hsame : ({ player with held } : Player).take now record =
      ({ (player.take now record).1 with held := (({ player with held } : Player).take now record).1.held },
        (player.take now record).2) := by
    have hreading : Reading.ofRecord ({ player with held } : Player).clock.layout
        ({ player with held } : Player).isTimed ({ player with held } : Player).listener record =
        Reading.ofRecord player.clock.layout player.isTimed player.listener record := rfl
    unfold take
    rw [hreading]
    rcases Reading.ofRecord player.clock.layout player.isTimed player.listener record with
      ⟨_ | ⟨payload, _ | instant⟩, listener⟩
    · rfl
    · have hstill : ∀ given, (hold payload { player with held := given, listener }).isTimed = true :=
        fun _ => htimed
      simp only [hstill, Bool.not_true, Bool.false_and, Bool.false_eq_true, if_false]
      rfl
    · rfl
  rw [hsame, hholds]

theorem length_rtake_le (records : List Text) (room : Nat) : (records.rtake room).length ≤ room := by
  rw [List.rtake, List.length_drop]
  omega

-- So it takes the same, whatever it holds, and there is something that it adds to it.
theorem takeAll_holding {player : Player} (now : Nat) (records : List Record) (htimed : player.isTimed)
    (hpos : 0 < player.capacity) :
    ∃ said : List Text, ∀ held : List Text, held.length ≤ player.capacity →
      takeAll now records { player with held } =
        ({ (takeAll now records player).1 with held := (held ++ said).rtake player.capacity },
          (takeAll now records player).2) := by
  induction records generalizing player with
  | nil =>
    refine ⟨[], fun held hheld => ?_⟩
    rw [List.append_nil, rtake_of_length_le hheld]
    rfl
  | cons record rest ih =>
    have hcapacity := capacity_take now record player
    have hstill := isTimed_of_rested (rested_take now record player)
    rcases htake : player.take now record with ⟨next, _ | delay⟩
    · rw [htake] at hcapacity hstill
      obtain ⟨said, hsaid⟩ := ih (hstill.trans htimed) (hcapacity ▸ hpos)
      refine ⟨(record.payload? player.clock.layout).toList ++ said, fun held hheld => ?_⟩
      have hone := take_holding now record htimed hpos hheld
      have hfits : ((held ++ (record.payload? player.clock.layout).toList).rtake player.capacity).length ≤
          next.capacity := by
        rw [hcapacity]
        exact length_rtake_le _ _
      rw [htake] at hone
      simp only [takeAll, hone, htake]
      rw [hsaid _ hfits, hcapacity, rtake_rtake_append, List.append_assoc]
    · refine ⟨(record.payload? player.clock.layout).toList, fun held hheld => ?_⟩
      have hone := take_holding now record htimed hpos hheld
      rw [htake] at hone
      simp only [takeAll, hone, htake]

-- The same player with another cursor and other tokens, which it has no use for while it takes records.
def bearing (log : Option Log) (pending : Option Token) (issued : Nat) (player : Player) : Player :=
  { player with log, pending, issued }

section Bearing

variable (log : Option Log) (pending : Option Token) (issued now : Nat) (player : Player)

theorem take_bearing (record : Record) :
    (player.bearing log pending issued).take now record =
      ((player.take now record).1.bearing log pending issued, (player.take now record).2) := by
  have hreading : Reading.ofRecord (player.bearing log pending issued).clock.layout
      (player.bearing log pending issued).isTimed (player.bearing log pending issued).listener record =
      Reading.ofRecord player.clock.layout player.isTimed player.listener record := rfl
  unfold take
  rw [hreading]
  rcases Reading.ofRecord player.clock.layout player.isTimed player.listener record with
    ⟨_ | ⟨payload, _ | instant⟩, listener⟩ <;> rfl

theorem takeAll_bearing (records : List Record) :
    takeAll now records (player.bearing log pending issued) =
      ((takeAll now records player).1.bearing log pending issued, (takeAll now records player).2) := by
  induction records generalizing player with
  | nil => rfl
  | cons record rest ih =>
    have hone := take_bearing log pending issued now player record
    rcases htake : player.take now record with ⟨next, _ | delay⟩
    · rw [htake] at hone
      simp only [takeAll, hone, htake]
      exact ih next
    · rw [htake] at hone
      simp only [takeAll, hone, htake]

theorem takeAll_withLog (records : List Record) :
    takeAll now records { player with log } =
      ({ (takeAll now records player).1 with log }, (takeAll now records player).2) := by
  have hbears : takeAll now records { player with log } = _ :=
    takeAll_bearing log player.pending player.issued now player records
  have hrested := rested_takeAll now records player
  have hpending : (takeAll now records player).1.pending = player.pending := by
    have h := congrArg Player.pending hrested
    exact h
  have hissued : (takeAll now records player).1.issued = player.issued := by
    have h := congrArg Player.issued hrested
    exact h
  rw [hbears, bearing, ← hpending, ← hissued]

end Bearing

-- What is taken beside what is held is what would be taken without it, by whichever player.
theorem takeAll_resumed {player final : Player} {now : Nat} {records : List Record} {ending : Option (Nat × Nat)}
    (htimed : player.isTimed) (hpos : 0 < player.capacity) (hroom : player.held.length ≤ player.capacity)
    (hfinal : takeAll now records player = (final, ending)) :
    ∃ left : List Text, final.held = (player.held ++ left).rtake player.capacity ∧ ∀ log pending issued,
      takeAll now records { player with log, held := [], pending, issued } =
        ({ final with log, held := left, pending, issued }, ending) := by
  obtain ⟨said, hsaid⟩ := takeAll_holding now records htimed hpos
  rw [hfinal] at hsaid
  refine ⟨said.rtake player.capacity, ?_, ?_⟩
  · have hown := congrArg (·.1.held) (hfinal.symm.trans (hsaid player.held hroom))
    rw [rtake_append_rtake]
    exact hown
  · intro log pending issued
    have hbears := takeAll_bearing log pending issued now { player with held := [] } records
    rw [hsaid [] (Nat.zero_le _)] at hbears
    exact hbears

-- What becomes of a step that had a player wait if its tick comes later. The player goes on waiting, only shorter; or
-- its time has come meanwhile, and then it does at once what it would have done when it was woken.
inductive Belated (now later : Nat) (early : Step) : Step → Prop
  | alike : Belated now later early early
  | shortened (late : Step) (before : List Effect) (token : Token) (due : Nat) (hnow : now < due)
      (hlater : later < due) (hplayer : late.player = early.player)
      (hearly : early.effects = before ++ [.wake token (due - now), .update early.player.status])
      (hlate : late.effects = before ++ [.wake token (due - later), .update early.player.status]) :
      Belated now later early late
  | woken (late : Step) (before after : List Effect) (first second : List Text) (issued due : Nat)
      (hnow : now < due) (hlater : due ≤ later) (hpending : early.player.pending = some (issued + 1))
      (hissued : early.player.issued = issued + 1)
      (hplayer : late.player = (early.player.wake later (issued + 1)).player.reframed ⟨1, 0⟩)
      (hearly : early.effects =
        before ++ first.map .emit ++ [.wake (issued + 1) (due - now), .update early.player.status])
      (hwoken : (early.player.wake later (issued + 1)).effects = second.map .emit ++ after)
      (hlate : late.effects = before ++ ((first ++ second).rtake early.player.capacity).map .emit ++
        after.map (·.reframed ⟨1, 0⟩))
      (hbefore : emitted before = []) (hafter : emitted after = []) :
      Belated now later early late

theorem reframed_one (player : Player) :
    player.reframed ⟨1, 0⟩ =
      { player with pending := player.pending.map (· - 1), issued := player.issued - 1 } := by
  have hanchor : player.anchor.map (·.reframed ⟨1, 0⟩) = player.anchor := by cases player.anchor <;> rfl
  rw [reframed, hanchor]

theorem wake_of_pending {player : Player} {token : Token} (now : Nat) (h : player.pending = some token) :
    player.wake now token = tick now { player with pending := none } := if_pos h

-- A player that has taken so much and waits for its next token.
def waiting (taken : Player) (log : Log) (line issued : Nat) : Player :=
  { taken with log := some (log.moveTo line), held := [], pending := some (issued + 1), issued := issued + 1 }

-- One tick takes it all, or a second one takes what a first one has left: they come out at the same place.
theorem tick_of_resumed {player taken final : Player} {log : Log} {later line : Nat} {ending : Option (Nat × Nat)}
    {left : List Text} (hstate : player.state = .playing) (hlog : player.log = some log)
    (hplaying : taken.state = .playing) (hissued : final.issued = player.issued)
    (hall : takeAll later log.unread { player with pending := none } = (final, ending))
    (hrest : takeAll later (log.moveTo line).unread
        { taken with log := some (log.moveTo line), held := [], pending := none, issued := player.issued + 1 } =
      ({ final with log := some (log.moveTo line), held := left, pending := none, issued := player.issued + 1 },
        ending)) :
    ∃ after, emitted after = [] ∧
      ((taken.waiting log line player.issued).wake later (player.issued + 1)).effects = left.map .emit ++ after ∧
      (tick later player).effects =
        player.calledOff ++ final.held.map .emit ++ after.map (·.reframed ⟨1, 0⟩) ∧
      (tick later player).player =
        ((taken.waiting log line player.issued).wake later (player.issued + 1)).player.reframed ⟨1, 0⟩ := by
  have hwakes : (taken.waiting log line player.issued).wake later (player.issued + 1) =
      tick later { taken with
        log := some (log.moveTo line), held := [], pending := none, issued := player.issued + 1 } :=
    wake_of_pending later rfl
  have hresumes : ({ taken with
      log := some (log.moveTo line), held := [], pending := none, issued := player.issued + 1 } : Player).state =
      .playing := hplaying
  rw [hwakes, reframed_one]
  rcases ending with _ | ⟨further, wait⟩
  · rw [tick_of_end hresumes rfl hrest, tick_of_end hstate hlog hall]
    refine ⟨_, rfl, rfl, rfl, ?_⟩
    simp only [reporting_player, hissued]
    rfl
  · rw [tick_of_wait hresumes rfl hrest, tick_of_wait hstate hlog hall]
    exact ⟨_, rfl, List.append_assoc .., List.append_assoc .., rfl⟩

-- The time of a player has come that would have waited: it takes what it would have taken when it was woken.
theorem belated_of_due {player taken : Player} {log : Log} {now later line delay : Nat} {before : List Record}
    {record : Record} {rest : List Record} (hheld : player.held = []) (hpos : 0 < player.capacity)
    (htimed : player.isTimed) (hstate : player.state = .playing) (hlog : player.log = some log)
    (hunread : log.unread = before ++ record :: rest) (hline : line = record.line + 1) (hdelay : 0 < delay)
    (hdue : now + delay ≤ later)
    (htaken : takeAll now log.unread { player with pending := none } = (taken, some (line, delay)))
    (hgoes : takeAll later log.unread { player with pending := none } = takeAll later rest taken) :
    Belated now later (tick now player) (tick later player) := by
  have hrested := rested_of_takeAll htaken
  have hcapacity : taken.capacity = player.capacity := by
    have h := congrArg Player.capacity hrested
    exact h
  have hplaying : taken.state = .playing := (congrArg Player.state hrested).trans hstate
  have hpaced : taken.isTimed := by
    rw [isTimed_of_rested hrested]
    exact htimed
  have hroom : taken.held.length ≤ taken.capacity := by
    rw [held_of_takeAll htaken hheld hpos, hcapacity]
    exact length_rtake_le _ _
  have hahead : (log.moveTo line).unread = rest := by
    rw [Log.unread_moveTo, hline]
    exact (Recording.stretch_of_recordsAt hunread).2
  rcases hfinal : takeAll later rest taken with ⟨final, ending⟩
  obtain ⟨left, hleft, hresumed⟩ := takeAll_resumed hpaced (hcapacity ▸ hpos) hroom hfinal
  have hissued : final.issued = player.issued := by
    have hfirst := congrArg Player.issued hrested
    have hsecond := congrArg Player.issued (rested_of_takeAll hfinal)
    exact hsecond.trans hfirst
  have hagain := hresumed (some (log.moveTo line)) none (player.issued + 1)
  rw [← hahead] at hagain
  obtain ⟨after, hafter, hwoken, hlate, hplayer⟩ :=
    tick_of_resumed hstate hlog hplaying hissued (hgoes.trans hfinal) hagain
  rw [hleft] at hlate
  rw [tick_of_wait hstate hlog htaken]
  exact .woken _ player.calledOff after taken.held left player.issued (now + delay) (by omega) hdue rfl rfl hplayer
    (by rw [Nat.add_sub_cancel_left]; simp) hwoken hlate (emitted_map_cancel _) hafter

theorem belated_tick {player : Player} {now later : Nat} (hheld : player.held = []) (hpos : 0 < player.capacity)
    (hle : now ≤ later) : Belated now later (tick now player) (tick later player) := by
  by_cases hstate : player.state = .playing
  · cases hlog : player.log with
    | none =>
      rw [tick_of_unloaded now hstate hlog, tick_of_unloaded later hstate hlog]
      exact .alike
    | some log =>
      rcases htaken : takeAll now log.unread { player with pending := none } with ⟨taken, ending⟩
      by_cases htimed : player.isTimed
      · have hbare : ({ player with pending := none } : Player).isTimed := htimed
        rcases ending with _ | ⟨line, delay⟩
        · have hlate := takeAll_later_of_end hbare hle htaken
          rw [tick_of_end hstate hlog htaken, tick_of_end hstate hlog hlate]
          exact .alike
        · obtain ⟨before, record, rest, hunread, hline, hgoes⟩ := takeAll_later_of_wait hbare hle htaken
          have hdelay : 0 < delay := takeAll_pos hbare htaken
          by_cases hdue : later < now + delay
          · simp only [remaining, if_pos hdue] at hgoes
            rw [tick_of_wait hstate hlog htaken, tick_of_wait hstate hlog hgoes]
            exact .shortened _ (player.calledOff ++ taken.held.map .emit) (player.issued + 1) (now + delay) (by omega)
              hdue rfl (by rw [Nat.add_sub_cancel_left]; simp) (by simp)
          · simp only [remaining, if_neg hdue] at hgoes
            exact belated_of_due hheld hpos htimed hstate hlog hunread hline hdelay (by omega) htaken hgoes
      · -- A batch is full at any time.
        have hbare : ({ player with pending := none } : Player).isTimed = false := Bool.eq_false_iff.mpr htimed
        have hlate := takeAll_of_untimed now later log.unread hbare
        rw [htaken] at hlate
        rcases ending with _ | ⟨line, delay⟩
        · rw [tick_of_end hstate hlog htaken, tick_of_end hstate hlog hlate]
          exact .alike
        · rw [tick_of_wait hstate hlog htaken, tick_of_wait hstate hlog hlate]
          exact .alike
  · have hstill : ∀ wall, tick wall player = quietly player := by simp [tick, hstate]
    rw [hstill now, hstill later]
    exact .alike

-- What came before both steps makes no difference.
theorem Belated.after {now later : Nat} {early late : Step} {news : List Effect} (h : Belated now later early late)
    (hnews : emitted news = []) :
    Belated now later ⟨early.player, news ++ early.effects⟩ ⟨late.player, news ++ late.effects⟩ := by
  cases h with
  | alike => exact .alike
  | shortened _ before token due hnow hlater hplayer hearly hlate =>
    exact .shortened _ (news ++ before) token due hnow hlater hplayer (by simp [hearly]) (by simp [hlate])
  | woken _ before after first second issued due hnow hlater hpending hissued hplayer hearly hwoken hlate hbefore
      hafter =>
    exact .woken _ (news ++ before) after first second issued due hnow hlater hpending hissued hplayer
      (by simp [hearly]) hwoken (by simp [hlate]) (by simp [hnews, hbefore]) hafter

-- The players go on alike, if the one that was not late is woken where its time has come.
theorem Belated.goes_on {now later : Nat} {early late : Step} (h : Belated now later early late) :
    late.player = early.player ∨ ∃ token, early.player.pending = some token ∧ ∀ orders,
      late.player.transcript (orders.map (·.reframed ⟨1, 0⟩)) =
        ((early.player.wake later token).player.transcript orders).map (reframedEntry ⟨1, 0⟩) := by
  cases h with
  | alike => exact .inl rfl
  | shortened _ before token due hnow hlater hplayer => exact .inl hplayer
  | woken _ before after first second issued due hnow hlater hpending hissued hplayer =>
    refine .inr ⟨issued + 1, hpending, fun orders => ?_⟩
    have hbare : Fits ⟨1, 0⟩ { early.player with pending := none } := ⟨by simp [hissued], by simp⟩
    have hfits := hbare.asked (asks_tick later _)
    rw [hplayer, wake_of_pending later hpending]
    exact transcript_reframed orders hfits

-- So a start whose tick is late is a start with one more wake-up at most.
theorem belated_start {player : Player} {now later : Nat} (hsteady : Steady player) (hpos : 0 < player.capacity)
    (hle : now ≤ later) : Belated now later (player.start now) (player.startLate now later) := by
  by_cases hstart : player.CanStart
  · have hready := hsteady.readied now hstart
    have hroom : 0 < (player.readied now).capacity := by
      rw [(sameSetup_readied now player).capacity]
      exact hpos
    have hprompt : player.start now = (announce (player.readied now)).andThen (tick now) := if_pos hstart
    have hlate : player.startLate now later = (announce (player.readied now)).andThen (tick later) := if_pos hstart
    rw [hprompt, hlate]
    exact (belated_tick hready.held hroom hle).after (emitted_update _ [])
  · have hprompt : player.start now = quietly player := if_neg hstart
    have hlate : player.startLate now later = quietly player := if_neg hstart
    rw [hprompt, hlate]
    exact .alike

-- An order, with what the wall shows when a start comes to its first record.
structure SlowOrder extends Order where
  later : Nat

def Command.runLate (now later : Nat) (player : Player) : Command → Answer × Step
  | .start => (.done, player.startLate now later)
  | command => command.run now player

-- All orders in turn, with the answers and the effects of all of them.
def handle (player : Player) : List SlowOrder → List Answer × Step
  | [] => ([], quietly player)
  | order :: rest =>
    let result := order.command.runLate order.now order.later player
    (result.1 :: (result.2.player.handle rest).1, result.2.andThen fun next => (next.handle rest).2)

theorem runLate_self (now : Nat) (player : Player) (command : Command) :
    command.runLate now now player = command.run now player := by
  cases command <;> rfl

theorem runLate_of_ne_start {command : Command} (now later : Nat) (player : Player) (h : command ≠ .start) :
    command.runLate now later player = command.run now player := by
  cases command with
  | start => exact absurd rfl h
  | _ => rfl

theorem handle_prompt (player : Player) (orders : List Order) :
    player.handle (orders.map fun order => ⟨order, order.now⟩) =
      ((player.transcript orders).map Prod.fst, player.obeyAll orders) := by
  induction orders generalizing player with
  | nil => rfl
  | cons order rest ih =>
    have hrest := ih (player.obey order).player
    have hsteps : ((player.obey order).andThen fun next =>
        (next.handle (rest.map fun order => ⟨order, order.now⟩)).2) = player.obeyAll (order :: rest) := by
      simp only [Step.andThen, hrest, obeyAll]
    rw [List.map_cons, handle, runLate_self]
    exact Prod.ext (congrArg (List.cons _) (congrArg Prod.fst hrest)) hsteps

-- A player as a run reaches it that looks at the wall once at each order, but for the tokens that it left out.
def Recounted (config : Config) (player : Player) : Prop :=
  ∃ tokens prompt, Reachable config prompt ∧ Fits ⟨tokens, 0⟩ prompt ∧ player = prompt.reframed ⟨tokens, 0⟩

-- A token counts as so many more for a player that left none out.
def Command.recounted (tokens : Nat) : Command → Command
  | .wake token => .wake (token + tokens)
  | command => command

theorem reframed_recounted (tokens : Nat) (command : Command) :
    (command.recounted tokens).reframed ⟨tokens, 0⟩ = command := by
  cases command with
  | wake token => exact congrArg Command.wake (Nat.add_sub_cancel token tokens)
  | _ => rfl

theorem reframed_reframed (player : Player) (first second : Nat) :
    (player.reframed ⟨first, 0⟩).reframed ⟨second, 0⟩ = player.reframed ⟨first + second, 0⟩ := by
  cases hanchor : player.anchor <;> cases hpending : player.pending <;>
    simp [reframed, hanchor, hpending, Anchor.reframed, Nat.sub_sub]

theorem Recounted.obey {config : Config} {player : Player} (order : Order) (h : Recounted config player) :
    Recounted config (player.obey order).player := by
  obtain ⟨tokens, prompt, hreach, hfits, rfl⟩ := h
  obtain ⟨now, command⟩ := order
  refine ⟨tokens, (prompt.obey ⟨now, command.recounted tokens⟩).player, hreach.obey _, hfits.obey _, ?_⟩
  have hrun := run_reframed now (command.recounted tokens) hfits
  rw [reframed_recounted] at hrun
  have hplayer := congrArg (·.2.player) hrun
  exact hplayer

theorem Recounted.startLate {config : Config} {player : Player} {now later : Nat} (hle : now ≤ later)
    (h : Recounted config player) : Recounted config (player.startLate now later).player := by
  obtain ⟨tokens, prompt, hreach, hfits, rfl⟩ := h
  have hlate := congrArg Step.player (startLate_reframed ⟨tokens, 0⟩ prompt now later hfits.issued)
  have hearly := hreach.obey ⟨now, .start⟩
  have hcounts := hfits.obey ⟨now, .start⟩
  have hcase := belated_start hreach.steady hreach.capacity_pos hle
  simp only [Nat.add_zero] at hlate
  rw [hlate]
  generalize prompt.startLate now later = late at hcase
  generalize hstart : prompt.start now = early at hcase
  have hobey : prompt.obey ⟨now, .start⟩ = early := hstart
  rw [hobey] at hearly hcounts
  cases hcase with
  | alike => exact ⟨tokens, _, hearly, hcounts, rfl⟩
  | shortened _ _ _ _ _ _ hplayer => exact ⟨tokens, _, hearly, hcounts, by rw [Step.reframed, hplayer]⟩
  | woken _ _ _ _ _ issued _ _ _ hpending hissued hplayer =>
    have hahead : tokens < issued + 1 := hcounts.pending _ hpending
    have hbare : Fits ⟨1 + tokens, 0⟩ { early.player with pending := none } :=
      ⟨by simp only [hissued]; omega, by simp⟩
    refine ⟨1 + tokens, _, hearly.obey ⟨later, .wake (issued + 1)⟩, ?_, ?_⟩
    · have hwakes : early.player.obey ⟨later, .wake (issued + 1)⟩ = tick later { early.player with pending := none } :=
        wake_of_pending later hpending
      rw [hwakes]
      exact hbare.asked (asks_tick later _)
    · rw [Step.reframed, hplayer, reframed_reframed]
      rfl

-- Wherever a late start takes a player, a prompt one and a wake-up would have taken it.
theorem recounted_handle {config : Config} {player : Player} (orders : List SlowOrder)
    (horders : ∀ order ∈ orders, order.now ≤ order.later) (h : Recounted config player) :
    Recounted config (player.handle orders).2.player := by
  induction orders generalizing player with
  | nil => exact h
  | cons order rest ih =>
    have hlater : ∀ order ∈ rest, order.now ≤ order.later := fun order hmem => horders order (by simp [hmem])
    have hnext : Recounted config (order.command.runLate order.now order.later player).2.player := by
      by_cases hstart : order.command = .start
      · rw [hstart]
        exact h.startLate (horders order (by simp))
      · rw [runLate_of_ne_start _ _ _ hstart]
        exact h.obey order.toOrder
    exact ih hlater hnext

theorem recounted_handle_new (config : Config) (orders : List SlowOrder)
    (horders : ∀ order ∈ orders, order.now ≤ order.later) :
    Recounted config ((Player.new config).handle orders).2.player :=
  recounted_handle orders horders ⟨0, Player.new config, .new, ⟨Nat.zero_le _, by simp [Player.new]⟩, rfl⟩

end VoyageLog.Player
