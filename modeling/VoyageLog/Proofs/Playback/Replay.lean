import VoyageLog.Proofs.Playback.Framing
import VoyageLog.Proofs.Playback.Unabridged
import VoyageLog.Proofs.Recording.Copy

namespace VoyageLog

namespace Player

-- The same player with another recording, the data of which starts elsewhere.
def elsewhere (log : Option Log) (dataStart : Nat) (player : Player) : Player :=
  { player with log, clock := { player.clock with dataStart } }

-- Records that say the same, if not on the same lines.
def SameTexts (records others : List Record) : Prop := others.map (·.text) = records.map (·.text)

section Elsewhere

variable {player : Player} (log : Option Log) (dataStart : Nat)

-- A sentence is taken for what it says, wherever it stands.
theorem take_elsewhere {record other : Record} (now : Nat) (hlayout : player.clock.layout = some .sentences)
    (htext : other.text = record.text) :
    (player.elsewhere log dataStart).take now other =
      ((player.take now record).1.elsewhere log dataStart, (player.take now record).2) := by
  have htimed : (player.elsewhere log dataStart).isTimed = player.isTimed := rfl
  have hsame : Reading.ofRecord (some .sentences) player.isTimed player.listener other =
      Reading.ofRecord (some .sentences) player.isTimed player.listener record := by
    simp only [Reading.ofRecord, htext]
  unfold take
  rw [htimed, show (player.elsewhere log dataStart).clock.layout = some .sentences from hlayout, hlayout,
    show (player.elsewhere log dataStart).listener = player.listener from rfl, hsame]
  rcases Reading.ofRecord (some .sentences) player.isTimed player.listener record with ⟨_ | reading, listener⟩
  · rfl
  · cases hinstant : reading.instant with
    | none =>
      simp only [hinstant]
      rfl
    | some instant =>
      simp only [hinstant]
      rfl

-- So records that say the same keep the player just as long, and evict as little.
theorem takeAll_elsewhere {records others : List Record} {taken : Player} {ending : Option (Nat × Nat)}
    (now : Nat) (hlayout : player.clock.layout = some .sentences) (hsame : SameTexts records others)
    (htaken : takeAll now records player = (taken, ending)) :
    ((∀ read ∈ reads now records player, ¬Evicts read) →
      ∀ read ∈ reads now others (player.elsewhere log dataStart), ¬Evicts read) ∧
    match ending with
    | none => takeAll now others (player.elsewhere log dataStart) = (taken.elsewhere log dataStart, none)
    | some (line, delay) => ∃ before record rest passed other left,
        records = before ++ record :: rest ∧ others = passed ++ other :: left ∧ SameTexts rest left ∧
          line = record.line + 1 ∧
          takeAll now others (player.elsewhere log dataStart) =
            (taken.elsewhere log dataStart, some (other.line + 1, delay)) := by
  induction records generalizing player others with
  | nil =>
    obtain rfl : others = [] := List.map_eq_nil_iff.mp hsame
    obtain ⟨rfl, rfl⟩ := Prod.mk.inj htaken
    exact ⟨by simp [reads], rfl⟩
  | cons record rest ih =>
    obtain ⟨other, left, rfl, htext, hrest⟩ := List.map_eq_cons_iff.mp hsame
    have hone := take_elsewhere log dataStart now hlayout htext
    have hnext := (layout_take now record player).trans hlayout
    have hevicts : Evicts (other, player.elsewhere log dataStart) → Evicts (record, player) := by
      rintro ⟨-, hfull⟩
      exact ⟨by simp [Record.payload?, hlayout], hfull⟩
    rcases htake : player.take now record with ⟨next, _ | delay⟩
    · rw [htake] at hone hnext
      simp only [takeAll, htake] at htaken
      obtain ⟨hspares, hends⟩ := ih hnext hrest htaken
      simp only [reads, htake, hone, takeAll, List.forall_mem_cons]
      refine ⟨fun hnone => ⟨fun hevicted => hnone.1 (hevicts hevicted), hspares hnone.2⟩, ?_⟩
      cases ending with
      | none => exact hends
      | some wait =>
        obtain ⟨before, last, after, passed, final, remaining, rfl, rfl, hafter, hline, htakes⟩ := hends
        exact ⟨record :: before, last, after, other :: passed, final, remaining, rfl, rfl, hafter, hline, htakes⟩
    · rw [htake] at hone
      simp only [takeAll, htake, Prod.mk.injEq] at htaken
      obtain ⟨rfl, rfl⟩ := htaken
      simp only [reads, htake, hone, takeAll, List.forall_mem_cons]
      refine ⟨fun hnone => ⟨fun hevicted => hnone.1 (hevicts hevicted), by simp⟩, ?_⟩
      exact ⟨[], record, rest, [], other, left, rfl, rfl, hrest, rfl, rfl⟩

end Elsewhere

-- Players that differ in nothing but the lines on which the same sentences stand.
structure Alike (player copy : Player) : Prop where
  elsewhere : copy = player.elsewhere copy.log copy.clock.dataStart
  layout : player.clock.layout = some .sentences
  loaded : ∃ log other, player.log = some log ∧ copy.log = some other ∧ SameTexts log.unread other.unread ∧
    SameTexts (log.recording.recordsAt player.clock.dataStart)
      (other.recording.recordsAt copy.clock.dataStart) ∧ log.lineCount ≠ 0

namespace Alike

variable {player copy : Player}

-- They stay alike whatever happens to both of them in the same way.
theorem of_same {next : Player} (h : Alike player copy) (hlog : next.log = player.log)
    (hlayout : next.clock.layout = player.clock.layout)
    (hstart : next.clock.dataStart = player.clock.dataStart) :
    Alike next (next.elsewhere copy.log copy.clock.dataStart) := by
  obtain ⟨log, other, hsome, hother, hunread, hall, hlines⟩ := h.loaded
  exact ⟨rfl, hlayout.trans h.layout, log, other, hlog.trans hsome, hother, hunread, hstart ▸ hall, hlines⟩

theorem withLayout (h : Alike player copy) :
    player.withLayout = player ∧ copy.withLayout = copy := by
  have hcopy : copy.clock.layout = player.clock.layout := by rw [h.elsewhere]; rfl
  exact ⟨withLayout_of_known (by simp [h.layout]), withLayout_of_known (by simp [hcopy, h.layout])⟩

theorem canStart (h : Alike player copy) : copy.CanStart ↔ player.CanStart := by
  obtain ⟨log, other, hlog, hother, -⟩ := h.loaded
  have hstate : copy.state = player.state := by rw [h.elsewhere]; rfl
  simp [CanStart, hstate, hlog, hother]

theorem readied (h : Alike player copy) (now : Nat) :
    copy.readied now = (player.readied now).elsewhere copy.log copy.clock.dataStart := by
  obtain ⟨hplayer, hcopy⟩ := h.withLayout
  rw [Player.readied, Player.readied, hplayer, hcopy]
  nth_rewrite 1 [h.elsewhere]
  rfl

theorem filter_elsewhere (log : Option Log) (dataStart : Nat) (ready : Option Player) :
    (ready.map (·.elsewhere log dataStart)).filter (·.state = .playing) =
      (ready.filter (·.state = .playing)).map (·.elsewhere log dataStart) := by
  rw [Option.filter_map]
  rfl

-- An order that has the one tick has the other tick.
theorem ticking (h : Alike player copy) (order : Order) :
    copy.ticking? order =
      (player.ticking? order).map (·.elsewhere copy.log copy.clock.dataStart) := by
  obtain ⟨now, command⟩ := order
  have hfilter := filter_elsewhere copy.log copy.clock.dataStart
  have hpending : copy.pending = player.pending := by rw [h.elsewhere]; rfl
  cases command with
  | start =>
    refine Eq.trans (congrArg (Option.filter _) ?_) (hfilter _)
    by_cases hstart : player.CanStart
    · simp [hstart, h.canStart, h.readied]
    · simp [hstart, h.canStart]
  | tick =>
    have hsome := hfilter (some player)
    rw [Option.map_some, ← h.elsewhere] at hsome
    exact hsome
  | wake token =>
    refine Eq.trans (congrArg (Option.filter _) ?_) (hfilter _)
    by_cases htoken : player.pending = some token
    · simp only [hpending, htoken, if_true]
      exact congrArg (fun other : Player => some { other with pending := none }) h.elsewhere
    · simp [hpending, htoken]
  | load | loadFailed | scan | pause | stop | rebase | seek | setSpeed => rfl

-- The one tick takes what the other one takes.
theorem spares_tick {ready : Player} (now : Nat) (h : Alike ready copy)
    (hspares : ∀ read ∈ tickReads now ready, ¬Evicts read) : ∀ read ∈ tickReads now copy, ¬Evicts read := by
  obtain ⟨log, other, hlog, hother, hunread, -⟩ := h.loaded
  have hstate : copy.state = ready.state := by rw [h.elsewhere]; rfl
  by_cases hplaying : ready.state = .playing
  · rw [tickReads_of_playing now hplaying hlog] at hspares
    rw [tickReads_of_playing now (hstate.trans hplaying) hother]
    have hbare : { copy with pending := none } =
        ({ ready with pending := none } : Player).elsewhere copy.log copy.clock.dataStart :=
      congrArg (fun other : Player => { other with pending := none }) h.elsewhere
    rw [hbare]
    have hlayout : ({ ready with pending := none } : Player).clock.layout = some .sentences := h.layout
    exact (takeAll_elsewhere copy.log copy.clock.dataStart now hlayout hunread rfl).1 hspares
  · simp [tickReads_of_not_playing now (hstate ▸ hplaying)]

theorem tick (now : Nat) (h : Alike player copy) :
    Alike (Player.tick now player).player (Player.tick now copy).player := by
  obtain ⟨log, other, hlog, hother, hunread, hall, hlines⟩ := h.loaded
  have hstate : copy.state = player.state := by rw [h.elsewhere]; rfl
  by_cases hplaying : player.state = .playing
  · rcases htaken : takeAll now log.unread { player with pending := none } with ⟨taken, ending⟩
    have hlayout : ({ player with pending := none } : Player).clock.layout = some .sentences := h.layout
    have htimes := (takeAll_elsewhere copy.log copy.clock.dataStart now hlayout hunread htaken).2
    have hbare : { copy with pending := none } =
        ({ player with pending := none } : Player).elsewhere copy.log copy.clock.dataStart :=
      congrArg (fun other : Player => { other with pending := none }) h.elsewhere
    rw [← hbare] at htimes
    have hissued : copy.issued = player.issued := by rw [h.elsewhere]; rfl
    have hrested := rested_of_takeAll htaken
    have hkept : taken.clock.layout = some .sentences := (congrArg (·.clock.layout) hrested).trans h.layout
    have hstart : taken.clock.dataStart = player.clock.dataStart := congrArg (·.clock.dataStart) hrested
    rcases ending with _ | ⟨line, delay⟩
    · rw [tick_of_end hplaying hlog htaken, tick_of_end (hstate.trans hplaying) hother htimes]
      refine ⟨rfl, hkept, _, _, rfl, rfl, ?_, hstart ▸ hall, hlines⟩
      rw [Log.unread_moveTo, Log.unread_moveTo, Log.lineCount, Log.lineCount, Recording.recordsAt_lineCount,
        Recording.recordsAt_lineCount]
      rfl
    · obtain ⟨before, record, rest, passed, final, left, hrecords, hothers, hrest, rfl, htimes⟩ := htimes
      rw [tick_of_wait hplaying hlog htaken, tick_of_wait (hstate.trans hplaying) hother htimes, hissued]
      refine ⟨rfl, hkept, _, _, rfl, rfl, ?_, hstart ▸ hall, hlines⟩
      rw [Log.unread_moveTo, Log.unread_moveTo, (Recording.stretch_of_recordsAt hrecords).2,
        (Recording.stretch_of_recordsAt hothers).2]
      exact hrest
  · rw [tick_of_not_playing now player hplaying, tick_of_not_playing now copy (hstate ▸ hplaying)]
    exact h

end Alike

theorem start_of_not_canStart {player : Player} (now : Nat) (h : ¬player.CanStart) :
    player.start now = quietly player := if_neg h

theorem obey_elsewhere {player : Player} {order : Order} (log : Option Log) (dataStart : Nat)
    (hloaded : log.isSome = player.log.isSome) (hticking : player.ticking? order = none)
    (horder : player.Interrupts order) (hother : (player.elsewhere log dataStart).Interrupts order) :
    ((player.elsewhere log dataStart).obey order).player =
        (player.obey order).player.elsewhere log dataStart ∧
      (player.obey order).player.log = player.log ∧ (player.obey order).player.clock = player.clock := by
  obtain ⟨now, command⟩ := order
  have hstate : (player.elsewhere log dataStart).state = player.state := rfl
  have hpending : (player.elsewhere log dataStart).pending = player.pending := rfl
  cases command with
  | load | loadFailed | scan | stop => exact horder.elim
  | start =>
    have hstart : ¬player.CanStart := by
      intro hstart
      simp [ticking?, hstart, readied, rebase] at hticking
    have hrefused : ¬(player.elsewhere log dataStart).CanStart := by
      rwa [CanStart, hstate, show (player.elsewhere log dataStart).log = log from rfl, hloaded]
    simp only [obey, Command.run]
    rw [start_of_not_canStart now hstart, start_of_not_canStart now hrefused]
    exact ⟨rfl, rfl, rfl⟩
  | pause =>
    by_cases hplaying : player.state = .playing <;>
      simp [obey, Command.run, Player.pause, hplaying, elsewhere]
  | tick =>
    have hstill : player.state ≠ .playing := by
      intro hplaying
      simp [ticking?, hplaying] at hticking
    simp only [obey, Command.run]
    rw [tick_of_not_playing now player hstill, tick_of_not_playing now _ (hstate ▸ hstill)]
    exact ⟨rfl, rfl, rfl⟩
  | rebase => exact ⟨rfl, rfl, rfl⟩
  | wake token =>
    by_cases htoken : player.pending = some token
    · have hstill : player.state ≠ .playing := by
        intro hplaying
        simp [ticking?, htoken, hplaying] at hticking
      simp only [obey, Command.run, Player.wake, hpending, htoken, if_true]
      rw [tick_of_not_playing now { player with pending := none } hstill,
        tick_of_not_playing now { player.elsewhere log dataStart with pending := none } hstill]
      exact ⟨rfl, rfl, rfl⟩
    · simp [obey, Command.run, Player.wake, hpending, htoken]
  | seek =>
    rw [obey_of_refused horder, obey_of_refused hother]
    exact ⟨rfl, rfl, rfl⟩
  | setSpeed number =>
    cases hspeed : Speed.ofNumber? number with
    | none => simp [obey, Command.run, Player.setSpeed, hspeed]
    | some speed =>
      by_cases hplaying : player.state = .playing
      · simp [obey, Command.run, Player.setSpeed, hspeed, hplaying, elsewhere, Player.rebase]
      · simp [obey, Command.run, Player.setSpeed, hspeed, hplaying, elsewhere]

-- A search tells apart no records that say the same.
theorem firstAtOrAfter_of_sameTexts (layout : Option Layout) (target : Instant)
    (listener : TimeSource.Listener) {records others : List Record} (h : SameTexts records others) :
    (firstAtOrAfter layout target listener others).isSome =
      (firstAtOrAfter layout target listener records).isSome := by
  induction records generalizing others listener with
  | nil =>
    obtain rfl : others = [] := List.map_eq_nil_iff.mp h
    rfl
  | cons record rest ih =>
    obtain ⟨other, left, rfl, htext, hrest⟩ := List.map_eq_cons_iff.mp h
    have hsame : instantOf layout listener other = instantOf layout listener record := by
      simp only [instantOf, htext]
    simp only [firstAtOrAfter, hsame]
    rcases instantOf layout listener record with ⟨_ | instant, next⟩
    · exact ih next hrest
    · dsimp only
      split
      · rfl
      · exact ih next hrest

-- A seek that the one refuses the other refuses too.
theorem Alike.refused {player copy : Player} {now : Nat} {fraction : Binary64} (h : Alike player copy)
    (hrefused : (player.seek now fraction).1 = .refused) : (copy.seek now fraction).1 = .refused := by
  obtain ⟨log, other, hlog, hother, -, hall, hlines⟩ := h.loaded
  have hseekable : copy.isSeekable = player.isSeekable := by rw [h.elsewhere]; rfl
  have htimeline : copy.clock.timeline = player.clock.timeline := by rw [h.elsewhere]; rfl
  have hlistener : copy.listener = player.listener := by rw [h.elsewhere]; rfl
  have hlayout : copy.clock.layout = player.clock.layout := by rw [h.elsewhere]; rfl
  rw [seek_refused_iff hlog] at hrefused
  rw [seek_refused_iff hother, hseekable]
  intro hready
  have hlanding := hrefused hready
  simp only [landing?, htimeline, hlistener, hlayout] at hlanding ⊢
  cases hpaced : player.clock.timeline with
  | none => simp [hpaced, hlines] at hlanding
  | some timeline =>
    simp only [hpaced] at hlanding ⊢
    cases htarget : seekTarget? timeline fraction with
    | none => simp [htarget] at hlanding
    | some target =>
      simp only [htarget] at hlanding ⊢
      have hfound := firstAtOrAfter_of_sameTexts player.clock.layout target player.listener.undated hall
      split at hlanding
      · rename_i hnone
        rw [hnone, Option.isSome_none, Option.isSome_eq_false_iff, Option.isNone_iff_eq_none] at hfound
        simp [hfound]
      · cases hlanding

theorem Alike.interrupts {player copy : Player} {order : Order} (h : Alike player copy)
    (horder : player.Interrupts order) : copy.Interrupts order := by
  obtain ⟨now, command⟩ := order
  cases command with
  | seek fraction => exact h.refused horder
  | load | loadFailed | scan | stop => exact horder
  | start | pause | tick | rebase | wake | setSpeed => trivial

-- Whatever neither moves them nor loads or scans anything leaves them alike.
theorem Alike.obey {player copy : Player} {order : Order} (h : Alike player copy)
    (horder : player.Interrupts order) (hspares : player.Spares order) :
    copy.Interrupts order ∧ copy.Spares order ∧
      Alike (player.obey order).player (copy.obey order).player := by
  have hother := h.interrupts horder
  refine ⟨hother, ?_⟩
  have hticking := h.ticking order
  cases hready : player.ticking? order with
  | none =>
    rw [hready, Option.map_none] at hticking
    refine ⟨by simp [Spares, orderReads, hticking], ?_⟩
    obtain ⟨log, copied, hlog, hcopied, -⟩ := h.loaded
    rw [h.elsewhere] at hother
    obtain ⟨hobey, hkept, hclock⟩ := obey_elsewhere copy.log copy.clock.dataStart
      (by simp [hlog, hcopied]) hready horder hother
    rw [← h.elsewhere] at hobey
    rw [hobey]
    exact h.of_same hkept (by rw [hclock]) (by rw [hclock])
  | some ready =>
    obtain ⟨-, -, hclock, hlog, -⟩ := of_ticking (fun _ => h.withLayout.1) hready
    have halike := h.of_same hlog (by rw [hclock]) (by rw [hclock])
    rw [hready, Option.map_some] at hticking
    rw [obey_of_ticking hready, obey_of_ticking hticking]
    simp only [Spares, orderReads, hready, hticking] at hspares ⊢
    exact ⟨halike.spares_tick order.now hspares, halike.tick order.now⟩

theorem Alike.obeyAll {player copy : Player} (orders : List Order) (h : Alike player copy)
    (horders : player.AllInterrupt orders) (hspares : player.AllSpare orders) :
    copy.AllInterrupt orders ∧ copy.AllSpare orders ∧
      Alike (player.obeyAll orders).player (copy.obeyAll orders).player := by
  induction orders generalizing player copy with
  | nil => exact ⟨trivial, trivial, h⟩
  | cons order rest ih =>
    obtain ⟨hinterrupts, hspare, hnext⟩ := h.obey horders.1 hspares.1
    obtain ⟨hothers, hspared, hlast⟩ := ih hnext horders.2 hspares.2
    exact ⟨⟨hinterrupts, hothers⟩, ⟨hspare, hspared⟩, hlast⟩

theorem Alike.playsOut {player copy : Player} {orders : List Order} (h : Alike player copy)
    (hplays : player.PlaysOut orders) : copy.PlaysOut orders := by
  obtain ⟨hinterrupts, hspares, hlast⟩ := h.obeyAll orders hplays.interrupts hplays.spares
  refine ⟨hinterrupts, hspares, ?_⟩
  have hstate := congrArg Player.state hlast.elsewhere
  exact hstate.trans hplays.ended

-- The player once it has loaded a recording and scanned it.
def opened (recording : Recording) (player : Player) : Player :=
  (player.obeyAll [⟨0, .load recording⟩, ⟨0, .scan⟩]).player

theorem opened_eq {player : Player} {recording : Recording} {outcome : Scan.Outcome}
    (hscan : Scan.ofRecording player.lockPrimary recording = .ok outcome) :
    player.opened recording = { player with
      log := some ((Log.start recording).moveTo outcome.clock.dataStart), clock := outcome.clock,
      listener := outcome.listener.undated, state := .idle, held := [], anchor := none,
      pending := none } := by
  have hlog : (Log.start recording).recording = recording := rfl
  simp [opened, obeyAll, obey, Command.run, load, reset, scan, Log.scan, Step.andThen, hlog, hscan, announce]

section Opening

variable {config : Config} {player : Player} {recording copy : Recording} {outcome : Scan.Outcome}
  {orders : List Order}

-- A playback to the end sends all that the data has to say.
theorem PlaysOut.emitted_data {layout : Layout} (h : Reachable config player)
    (hscan : Scan.ofRecording player.lockPrimary recording = .ok outcome)
    (hlayout : outcome.clock.layout = some layout) (hplays : (player.opened recording).PlaysOut orders) :
    emitted ((player.opened recording).obeyAll orders).effects =
      (recording.recordsAt outcome.clock.dataStart).filterMap (·.payload? (some layout)) := by
  have hopened := opened_eq hscan
  have hreach : Reachable config (player.opened recording) := h.obeyAll _
  have hpos := hreach.capacity_pos
  have hknown : (player.opened recording).clock.layout = some layout := by rw [hopened]; exact hlayout
  have hidle : (player.opened recording).state ≠ .atEnd := by simp [hopened]
  have hlog : (player.opened recording).log =
      some ((Log.start recording).moveTo outcome.clock.dataStart) := by rw [hopened]
  rw [hplays.emitted_eq hreach.steady (finished_of_ne hidle) hpos hlog (.inl (by simp [hknown])), hknown,
    Log.unread_moveTo]
  rfl

-- In sentences this is all that is recorded.
theorem PlaysOut.emitted_opened (h : Reachable config player)
    (hscan : Scan.ofRecording player.lockPrimary recording = .ok outcome)
    (hlayout : outcome.clock.layout = some .sentences) (hplays : (player.opened recording).PlaysOut orders) :
    emitted ((player.opened recording).obeyAll orders).effects = recording.texts := by
  rw [hplays.emitted_data h hscan hlayout, Scan.recordsAt_dataStart hscan hlayout, Recording.texts]
  exact congrFun List.filterMap_eq_map recording.records

-- Recordings that hold the same make players alike.
theorem alike_opened (hscan : Scan.ofRecording player.lockPrimary recording = .ok outcome)
    (hlayout : outcome.clock.layout = some .sentences) (htexts : copy.texts = recording.texts) :
    Alike (player.opened recording) (player.opened copy) := by
  obtain ⟨dataStart, hcopy⟩ := Scan.ofRecording_copy hscan hlayout htexts
  have hall := Scan.recordsAt_dataStart hscan hlayout
  have hcopied : copy.recordsAt dataStart = copy.records := Scan.recordsAt_dataStart hcopy hlayout
  have hsame : SameTexts (recording.recordsAt outcome.clock.dataStart) (copy.recordsAt dataStart) := by
    rw [hall, hcopied]
    exact htexts
  have hlines : recording.lineCount ≠ 0 := by
    obtain ⟨first, rest, hrecords, -⟩ := Scan.sentences_of_ofRecording hscan hlayout
    have hbound := recording.bounded first (by simp [hrecords])
    omega
  rw [opened_eq hscan, opened_eq hcopy]
  refine ⟨rfl, hlayout, _, _, rfl, rfl, ?_, hsame, hlines⟩
  rw [Log.unread_moveTo, Log.unread_moveTo]
  exact hsame

end Opening

-- What was written while sentences were played to their end can be read, scanned and played in their place:
-- the scan finds the same, the same orders play it to its end as well, and whatever plays it to its end
-- without an eviction sends the same once more.
theorem written_replays {config : Config} {player : Player} {name : String} {bytes : List UInt8}
    {outcome : Scan.Outcome} {orders : List Order} {room : Nat} (again : String) (h : Reachable config player)
    (hscan : Scan.ofRecording player.lockPrimary (Recording.ofBytes name bytes) = .ok outcome)
    (hlayout : outcome.clock.layout = some .sentences)
    (hplays : (player.opened (Recording.ofBytes name bytes)).PlaysOut orders) :
    let sent := emitted ((player.opened (Recording.ofBytes name bytes)).obeyAll orders).effects
    let copy := Recording.ofBytes again ((Framing.Writer.ofRoom room).emitAll sent).written
    (sent.flatMap Framing.frame).length ≤ room →
      (∃ dataStart, Scan.ofRecording player.lockPrimary copy =
        .ok { outcome with clock := { outcome.clock with dataStart } }) ∧
      (player.opened copy).PlaysOut orders ∧
      ∀ config other others, Reachable config other → (other.opened copy).PlaysOut others →
        emitted ((other.opened copy).obeyAll others).effects = sent := by
  intro sent copy hroom
  have hsent : sent = (Recording.ofBytes name bytes).texts := hplays.emitted_opened h hscan hlayout
  have htexts : copy.texts = (Recording.ofBytes name bytes).texts := by
    have hplain : ∀ text ∈ sent, Recording.Plain text := by
      rw [hsent]
      exact fun _ => Recording.IsLoaded.plain ⟨name, .inr ⟨bytes, rfl⟩⟩
    rw [← hsent, ← Recording.texts_copy again hplain]
    exact congrArg (fun written => (Recording.ofBytes again written).texts)
      (Framing.Writer.written_of_fits hroom)
  obtain ⟨dataStart, hcopy⟩ := Scan.ofRecording_copy hscan hlayout htexts
  refine ⟨⟨dataStart, hcopy⟩, (alike_opened hscan hlayout htexts).playsOut hplays, ?_⟩
  intro config other others hreach hothers
  have hlocked := Scan.ofRecording_lock player.lockPrimary other.lockPrimary copy
  rw [hcopy] at hlocked
  rw [hothers.emitted_opened hreach hlocked hlayout, htexts, hsent]

-- A comment, an indented sentence that tells the time, a blank line, and a sentence without a line end.
def fourLines : List UInt8 :=
  Text.Utf8.encode "#log\n  $GPRMC,120005,A,,,,,,,010124*\r\r\n\n$GPTXT,*".toList

def newPlayer : Player := Player.new Config.default

-- One start plays both sentences.
theorem fourLines_playsOut : (newPlayer.opened (Recording.ofBytes "four" fourLines)).PlaysOut [⟨0, .start⟩] := by
  refine ⟨⟨trivial, trivial⟩, ⟨?_, trivial⟩, ?_⟩
  · decide +kernel
  · decide +kernel

theorem written_replays_four_lines :
    let sent := emitted ((newPlayer.opened (Recording.ofBytes "four" fourLines)).obeyAll [⟨0, .start⟩]).effects
    let copy := Recording.ofBytes "copy" ((Framing.Writer.ofRoom 100).emitAll sent).written
    (newPlayer.opened copy).PlaysOut [⟨0, .start⟩] ∧
      emitted ((newPlayer.opened copy).obeyAll [⟨0, .start⟩]).effects = sent := by
  have hnew : Reachable Config.default newPlayer := Reachable.new
  have hfound : (Scan.ofRecording true (Recording.ofBytes "four" fourLines)).toOption.map
      (·.clock.layout) = some (some .sentences) := by
    decide +kernel
  have hroom : ((emitted ((newPlayer.opened (Recording.ofBytes "four" fourLines)).obeyAll
      [⟨0, .start⟩]).effects).flatMap Framing.frame).length ≤ 100 := by
    decide +kernel
  cases hscan : Scan.ofRecording true (Recording.ofBytes "four" fourLines) with
  | error failure => simp [hscan, Except.toOption] at hfound
  | ok outcome =>
    have hlayout : outcome.clock.layout = some .sentences := by
      simpa [hscan, Except.toOption] using hfound
    obtain ⟨-, hplays, hagain⟩ := written_replays "copy" hnew hscan hlayout fourLines_playsOut hroom
    exact ⟨hplays, hagain Config.default newPlayer _ hnew hplays⟩

end Player

end VoyageLog
