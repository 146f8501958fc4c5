import VoyageLog.Proofs.Playback.Dates
import VoyageLog.Proofs.Playback.Header
import VoyageLog.Proofs.Playback.Rescan
import VoyageLog.Proofs.Playback.Unabridged

namespace VoyageLog

theorem Log.detectLayout_congr {log other : Log} (h : other.recording = log.recording) :
    other.detectLayout = log.detectLayout := by
  simp only [Log.detectLayout, Log.moveTo_congr h]

namespace Player

-- A player as a stop leaves it.
def halted (player : Player) : Player :=
  { player with
    held := [], anchor := none, log := player.log.map (·.moveTo player.clock.dataStart),
    listener := player.listener.undated, clock := player.clock.backToFirst, state := .idle,
    pending := none }

-- A player that knows its layout, and has not played anything yet.
def outset (player : Player) : Player := player.withLayout.halted

-- Two players that set out alike but for their speed and the count of their tokens.
def SameOutset (player other : Player) : Prop :=
  other.outset = { player.outset with speed := other.speed, issued := other.issued }

section Outset

variable {player other third : Player}

theorem speed_outset (player : Player) : player.outset.speed = player.speed := by
  have hcase := player.laidOut
  unfold outset
  generalize player.withLayout = known at hcase
  cases hcase <;> rfl

theorem issued_outset (player : Player) : player.outset.issued = player.issued := by
  have hcase := player.laidOut
  unfold outset
  generalize player.withLayout = known at hcase
  cases hcase <;> rfl

namespace SameOutset

theorem refl (player : Player) : player.SameOutset player := by
  have hspeed := speed_outset player
  have hissued := issued_outset player
  unfold SameOutset
  generalize player.outset = out at hspeed hissued
  rw [← hspeed, ← hissued]

theorem trans (hfirst : player.SameOutset other) (hsecond : other.SameOutset third) :
    player.SameOutset third := by
  rw [SameOutset, hsecond, hfirst]

theorem symm (h : player.SameOutset other) : other.SameOutset player := by
  have hself := refl player
  unfold SameOutset at *
  rw [h]
  exact hself

end SameOutset

-- Two players that know the same of the same recording, but for what playing changes.
structure SameCourse (player other : Player) : Prop extends SameSetup player other where
  recording : other.log.map (·.recording) = player.log.map (·.recording)
  clock : other.clock.backToFirst = player.clock.backToFirst
  listener : other.listener.undated = player.listener.undated

theorem SameCourse.refl (player : Player) : player.SameCourse player := ⟨⟨rfl, rfl⟩, rfl, rfl, rfl⟩

theorem SameCourse.trans (hfirst : player.SameCourse other) (hsecond : other.SameCourse third) :
    player.SameCourse third :=
  ⟨⟨hsecond.capacity.trans hfirst.capacity, hsecond.lockPrimary.trans hfirst.lockPrimary⟩,
    hsecond.recording.trans hfirst.recording, hsecond.clock.trans hfirst.clock,
    hsecond.listener.trans hfirst.listener⟩

theorem SameCourse.sameOutset (h : player.SameCourse other) : player.SameOutset other := by
  have hlayout : other.clock.layout = player.clock.layout := congrArg (·.layout) h.clock
  have hstart : other.clock.dataStart = player.clock.dataStart := congrArg (·.dataStart) h.clock
  cases hlog : player.log with
  | none =>
    have hother : other.log = none := by simpa [hlog] using h.recording
    have hwith : player.withLayout = player := by simp [withLayout, hlog]
    have hwithOther : other.withLayout = other := by simp [withLayout, hother]
    simp [SameOutset, outset, hwith, hwithOther, halted, hlog, hother, h.capacity, h.lockPrimary, h.clock,
      h.listener]
  | some log =>
    obtain ⟨otherLog, hother, hrecording⟩ : ∃ otherLog, other.log = some otherLog ∧
        otherLog.recording = log.recording := by simpa [hlog] using h.recording
    cases hknown : player.clock.layout with
    | some layout =>
      have hwith : player.withLayout = player := withLayout_of_known (by simp [hknown])
      have hwithOther : other.withLayout = other := withLayout_of_known (by simp [hlayout, hknown])
      simp [SameOutset, outset, hwith, hwithOther, halted, hlog, hother, h.capacity, h.lockPrimary, h.clock,
        h.listener, hstart, Log.moveTo_congr hrecording]
    | none =>
      -- Both look for the layout in the same recording, so they find the same.
      have hdetect := Log.detectLayout_congr hrecording
      have hknowing : ∀ layout dataStart,
          { other.clock with layout := some layout, dataStart }.backToFirst =
            { player.clock with layout := some layout, dataStart }.backToFirst := by
        intro layout dataStart
        exact congrArg (fun clock : Clock => { clock with layout := some layout, dataStart }) h.clock
      rcases hfound : log.detectLayout with ⟨_ | ⟨layout, dataStart⟩, found⟩
      · simp [SameOutset, outset, withLayout, hknown, hlayout, hlog, hother, hdetect, hfound, halted,
          h.capacity, h.lockPrimary, h.clock, h.listener, hstart, Log.moveTo_moveTo]
      · simp [SameOutset, outset, withLayout, hknown, hlayout, hlog, hother, hdetect, hfound, halted,
          h.capacity, h.lockPrimary, hknowing, h.listener, Log.moveTo_moveTo]

theorem withLayout_withLayout (player : Player) : player.withLayout.withLayout = player.withLayout := by
  have hcase := player.laidOut
  generalize hwith : player.withLayout = known at hcase
  cases hcase with
  | known | blank => exact hwith
  | found => exact withLayout_of_known rfl

theorem sameOutset_withLayout (player : Player) : player.SameOutset player.withLayout := by
  have hself := SameOutset.refl player.withLayout
  rw [SameOutset, outset, withLayout_withLayout] at hself
  rw [SameOutset, outset, withLayout_withLayout]
  exact hself

theorem sameCourse_tick (now : Nat) (player : Player) : player.SameCourse (tick now player).player := by
  obtain ⟨log, state, pending, issued, hrested⟩ := rested_tick now player
  refine ⟨sameSetup_tick now player, ?_, congrArg (·.clock) hrested, congrArg (·.listener) hrested⟩
  cases hlog : player.log with
  | none => rw [log_tick_of_none now hlog]
  | some log =>
    obtain ⟨after, hafter, hrecording, -⟩ := tick_stretch now hlog
    simp [hafter, hrecording]

theorem sameCourse_landed {log : Log} {fraction : Binary64} {landing : Landing} (hlog : player.log = some log)
    (hlanding : player.landing? fraction log = .ok landing) :
    player.SameCourse (player.landed landing log) := by
  refine ⟨⟨rfl, rfl⟩, by simp [landed, hlog, Log.moveTo], ?_, undated_of_lands (lands hlanding)⟩
  unfold landed
  cases landing.instant with
  | none => rfl
  | some instant => exact Clock.backToFirst_withCurrent player.clock instant

-- Playing on, a player learns no more than the layout of its recording.
theorem sameCourse_obey (player : Player) {order : Order} (horder : order.command.Plays) :
    player.SameCourse (player.obey order).player ∨ player.withLayout.SameCourse (player.obey order).player := by
  obtain ⟨now, command⟩ := order
  obtain ⟨result, -, hcase, hobey⟩ := player.obeying now command
  rw [hobey]
  cases hcase with
  | load | loadFailed | scanUnloaded | scanFailed | scan => exact horder.elim
  | start =>
    have hready : player.withLayout.SameCourse (player.readied now) := ⟨⟨rfl, rfl⟩, rfl, rfl, rfl⟩
    exact .inr (hready.trans (sameCourse_tick now _))
  | stop =>
    refine .inl ⟨⟨rfl, rfl⟩, ?_, ?_, rfl⟩
    · cases player.log <;> simp [Log.moveTo]
    · cases htimeline : player.clock.timeline <;> simp [Clock.backToFirst, htimeline]
  | tick => exact .inl (sameCourse_tick now player)
  | wake =>
    have hcourse : player.SameCourse { player with pending := none } := ⟨⟨rfl, rfl⟩, rfl, rfl, rfl⟩
    exact .inl (hcourse.trans (sameCourse_tick now _))
  | seekPlaying fraction log hlog landing hlanding =>
    have hcourse := sameCourse_landed hlog hlanding
    exact .inl ⟨⟨rfl, rfl⟩, hcourse.recording, hcourse.clock, hcourse.listener⟩
  | seek fraction log hlog landing hlanding => exact .inl (sameCourse_landed hlog hlanding)
  | pause | rebase | speedPlaying | speed => exact .inl ⟨⟨rfl, rfl⟩, rfl, rfl, rfl⟩
  | startRefused | pauseRefused | stopRefused | wakeRefused | seekRefused | speedRefused =>
    exact .inl (SameCourse.refl player)

-- So it keeps to where it set out.
theorem sameOutset_obey (player : Player) {order : Order} (horder : order.command.Plays) :
    player.SameOutset (player.obey order).player := by
  rcases sameCourse_obey player horder with hcourse | hcourse
  · exact hcourse.sameOutset
  · exact (sameOutset_withLayout player).trans hcourse.sameOutset

-- A player that knows the layout already learns nothing.
theorem sameCourse_obeyAll {player : Player} (orders : List Order) (hlayout : player.clock.layout.isSome)
    (horders : ∀ order ∈ orders, order.command.Plays) : player.SameCourse (player.obeyAll orders).player := by
  induction orders generalizing player with
  | nil => exact SameCourse.refl player
  | cons order rest ih =>
    have hone : player.SameCourse (player.obey order).player := by
      have hcases := sameCourse_obey player (horders order (by simp))
      rwa [withLayout_of_known hlayout, or_self] at hcases
    have hknown : (player.obey order).player.clock.layout = player.clock.layout := congrArg (·.layout) hone.clock
    exact hone.trans (ih (by rw [hknown]; exact hlayout) fun other hother => horders other (by simp [hother]))

end Outset

-- What a player has loaded does not depend on where it stands.
theorem recording_outset (player : Player) :
    player.outset.log.map (·.recording) = player.log.map (·.recording) := by
  have hcase := player.laidOut
  unfold outset
  generalize player.withLayout = known at hcase
  cases hcase with
  | known | blank => cases hlog : player.log <;> simp [halted, hlog, Log.moveTo]
  | found log hlog => simp [halted, hlog, Log.moveTo]

theorem SameOutset.recording {player other : Player} (h : player.SameOutset other) :
    other.log.map (·.recording) = player.log.map (·.recording) := by
  rw [← recording_outset, h]
  exact recording_outset player

-- A scan finds the same in one recording, whoever has it scanned.
theorem sameOutset_scan {player other : Player} {log otherLog : Log} (hlog : player.log = some log)
    (hother : other.log = some otherLog) (hrecording : otherLog.recording = log.recording)
    (hsetup : player.SameSetup other) : (scan player).2.player.SameOutset (scan other).2.player := by
  apply SameCourse.sameOutset
  have hsame : Scan.ofRecording other.lockPrimary otherLog.recording =
      Scan.ofRecording player.lockPrimary log.recording := by
    rw [hsetup.lockPrimary, hrecording]
  cases hscan : Scan.ofRecording player.lockPrimary log.recording with
  | error failure =>
    rw [scan_of_failure hlog hscan, scan_of_failure hother (hsame.trans hscan)]
    exact ⟨⟨hsetup.capacity, hsetup.lockPrimary⟩, by simp [Log.moveTo, hrecording], rfl, rfl⟩
  | ok outcome =>
    rw [scan_of_outcome hlog hscan, scan_of_outcome hother (hsame.trans hscan)]
    exact ⟨⟨hsetup.capacity, hsetup.lockPrimary⟩, by simp [Log.moveTo, hrecording], rfl, rfl⟩

-- A player that was just set up, with a recording loaded and, if it is to be, scanned.
def fresh (config : Config) (recording : Recording) (scanned : Bool) : Player :=
  let loaded := (load recording (Player.new config)).player
  if scanned then (scan loaded).2.player else loaded

-- Players with one recording loaded, scanned or not, and what they come to by playing it.
inductive Holding (config : Config) (recording : Recording) : Bool → Player → Prop
  | load {player : Player} (now : Nat) (h : Reachable config player) :
      Holding config recording false (player.obey ⟨now, .load recording⟩).player
  | scan {scanned : Bool} {player : Player} (now : Nat) (h : Holding config recording scanned player) :
      Holding config recording true (player.obey ⟨now, .scan⟩).player
  | play {scanned : Bool} {player : Player} (order : Order) (horder : order.command.Plays)
      (h : Holding config recording scanned player) :
      Holding config recording scanned (player.obey order).player

section Holding

variable {config : Config} {recording : Recording} {scanned : Bool} {player : Player}

theorem reachable_fresh (config : Config) (recording : Recording) (scanned : Bool) :
    Reachable config (fresh config recording scanned) := by
  have hnew : Reachable config (Player.new config) := .new
  have hloaded := hnew.obey ⟨0, .load recording⟩
  cases scanned with
  | false => exact hloaded
  | true => exact hloaded.obey ⟨0, .scan⟩

theorem recording_fresh (config : Config) (recording : Recording) (scanned : Bool) :
    (fresh config recording scanned).log.map (·.recording) = some recording := by
  cases scanned with
  | false => rfl
  | true =>
    obtain ⟨line, hline⟩ := (Player.scanned (rfl : (fresh config recording false).log = _)).loaded
    exact congrArg (Option.map (·.recording)) hline

theorem sameSetup_fresh (h : Reachable config player) : (fresh config recording scanned).SameSetup player := by
  have hfresh := reachable_fresh config recording scanned
  exact ⟨h.capacity.trans hfresh.capacity.symm, h.lockPrimary.trans hfresh.lockPrimary.symm⟩

theorem Holding.reachable (h : Holding config recording scanned player) : Reachable config player := by
  induction h with
  | load now h => exact h.obey _
  | scan now _ ih => exact ih.obey _
  | play order _ _ ih => exact ih.obey order

theorem Holding.playAll (orders : List Order) (horders : ∀ order ∈ orders, order.command.Plays)
    (h : Holding config recording scanned player) :
    Holding config recording scanned (player.obeyAll orders).player := by
  induction orders generalizing player with
  | nil => exact h
  | cons order rest ih =>
    exact ih (fun other hother => horders other (by simp [hother])) (h.play order (horders order (by simp)))

theorem loaded_of_sameOutset (h : (fresh config recording scanned).SameOutset player) :
    ∃ log, player.log = some log ∧ log.recording = recording := by
  have hrecording := h.recording.trans (recording_fresh config recording scanned)
  simpa using hrecording

-- Whatever a player has been through, it sets out as a new one does that has loaded and scanned as much.
theorem Holding.sameOutset (h : Holding config recording scanned player) :
    (fresh config recording scanned).SameOutset player := by
  induction h with
  | load now h =>
    have hsetup : (fresh config recording false).SameSetup _ := sameSetup_fresh (h.obey ⟨now, .load recording⟩)
    exact SameCourse.sameOutset ⟨hsetup, rfl, rfl, rfl⟩
  | scan now h ih =>
    obtain ⟨log, hlog, hrecording⟩ := loaded_of_sameOutset ih
    have hsetup : (fresh config recording false).SameSetup _ := sameSetup_fresh h.reachable
    exact sameOutset_scan rfl hlog hrecording hsetup
  | play order horder _ ih => exact ih.trans (sameOutset_obey _ horder)

theorem Holding.loaded (h : Holding config recording scanned player) :
    ∃ log, player.log = some log ∧ log.recording = recording :=
  loaded_of_sameOutset h.sameOutset

-- There is no way out of an error but to load or to scan.
theorem error_obey {player : Player} {order : Order} (horder : order.command.Plays)
    (hstate : player.state = .error) : (player.obey order).player.state = .error := by
  obtain ⟨now, command⟩ := order
  have hshown : (player.obey ⟨now, command⟩).player.state = player.state ∨
      Changes player command (player.obey ⟨now, command⟩).player.state := shows_obey (.inl rfl)
  generalize (player.obey ⟨now, command⟩).player.state = state at hshown
  rcases hshown with rfl | hchanges
  · exact hstate
  · cases hchanges with
    | load | loadFailed | scan | scanFailed => exact horder.elim
    | start hstart | startEnds hstart =>
      have hidle := hstart.1
      simp [hstate] at hidle
    | pause hplaying | tickEnds hplaying | wakeEnds _ hplaying => simp [hstate] at hplaying
    | stop hbegun => simp [hstate] at hbegun

-- What cannot be scanned is not played either.
theorem Holding.failed {failure : Scan.Failure} (h : Holding config recording scanned player)
    (hscan : Scan.ofRecording config.lockPrimary recording = .error failure) (hscanned : scanned = true) :
    player.state = .error := by
  induction h with
  | load => cases hscanned
  | scan now h =>
    obtain ⟨log, hlog, hrecording⟩ := h.loaded
    have hfailed := scan_of_failure hlog (by rw [h.reachable.lockPrimary, hrecording, hscan])
    exact congrArg (·.2.player.state) hfailed
  | play order horder _ ih => exact error_obey horder (ih hscanned)

-- Every player with something loaded has come to it in this way.
theorem Reachable.holding {log : Log} (h : Reachable config player) (hlog : player.log = some log) :
    ∃ scanned, Holding config log.recording scanned player := by
  induction h generalizing log with
  | new => cases hlog
  | @obey player order h ih =>
    obtain ⟨now, command⟩ := order
    by_cases horder : command.Plays
    · have hsame : player.SameOutset (player.obey ⟨now, command⟩).player := sameOutset_obey player horder
      have hrecording := hsame.recording
      rw [hlog] at hrecording
      obtain ⟨before, hbefore, hloaded⟩ : ∃ before, player.log = some before ∧
          before.recording = log.recording := by simpa using hrecording.symm
      obtain ⟨scanned, hholding⟩ := ih hbefore
      exact ⟨scanned, hloaded ▸ hholding.play ⟨now, command⟩ horder⟩
    · cases command with
      | load recording =>
        obtain rfl : Log.start recording = log := Option.some.inj hlog
        exact ⟨false, .load now h⟩
      | loadFailed => cases hlog
      | scan =>
        cases hbefore : player.log with
        | none =>
          have hnone : (scan player).2.player.log = none := by simp [Player.scan, hbefore]
          cases hlog.symm.trans hnone
        | some before =>
          obtain ⟨scanned, hholding⟩ := ih hbefore
          obtain ⟨line, hmoved⟩ := (Player.scanned hbefore).loaded
          obtain rfl : before.moveTo line = log := Option.some.inj (hmoved.symm.trans hlog)
          exact ⟨true, hholding.scan now⟩
      | start | pause | stop | tick | rebase | wake | seek | setSpeed => exact absurd trivial horder

end Holding

end Player

end VoyageLog
