import VoyageLog.Playback.Seek
import VoyageLog.Proofs.Recording.Stretch
import VoyageLog.Proofs.TimeSource.Hearing

namespace VoyageLog.Player

open TimeSource

-- The first record that is not before the target.
def firstAtOrAfter (layout : Option Layout) (target : Instant) :
    Listener → List Record → Option Landing
  | _, [] => none
  | listener, record :: rest =>
    match instantOf layout listener record with
    | (some instant, next) =>
      if target ≤ instant then some ⟨record.line, some instant, next⟩
      else firstAtOrAfter layout target next rest
    | (none, next) => firstAtOrAfter layout target next rest

def landing? (fraction : Binary64) (log : Log) (player : Player) : Except SeekAnswer Landing :=
  match player.clock.timeline with
  | some timeline =>
    match seekTarget? timeline fraction with
    | none => .error .outOfRange
    | some target =>
      match firstAtOrAfter player.clock.layout target player.listener.undated
          (log.recording.recordsAt player.clock.dataStart) with
      | none => .error .refused
      | some landing => .ok landing
  | none =>
    if log.lineCount = 0 then .error .refused
    else .ok ⟨max (lineOfShare log.lineCount fraction) player.clock.dataStart, none, player.listener⟩

-- Reading on finds the first of the records still to be read, and only moves the cursor.
theorem searchOn_eq (layout : Option Layout) (target : Instant) (listener : Listener) {log : Log}
    {records : List Record} (h : log.unread = records) :
    ∃ line, searchOn layout target listener log =
      (firstAtOrAfter layout target listener records, log.moveTo line) := by
  induction records generalizing listener log with
  | nil =>
    refine ⟨log.lineCount, ?_⟩
    rw [searchOn]
    split
    · rename_i atEnd hread
      rw [Log.read_of_nil h] at hread
      cases hread
      rfl
    · rename_i record further hread
      simp [Log.read_of_nil h] at hread
  | cons first rest ih =>
    obtain ⟨hfirst, hrest⟩ := Log.read_of_cons h
    rw [searchOn]
    split
    · rename_i atEnd hread
      simp [hfirst] at hread
    · rename_i record further hread
      obtain ⟨rfl, rfl⟩ : first = record ∧ log.moveTo (first.line + 1) = further := by
        simpa [hfirst] using hread
      rcases hheard : instantOf layout listener first with ⟨_ | instant, heard⟩
      · obtain ⟨line, hline⟩ := ih heard hrest
        exact ⟨line, by simpa only [firstAtOrAfter, hheard, Log.moveTo_moveTo] using hline⟩
      · simp only [firstAtOrAfter, hheard]
        split
        · exact ⟨_, rfl⟩
        · obtain ⟨line, hline⟩ := ih heard hrest
          exact ⟨line, hline⟩

-- A search leaves the cursor where it found it.
theorem search_eq (target : Instant) (log : Log) (player : Player) :
    player.search target log = (firstAtOrAfter player.clock.layout target player.listener.undated
      (log.recording.recordsAt player.clock.dataStart), log) := by
  obtain ⟨line, hsearched⟩ := searchOn_eq player.clock.layout target player.listener.undated
    (log.unread_moveTo player.clock.dataStart)
  have hback : ((log.moveTo player.clock.dataStart).moveTo line).moveTo log.next = log := log.moveTo_next
  rw [search, hsearched]
  exact congrArg (Prod.mk _) hback

theorem lookUp_eq (fraction : Binary64) (log : Log) (player : Player) :
    player.lookUp fraction log = (player.landing? fraction log, log) := by
  simp only [lookUp, landing?, search_eq]
  cases player.clock.timeline with
  | none =>
    dsimp only
    split <;> rfl
  | some timeline =>
    dsimp only
    cases seekTarget? timeline fraction with
    | none => rfl
    | some target =>
      dsimp only
      cases firstAtOrAfter player.clock.layout target player.listener.undated
        (log.recording.recordsAt player.clock.dataStart) <;> rfl

-- Nothing is left of a search but what it found.
theorem seek_eq (now : Nat) (fraction : Binary64) (player : Player) :
    player.seek now fraction =
      match player.log with
      | none => (.refused, quietly player)
      | some log =>
        if fraction.within (Binary64.Finite.zero false) Binary64.Finite.one && player.isSeekable then
          match player.landing? fraction log with
          | .error answer => (answer, quietly player)
          | .ok landing => (.moved, land now landing log player)
        else (.refused, quietly player) := by
  unfold seek
  cases hlog : player.log with
  | none => rfl
  | some log =>
    have hsame : { player with log := some log } = player := by rw [← hlog]
    simp only [lookUp_eq]
    cases player.landing? fraction log with
    | error answer => simp only [hsame]
    | ok landing => rfl

theorem seek_refused_iff {player : Player} {log : Log} {now : Nat} {fraction : Binary64}
    (hlog : player.log = some log) :
    (player.seek now fraction).1 = .refused ↔
      (fraction.within (Binary64.Finite.zero false) Binary64.Finite.one && player.isSeekable) = true →
        player.landing? fraction log = .error .refused := by
  by_cases hready : (fraction.within (Binary64.Finite.zero false) Binary64.Finite.one && player.isSeekable) = true
  · cases hlanding : player.landing? fraction log <;> simp [seek_eq, hlog, hready, hlanding]
  · simp [seek_eq, hlog, hready]

-- The listener of a search after some records, none of which it stopped at.
def passedOver (layout : Option Layout) (listener : Listener) (records : List Record) : Listener :=
  records.foldl (fun listener record => (instantOf layout listener record).2) listener

theorem undated_instantOf (layout : Option Layout) (listener : Listener) (record : Record) :
    (instantOf layout listener record).2.undated = listener.undated := by
  unfold instantOf
  split
  · rfl
  · exact listener.undated_heed record.text

theorem undated_passedOver (layout : Option Layout) (listener : Listener) (records : List Record) :
    (passedOver layout listener records).undated = listener.undated := by
  induction records generalizing listener with
  | nil => rfl
  | cons record rest ih => exact (ih _).trans (undated_instantOf layout listener record)

-- What a search finds: a record with all that comes before it, and what the listener makes of it.
theorem found_of_firstAtOrAfter {layout : Option Layout} {target : Instant} {listener : Listener}
    {records : List Record} {landing : Landing}
    (h : firstAtOrAfter layout target listener records = some landing) :
    ∃ before record rest instant, records = before ++ record :: rest ∧ landing.line = record.line ∧
      landing.instant = some instant ∧ target ≤ instant ∧
      instantOf layout (passedOver layout listener before) record = (some instant, landing.listener) := by
  induction records generalizing listener with
  | nil => simp [firstAtOrAfter] at h
  | cons first rest ih =>
    -- A search that goes on finds its record in the rest.
    have hlater : ∀ {next : Listener}, (instantOf layout listener first).2 = next →
        firstAtOrAfter layout target next rest = some landing →
        ∃ before record after instant, first :: rest = before ++ record :: after ∧
          landing.line = record.line ∧ landing.instant = some instant ∧ target ≤ instant ∧
          instantOf layout (passedOver layout listener before) record = (some instant, landing.listener) := by
      rintro _ rfl hfound
      obtain ⟨before, record, after, instant, rfl, hline, hinstant, hle, hread⟩ := ih hfound
      exact ⟨first :: before, record, after, instant, rfl, hline, hinstant, hle, hread⟩
    simp only [firstAtOrAfter] at h
    split at h
    · rename_i instant next hread
      split at h
      · rename_i hle
        obtain rfl := Option.some.inj h
        exact ⟨[], first, rest, instant, rfl, rfl, rfl, hle, hread⟩
      · exact hlater (congrArg Prod.snd hread) h
    · rename_i next hread
      exact hlater (congrArg Prod.snd hread) h

-- Where a seek that is not refused comes to.
inductive Lands (fraction : Binary64) (log : Log) (player : Player) : Landing → Prop
  | byTime (timeline : Timeline) (htimeline : player.clock.timeline = some timeline) (target : Instant)
      (htarget : seekTarget? timeline fraction = some target) (landing : Landing)
      (hfound : firstAtOrAfter player.clock.layout target player.listener.undated
        (log.recording.recordsAt player.clock.dataStart) = some landing) :
      Lands fraction log player landing
  | byLine (htimeline : player.clock.timeline = none) (hlines : log.lineCount ≠ 0) :
      Lands fraction log player
        ⟨max (lineOfShare log.lineCount fraction) player.clock.dataStart, none, player.listener⟩

theorem lands {fraction : Binary64} {log : Log} {player : Player} {landing : Landing}
    (h : player.landing? fraction log = .ok landing) : Lands fraction log player landing := by
  unfold landing? at h
  split at h
  · rename_i timeline htimeline
    split at h
    · cases h
    · rename_i target htarget
      split at h
      · cases h
      · rename_i found hfound
        obtain rfl := Except.ok.inj h
        exact .byTime timeline htimeline target htarget found hfound
  · rename_i htimeline
    split at h
    · cases h
    · rename_i hlines
      obtain rfl := Except.ok.inj h
      exact .byLine htimeline hlines

-- A search leaves its listener as it was but for the date.
theorem undated_of_lands {player : Player} {log : Log} {fraction : Binary64} {landing : Landing}
    (h : Lands fraction log player landing) : landing.listener.undated = player.listener.undated := by
  cases h with
  | byTime timeline htimeline target htarget landing hfound =>
    obtain ⟨before, record, rest, instant, -, -, -, -, hread⟩ := found_of_firstAtOrAfter hfound
    have hundated := undated_instantOf player.clock.layout
      (passedOver player.clock.layout player.listener.undated before) record
    rw [hread, undated_passedOver] at hundated
    exact hundated
  | byLine => rfl

end VoyageLog.Player
