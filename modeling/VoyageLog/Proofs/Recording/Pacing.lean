import VoyageLog.Proofs.Recording.Rows

namespace VoyageLog

open Sentence TimeSource

-- An answer to each record, given those before it.
def answers (answer : List Record → Record → Option Instant) (before : List Record) :
    List Record → List (Nat × Option Instant)
  | [] => []
  | record :: rest => (record.line, answer before record) :: answers answer (before ++ [record]) rest

-- The lines that got an answer.
def answered (entries : List (Nat × Option Instant)) : List (Nat × Instant) :=
  entries.filterMap fun (line, answer) => answer.map (line, ·)

theorem line_of_answered {answer : List Record → Record → Option Instant} {before records : List Record}
    {entry : Nat × Instant} (h : entry ∈ answered (answers answer before records)) :
    ∃ record ∈ records, record.line = entry.1 := by
  induction records generalizing before with
  | nil => simp [answers, answered] at h
  | cons record rest ih =>
    simp only [answers, answered, List.filterMap_cons] at h
    split at h
    · obtain ⟨other, hmem, hline⟩ := ih h
      exact ⟨other, by simp [hmem], hline⟩
    · rename_i first hfirst
      rcases List.mem_cons.mp h with rfl | hrest
      · cases hanswer : answer before record with
        | none => simp [hanswer] at hfirst
        | some instant =>
          simp only [hanswer, Option.map_some, Option.some.injEq] at hfirst
          exact ⟨record, by simp, by rw [← hfirst]⟩
      · obtain ⟨other, hmem, hline⟩ := ih hrest
        exact ⟨other, by simp [hmem], hline⟩

theorem answered_cons_eq_iff {line : Nat} {first second : Option Instant}
    {rest other : List (Nat × Option Instant)} (hrest : ∀ instant, (line, instant) ∉ answered rest)
    (hother : ∀ instant, (line, instant) ∉ answered other) :
    answered ((line, first) :: rest) = answered ((line, second) :: other) ↔
      first = second ∧ answered rest = answered other := by
  simp only [answered, List.filterMap_cons]
  cases first with
  | none =>
    cases second with
    | none => simp
    | some instant =>
      simp only [Option.map_none, Option.map_some, reduceCtorEq, false_and, iff_false]
      intro heq
      apply hrest instant
      rw [answered, heq]
      exact List.mem_cons_self
  | some instant =>
    cases second with
    | none =>
      simp only [Option.map_none, Option.map_some, reduceCtorEq, false_and, iff_false]
      intro heq
      apply hother instant
      rw [answered, ← heq]
      exact List.mem_cons_self
    | some _ => simp

-- Lines ascend, so that the lines that got an answer tell every answer apart.
theorem answered_eq_iff {first second : List Record → Record → Option Instant}
    {before records : List Record}
    (hasc : records.Pairwise fun earlier later => earlier.line < later.line) :
    answered (answers first before records) = answered (answers second before records) ↔
      ∀ taken record rest, records = taken ++ record :: rest →
        first (before ++ taken) record = second (before ++ taken) record := by
  induction records generalizing before with
  | nil => simp [answers, answered]
  | cons head tail ih =>
    obtain ⟨hlater, htail⟩ := List.pairwise_cons.mp hasc
    have hnew : ∀ answer : List Record → Record → Option Instant, ∀ instant,
        (head.line, instant) ∉ answered (answers answer (before ++ [head]) tail) := by
      intro answer instant hmem
      obtain ⟨record, hrecord, hline⟩ := line_of_answered hmem
      have := hlater record hrecord
      simp only at hline
      omega
    simp only [answers]
    rw [answered_cons_eq_iff (hnew first) (hnew second), ih htail]
    constructor
    · rintro ⟨hhead, hrest⟩ taken record rest hsplit
      cases taken with
      | nil =>
        obtain ⟨rfl, rfl⟩ := List.cons.inj hsplit
        simpa using hhead
      | cons earliest taken =>
        obtain ⟨rfl, hsame⟩ := List.cons.inj hsplit
        simpa using hrest taken record rest hsame
    · intro hall
      refine ⟨by simpa using hall [] head tail rfl, ?_⟩
      intro taken record rest hsplit
      simpa using hall (head :: taken) record rest (by simp [hsplit])

-- The last date that some records tell.
def lastDate (records : List Record) : Option Date :=
  records.reverse.findSome? fun record => (told? record.text).bind (·.2.date)

theorem lastDate_append (records : List Record) (record : Record) :
    lastDate (records ++ [record]) = ((told? record.text).bind (·.2.date)).or (lastDate records) := by
  simp [lastDate, List.findSome?_cons]
  cases (told? record.text).bind (·.2.date) <;> rfl

-- What a sentence tells of a source to someone who knows a date.
def toldOf? (source : TimeSource) (date : Option Date) (sentence : Text) : Option Instant :=
  (told? sentence).bind fun (speaker, telling) =>
    if speaker = source then
      (telling.date.or date).map fun date => Instant.onDate date telling.utc.time
    else none

namespace TimeSource.Listener

theorem date_hear (listener : Listener) (sentence : Text) :
    (listener.hear sentence).2.date = ((told? sentence).bind (·.2.date)).or listener.date :=
  congrArg Listener.date (listener.after_hear sentence)

theorem hear_toldOf (listener : Listener) (source : TimeSource) (sentence : Text) :
    ((listener.hear sentence).1.filter (·.source = source)).map (·.instant) =
      toldOf? source listener.date sentence := by
  cases htold : told? sentence with
  | none => simp [hear_of_untold listener htold, toldOf?, htold]
  | some told =>
    rw [hear_of_told listener htold]
    have hdate : listener.dateOf told.2 = told.2.date.or listener.date := by
      unfold dateOf
      cases told.2.date <;> rfl
    by_cases hsource : told.1 = source <;> cases hknown : told.2.date.or listener.date <;>
      simp [toldOf?, htold, hdate, hknown, hsource]

-- The lines that pace playback, and when.
def paced (listener : Listener) (records : List Record) : List (Nat × Instant) :=
  answered (listener.timings records)

theorem timings_eq_answers {listener : Listener} {source : TimeSource} (before records : List Record)
    (hlock : listener.lock = some source) (hdate : listener.date = lastDate before) :
    listener.timings records =
      answers (fun before record => toldOf? source (lastDate before) record.text) before records := by
  induction records generalizing listener before with
  | nil => rfl
  | cons record rest ih =>
    have hheed : (listener.heed record.text).1.map (·.instant) =
        toldOf? source (lastDate before) record.text := by
      rw [← hdate, ← hear_toldOf]
      simp only [heed, heeds, hlock, eq_comm (a := source)]
    have hkept : (listener.heed record.text).2.lock = some source :=
      (congrArg Listener.lock (listener.undated_heed record.text)).trans hlock
    have hnext : (listener.heed record.text).2.date = lastDate (before ++ [record]) := by
      rw [lastDate_append, ← hdate]
      exact listener.date_hear record.text
    simp only [timings, answers]
    rw [hheed, ih _ hkept hnext]

end TimeSource.Listener

def sound (records : List Record) : List Record := records.filter (isSound ·.text)

namespace Scan

theorem Sentences.sightings_eq_answers {state : Sentences} {source : TimeSource}
    (before records : List Record) (hdate : state.listener.date = lastDate (sound before)) :
    sightingsOf source (state.sightings records) =
      answered (answers (fun before record =>
        if isSound record.text then toldOf? source (lastDate (sound before)) record.text else none)
        before records) := by
  induction records generalizing state before with
  | nil => rfl
  | cons record rest ih =>
    have hnext : (state.read record).listener.date = lastDate (sound (before ++ [record])) := by
      rw [listener_read]
      by_cases hsound : isSound record.text
      · have hlast : sound (before ++ [record]) = sound before ++ [record] := by simp [sound, hsound]
        rw [if_pos hsound, hlast, lastDate_append, ← hdate]
        exact state.listener.date_hear record.text
      · have hlast : sound (before ++ [record]) = sound before := by simp [sound, hsound]
        rw [if_neg hsound, hlast, hdate]
    have hsighted : ((state.sighted? record).filter (·.source = source)).map (·.instant) =
        if isSound record.text then toldOf? source (lastDate (sound before)) record.text else none := by
      rw [sighted?_eq]
      by_cases hsound : isSound record.text
      · rw [if_pos hsound, if_pos hsound, Listener.hear_toldOf, hdate]
      · rw [if_neg hsound, if_neg hsound]
        rfl
    have hrest := ih _ hnext
    simp only [sightingsOf, sightings, answers, List.filterMap_append] at hrest ⊢
    rw [hrest, ← hsighted]
    cases hfound : state.sighted? record with
    | none => simp [answered]
    | some sighting => by_cases hsource : sighting.source = source <;> simp [answered, hsource]

end Scan

-- No sentence that is not sound has a say in when a source is heard: neither one of that source itself, nor
-- one that would leave its date to a sentence of that source.
def Undisturbed (source : TimeSource) (records : List Record) : Prop :=
  ∀ before record after, records = before ++ record :: after →
    ∀ telling, told? record.text = some (source, telling) →
      if isSound record.text then telling.date = none → lastDate before = lastDate (sound before)
      else telling.date = none ∧ lastDate before = none

theorem toldOf?_eq_iff {source : TimeSource} {heard scanned : Option Date} {sentence : Text} :
    toldOf? source heard sentence =
        (if isSound sentence then toldOf? source scanned sentence else none) ↔
      ∀ telling, told? sentence = some (source, telling) →
        if isSound sentence then telling.date = none → heard = scanned
        else telling.date = none ∧ heard = none := by
  cases htold : told? sentence with
  | none => simp [toldOf?, htold]
  | some told =>
    obtain ⟨speaker, telling⟩ := told
    by_cases hsource : speaker = source
    · subst hsource
      have honly : (∀ other, some (speaker, telling) = some (speaker, other) →
          if isSound sentence then other.date = none → heard = scanned
          else other.date = none ∧ heard = none) ↔
          if isSound sentence then telling.date = none → heard = scanned
          else telling.date = none ∧ heard = none := by
        simp
      rw [honly]
      simp only [toldOf?, htold, Option.bind_some, if_true]
      by_cases hsound : isSound sentence
      · simp only [hsound, if_true]
        cases hdate : telling.date with
        | some date => simp
        | none =>
          simp only [Option.none_or, forall_const]
          constructor
          · intro heq
            exact Option.map_injective (fun _ _ => Instant.onDate_injective) heq
          · rintro rfl
            rfl
      · simp [hsound, Option.or_eq_none_iff]
    · simp [toldOf?, htold, hsource]

theorem paced_eq_sightingsOf_iff (recording : Recording) (source : TimeSource) (first : Nat) :
    Listener.paced ⟨none, some source⟩ (recording.recordsAt first) =
        Scan.sightingsOf source (Scan.sightings (recording.recordsAt first)) ↔
      Undisturbed source (recording.recordsAt first) := by
  rw [Listener.paced, Listener.timings_eq_answers [] _ rfl rfl, Scan.sightings,
    Scan.Sentences.sightings_eq_answers [] _ rfl,
    answered_eq_iff (recording.pairwise_recordsAt first)]
  simp only [List.nil_append, toldOf?_eq_iff]
  rfl

-- Where all sentences that tell the time are sound, nothing is disturbed.
theorem undisturbed_of_sound {source : TimeSource} {records : List Record}
    (h : ∀ record ∈ records, (told? record.text).isSome → isSound record.text) :
    Undisturbed source records := by
  intro before record after hsplit telling htold
  have hsound : isSound record.text := h record (by simp [hsplit]) (by simp [htold])
  rw [if_pos hsound]
  intro _
  have hbefore : ∀ earlier ∈ before, (told? earlier.text).isSome → isSound earlier.text :=
    fun earlier hmem => h earlier (by simp [hsplit, hmem])
  clear hsplit
  induction before using List.reverseRecOn with
  | nil => rfl
  | append_singleton earlier last ih =>
    have hprefix := ih fun other hmem => hbefore other (by simp [hmem])
    by_cases hlast : isSound last.text
    · have hgrown : sound (earlier ++ [last]) = sound earlier ++ [last] := by simp [sound, hlast]
      rw [hgrown, lastDate_append, lastDate_append, hprefix]
    · have hsame : sound (earlier ++ [last]) = sound earlier := by simp [sound, hlast]
      have huntold : told? last.text = none := by
        simpa [hlast] using hbefore last (by simp)
      rw [hsame, lastDate_append, huntold, hprefix]
      rfl

-- What a scan has seen of its primary source is in order and within the timeline.
theorem Scan.Founds.ordered {lockPrimary : Bool} {source : TimeSource} {records : List Record}
    {details : Details} {outcome : Outcome} (h : Founds lockPrimary source records details outcome) :
    (sightingsOf source (sightings records)).Pairwise (fun earlier later => earlier.2 ≤ later.2) ∧
      ∃ timeline, outcome.clock.timeline = some timeline ∧
        ∀ entry ∈ sightingsOf source (sightings records),
          timeline.first ≤ entry.2 ∧ entry.2 ≤ timeline.last := by
  have hknown := h.known
  rw [get?_sentences] at hknown
  have hspans := spans_of_chronological hknown h.chronological
  refine ⟨List.pairwise_map.mp hspans.sorted, _, h.timeline, ?_⟩
  intro entry hentry
  have hmem : entry.2 ∈ (sightingsOf source (sightings records)).map (·.2) := List.mem_map_of_mem hentry
  exact ⟨first_le_of_sorted hspans.sorted hspans.first.symm hmem,
    le_last_of_sorted hspans.sorted hspans.last.symm hmem⟩

-- Playback is paced by what the scan has seen of the primary source exactly where no unsound sentence
-- disturbs it, and then it never goes back in time nor beyond the timeline.
theorem paced_as_scanned_iff_undisturbed {recording : Recording} {outcome : Scan.Outcome}
    {source : TimeSource} (hscan : Scan.ofRecording true recording = .ok outcome)
    (hprimary : outcome.clock.primary = some source) :
    let records := recording.recordsAt outcome.clock.dataStart
    let paced := Listener.paced ⟨none, outcome.listener.lock⟩ records
    outcome.listener.lock = some source ∧
      (paced = Scan.sightingsOf source (Scan.sightings records) ↔ Undisturbed source records) ∧
      (Undisturbed source records →
        paced.Pairwise (fun earlier later => earlier.2 ≤ later.2) ∧
          ∃ timeline, outcome.clock.timeline = some timeline ∧
            ∀ entry ∈ paced, timeline.first ≤ entry.2 ∧ entry.2 ≤ timeline.last) := by
  obtain ⟨details, hfounds⟩ := Scan.founds_of_primary hscan hprimary
  have hlock : outcome.listener.lock = some source := hfounds.lock
  have hiff := paced_eq_sightingsOf_iff recording source outcome.clock.dataStart
  intro records paced
  have hpaced : paced = Listener.paced ⟨none, some source⟩ records := by rw [← hlock]
  refine ⟨hlock, hpaced ▸ hiff, ?_⟩
  intro hundisturbed
  have hsame : paced = Scan.sightingsOf source (Scan.sightings records) :=
    hpaced.trans (hiff.mpr hundisturbed)
  rw [hsame]
  exact hfounds.ordered

def gpsMinimum : TimeSource := ⟨['G', 'P'], .rmc, 0⟩

-- The line in the middle tells nothing, and would not be sound if it did.
def steady : Recording :=
  Recording.ofLines "steady"
    ["$GPRMC,120005,A,,,,,,,010124*".toList, "$GPTXT,120000".toList, "$GPRMC,120006,A,,,,,,,010124*".toList]

theorem paced_as_scanned_steadily :
    ∃ outcome, Scan.ofRecording true steady = .ok outcome ∧ outcome.clock.primary = some gpsMinimum ∧
      Undisturbed gpsMinimum (steady.recordsAt outcome.clock.dataStart) ∧
      Listener.paced ⟨none, outcome.listener.lock⟩ (steady.recordsAt outcome.clock.dataStart) =
        Scan.sightingsOf gpsMinimum (Scan.sightings (steady.recordsAt outcome.clock.dataStart)) := by
  have hfound : (Scan.ofRecording true steady).toOption.map
      (fun outcome => (outcome.clock.primary, outcome.clock.dataStart)) = some (some gpsMinimum, 0) := by
    decide +kernel
  have hsound : ∀ record ∈ steady.recordsAt 0, (told? record.text).isSome → isSound record.text := by
    decide +kernel
  cases hscan : Scan.ofRecording true steady with
  | error failure => simp [hscan, Except.toOption] at hfound
  | ok outcome =>
    simp only [hscan, Except.toOption, Option.map_some, Option.some.injEq, Prod.mk.injEq] at hfound
    obtain ⟨hprimary, hstart⟩ := hfound
    have hundisturbed : Undisturbed gpsMinimum (steady.recordsAt outcome.clock.dataStart) := by
      rw [hstart]
      exact undisturbed_of_sound hsound
    obtain ⟨-, hiff, -⟩ := paced_as_scanned_iff_undisturbed hscan hprimary
    exact ⟨outcome, rfl, hprimary, hundisturbed, hiff.mpr hundisturbed⟩

-- The line in the middle is not sound, so that a scan passes over it.
def stumbling : Recording :=
  Recording.ofLines "stumbling"
    ["$GPRMC,120005,A,,,,,,,010124*".toList, "$GPRMC,120007,A,,,,,,,010124".toList,
      "$GPRMC,120006,A,,,,,,,010124*".toList]

-- Playback is paced by it all the same, and so goes beyond the last instant and then back in time.
theorem unsound_sentence_paces_beyond_timeline :
    ∃ outcome timeline, Scan.ofRecording true stumbling = .ok outcome ∧
      outcome.clock.primary = some gpsMinimum ∧ outcome.clock.timeline = some timeline ∧
      (let records := stumbling.recordsAt outcome.clock.dataStart
       let paced := Listener.paced ⟨none, some gpsMinimum⟩ records
       paced ≠ Scan.sightingsOf gpsMinimum (Scan.sightings records) ∧
         ¬paced.Pairwise (fun earlier later => earlier.2 ≤ later.2) ∧
         ¬∀ entry ∈ paced, entry.2 ≤ timeline.last) := by
  have hfound : (Scan.ofRecording true stumbling).toOption.map
      (fun outcome => (outcome.clock.primary, outcome.clock.dataStart)) = some (some gpsMinimum, 0) := by
    decide +kernel
  have hdiffers : Listener.paced ⟨none, some gpsMinimum⟩ (stumbling.recordsAt 0) ≠
      Scan.sightingsOf gpsMinimum (Scan.sightings (stumbling.recordsAt 0)) := by
    decide +kernel
  have hback : ¬(Listener.paced ⟨none, some gpsMinimum⟩ (stumbling.recordsAt 0)).Pairwise
      (fun earlier later => earlier.2 ≤ later.2) := by
    decide +kernel
  have hbeyond : ((Scan.ofRecording true stumbling).toOption.bind (·.clock.timeline)).any (fun timeline =>
      (Listener.paced ⟨none, some gpsMinimum⟩ (stumbling.recordsAt 0)).any (timeline.last < ·.2)) := by
    decide +kernel
  cases hscan : Scan.ofRecording true stumbling with
  | error failure => simp [hscan, Except.toOption] at hfound
  | ok outcome =>
    simp only [hscan, Except.toOption, Option.map_some, Option.some.injEq, Prod.mk.injEq] at hfound
    obtain ⟨hprimary, hstart⟩ := hfound
    simp only [hscan, Except.toOption, Option.bind_some, Option.any_eq_true_iff_get] at hbeyond
    obtain ⟨hsome, hlate⟩ := hbeyond
    simp only [List.any_eq_true, decide_eq_true_eq] at hlate
    obtain ⟨entry, hentry, hlt⟩ := hlate
    refine ⟨outcome, _, rfl, hprimary, (Option.some_get hsome).symm, ?_⟩
    rw [hstart]
    exact ⟨hdiffers, hback, fun hall => hall entry hentry hlt⟩

end VoyageLog
