import VoyageLog.Proofs.Calendar.Date
import VoyageLog.Proofs.Recording.Sightings

namespace VoyageLog

-- The instant that a record tells, if it is a row at all.
def Columns.instant? (columns : Columns) (record : Record) : Option Instant :=
  (columns.row? record.text).bind (·.timestamp)

def Columns.instants (columns : Columns) (records : List Record) : List Instant :=
  records.filterMap columns.instant?

namespace Scan

-- The first and the last of some instants that do not go back in time.
structure Spans (ends : Option (Instant × Instant)) (instants : List Instant) : Prop where
  first : ends.map (·.1) = instants.head?
  last : ends.map (·.2) = instants.getLast?
  sorted : instants.Pairwise (· ≤ ·)

section Bounds

variable {first last : Instant} {instants : List Instant}

theorem le_last_of_sorted (hsorted : instants.Pairwise (· ≤ ·)) (hlast : instants.getLast? = some last)
    {instant : Instant} (hmem : instant ∈ instants) : instant ≤ last := by
  obtain ⟨before, rfl⟩ := List.getLast?_eq_some_iff.mp hlast
  rcases List.mem_append.mp hmem with hmem | hmem
  · exact (List.pairwise_append.mp hsorted).2.2 instant hmem last (by simp)
  · rw [List.mem_singleton.mp hmem]
    exact Instant.le_refl last

theorem first_le_of_sorted (hsorted : instants.Pairwise (· ≤ ·)) (hfirst : instants.head? = some first)
    {instant : Instant} (hmem : instant ∈ instants) : first ≤ instant := by
  obtain ⟨rest, rfl⟩ := List.head?_eq_some_iff.mp hfirst
  rcases List.mem_cons.mp hmem with rfl | hmem
  · exact Instant.le_refl _
  · exact (List.pairwise_cons.mp hsorted).1 instant hmem

-- One more instant that is not before the last one.
theorem Spans.concat {ends : Option (Instant × Instant)} (h : Spans ends instants) (instant : Instant)
    (hnext : ∀ previous ∈ ends.map (·.2), previous ≤ instant) :
    Spans (some ((ends.map (·.1)).getD instant, instant)) (instants ++ [instant]) := by
  refine ⟨?_, by simp, ?_⟩
  · rw [h.first, List.head?_append]
    cases instants.head? <;> rfl
  · rw [List.pairwise_append]
    refine ⟨h.sorted, by simp, ?_⟩
    intro earlier hearlier later hlater
    rw [List.mem_singleton.mp hlater]
    cases hlast : instants.getLast? with
    | none =>
      rw [List.getLast?_eq_none_iff.mp hlast] at hearlier
      cases hearlier
    | some last =>
      have hle := hnext last (by rw [h.last, hlast]; rfl)
      exact Instant.le_trans (le_last_of_sorted h.sorted hlast hearlier) hle

end Bounds

theorem Rows.spans_read {columns : Columns} {rows next : Rows} {record : Record} {before : List Instant}
    (h : Spans rows.ends before) (hread : Rows.read columns rows record = .ok next) :
    Spans next.ends (before ++ columns.instants [record]) := by
  have hinstants : columns.instants [record] = (columns.instant? record).toList := by
    cases hinstant : columns.instant? record <;> simp [Columns.instants, hinstant]
  rw [hinstants]
  unfold Rows.read at hread
  split at hread
  · rename_i hrow
    obtain rfl := Except.ok.inj hread
    simpa [Columns.instant?, hrow] using h
  · rename_i row hrow
    have hinstant : columns.instant? record = row.timestamp := by simp [Columns.instant?, hrow]
    rw [hinstant]
    dsimp only at hread
    split at hread
    · rename_i htimestamp
      obtain rfl := Except.ok.inj hread
      simpa [htimestamp] using h
    · rename_i instant htimestamp hends
      obtain rfl := Except.ok.inj hread
      have hconcat := h.concat instant (by simp [hends])
      simpa [htimestamp, hends] using hconcat
    · rename_i instant first previous htimestamp hends
      split at hread
      · cases hread
      · rename_i hordered
        obtain rfl := Except.ok.inj hread
        have hle : previous ≤ instant := hordered
        have hconcat := h.concat instant (by simpa [hends] using hle)
        simpa [htimestamp, hends] using hconcat

theorem Rows.spans_foldlM {columns : Columns} {rows after : Rows} {records : List Record}
    {before : List Instant} (h : Spans rows.ends before)
    (hread : records.foldlM (Rows.read columns) rows = .ok after) :
    Spans after.ends (before ++ columns.instants records) := by
  induction records generalizing rows before with
  | nil =>
    obtain rfl := Except.ok.inj hread
    simpa [Columns.instants] using h
  | cons record rest ih =>
    rw [List.foldlM_cons] at hread
    cases hone : Rows.read columns rows record with
    | error failure => rw [hone] at hread; cases hread
    | ok next =>
      rw [hone] at hread
      have hspans := ih (spans_read h hone) hread
      rw [List.append_assoc, Columns.instants, Columns.instants, ← List.filterMap_append] at hspans
      exact hspans

-- How many records are rows, how many are not, and how many rows tell an instant.
def tallyOf (columns : Columns) (records : List Record) : Tally where
  valid := (records.filter fun record => (columns.row? record.text).isSome).length
  invalid := (records.filter fun record => (columns.row? record.text).isNone).length
  timestamped := (columns.instants records).length

def Tally.plus (tally other : Tally) : Tally :=
  ⟨tally.valid + other.valid, tally.invalid + other.invalid, tally.timestamped + other.timestamped⟩

-- Whatever is not before the instants so far is taken, and counted.
theorem Rows.read_of_sorted {columns : Columns} {rows : Rows} {record : Record} {before : List Instant}
    (h : Spans rows.ends before) (hsorted : (before ++ columns.instants [record]).Pairwise (· ≤ ·)) :
    ∃ ends, Rows.read columns rows record = .ok ⟨rows.tally.plus (tallyOf columns [record]), ends⟩ := by
  unfold Rows.read
  cases hrow : columns.row? record.text with
  | none => exact ⟨rows.ends, by simp [Tally.plus, tallyOf, Columns.instants, Columns.instant?, hrow]⟩
  | some row =>
    cases htimestamp : row.timestamp with
    | none =>
      exact ⟨rows.ends, by simp [Tally.plus, tallyOf, Columns.instants, Columns.instant?, hrow, htimestamp]⟩
    | some instant =>
      have hinstants : columns.instants [record] = [instant] := by
        simp [Columns.instants, Columns.instant?, hrow, htimestamp]
      have htally : tallyOf columns [record] = ⟨1, 0, 1⟩ := by simp [tallyOf, hinstants, hrow]
      rw [hinstants] at hsorted
      rw [htally]
      cases hends : rows.ends with
      | none => exact ⟨some (instant, instant), by simp [htimestamp, Tally.plus]⟩
      | some ends =>
        obtain ⟨first, previous⟩ := ends
        have hlast : before.getLast? = some previous := by rw [← h.last, hends]; rfl
        have hmem : previous ∈ before := List.mem_of_mem_getLast? hlast
        have hle : ¬instant < previous := (List.pairwise_append.mp hsorted).2.2 previous hmem instant (by simp)
        exact ⟨some (first, instant), by simp [htimestamp, Tally.plus, hle]⟩

theorem tallyOf_cons (columns : Columns) (record : Record) (rest : List Record) :
    tallyOf columns (record :: rest) = (tallyOf columns [record]).plus (tallyOf columns rest) := by
  cases hrow : columns.row? record.text with
  | none => simp [tallyOf, Tally.plus, Columns.instants, Columns.instant?, hrow, Nat.add_comm]
  | some row =>
    cases htimestamp : row.timestamp <;>
      simp [tallyOf, Tally.plus, Columns.instants, Columns.instant?, hrow, htimestamp, Nat.add_comm]

theorem Tally.plus_assoc (first second third : Tally) :
    (first.plus second).plus third = first.plus (second.plus third) := by
  simp [Tally.plus, Nat.add_assoc]

theorem Rows.foldlM_of_sorted {columns : Columns} {rows : Rows} {before : List Instant} (records : List Record)
    (h : Spans rows.ends before) (hsorted : (before ++ columns.instants records).Pairwise (· ≤ ·)) :
    ∃ ends, records.foldlM (Rows.read columns) rows = .ok ⟨rows.tally.plus (tallyOf columns records), ends⟩ := by
  induction records generalizing rows before with
  | nil => exact ⟨rows.ends, rfl⟩
  | cons record rest ih =>
    have hsplit : columns.instants (record :: rest) = columns.instants [record] ++ columns.instants rest := by
      rw [Columns.instants, Columns.instants, Columns.instants, ← List.filterMap_append, List.singleton_append]
    rw [hsplit, ← List.append_assoc] at hsorted
    obtain ⟨ends, hread⟩ := read_of_sorted h (hsorted.sublist (List.sublist_append_left _ _))
    obtain ⟨last, hrest⟩ := ih (spans_read h hread) hsorted
    refine ⟨last, ?_⟩
    rw [List.foldlM_cons, hread, tallyOf_cons columns record rest, ← Tally.plus_assoc]
    exact hrest

-- A table that does not go back in time is scanned to its end, from its first instant to its last.
theorem table_of_sorted {columns : Columns} {records : List Record}
    (h : (columns.instants records).Pairwise (· ≤ ·)) :
    ∃ ends, table columns records = .ok ⟨tallyOf columns records, ends⟩ ∧ Spans ends (columns.instants records) := by
  have hnothing : Spans (Rows.mk Tally.zero none).ends [] := ⟨rfl, rfl, List.Pairwise.nil⟩
  obtain ⟨ends, hrows⟩ := Rows.foldlM_of_sorted records hnothing h
  have hzero : Tally.zero.plus (tallyOf columns records) = tallyOf columns records := by
    simp [Tally.plus, Tally.zero]
  rw [hzero] at hrows
  exact ⟨ends, hrows, Rows.spans_foldlM hnothing hrows⟩

-- Who tells the time in a recording that was scanned: the primary source of its sentences, or the rows of a table.
theorem timed_of_scan {lockPrimary : Bool} {recording : Recording} {outcome : Outcome} {timeline : Timeline}
    (hscan : ofRecording lockPrimary recording = .ok outcome)
    (htimeline : outcome.clock.timeline = some timeline) :
    (∃ source, outcome.clock.primary = some source ∧ outcome.clock.layout = some .sentences) ∨
      ∃ columns, outcome.clock.primary = none ∧ outcome.clock.layout = some (.table columns) := by
  cases succeeds hscan with
  | empty => cases htimeline
  | sentences first rest _ dataStart =>
    simp only [outcomeOfSentences, Option.map_eq_some_iff] at htimeline
    obtain ⟨⟨source, details⟩, hfound, -⟩ := htimeline
    exact .inl ⟨source, by simp [outcomeOfSentences, hfound], rfl⟩
  | table first rest _ columns => exact .inr ⟨columns, rfl, rfl⟩

-- What is known of the time in a table that was scanned.
theorem spans_of_table {lockPrimary : Bool} {recording : Recording} {outcome : Outcome} {columns : Columns}
    {timeline : Timeline} (hscan : ofRecording lockPrimary recording = .ok outcome)
    (hlayout : outcome.clock.layout = some (.table columns))
    (htimeline : outcome.clock.timeline = some timeline) :
    timeline.current = timeline.first ∧
      Spans (some (timeline.first, timeline.last))
        (columns.instants (recording.recordsAt outcome.clock.dataStart)) := by
  cases succeeds hscan with
  | empty | sentences => cases hlayout
  | table first rest _ found dataStart _ rows hrows =>
    obtain rfl : found = columns := by simpa [outcomeOfTable] using hlayout
    have hnothing : Spans (Rows.mk Tally.zero none).ends [] := ⟨rfl, rfl, List.Pairwise.nil⟩
    have hspans := Rows.spans_foldlM hnothing hrows
    simp only [outcomeOfTable, Option.map_eq_some_iff] at htimeline
    obtain ⟨ends, hends, rfl⟩ := htimeline
    rw [hends] at hspans
    exact ⟨rfl, hspans⟩

theorem Spans.le {first last : Instant} {instants : List Instant} (h : Spans (some (first, last)) instants) :
    first ≤ last := by
  have hlast : last ∈ instants := List.mem_of_getLast? h.last.symm
  exact first_le_of_sorted h.sorted h.first.symm hlast

-- The instants of a source that never went back in time go from its start to the latest one.
theorem spans_of_chronological {instants : List Instant} {details : TimeSource.Details}
    (hdetails : TimeSource.Details.ofInstants instants = some details) (h : details.isChronological) :
    Spans (some (details.start, details.latest)) instants := by
  have hsummary := TimeSource.Details.ofInstants_eq_some_iff.mp hdetails
  exact ⟨hsummary.start.symm, hsummary.latest.symm, hsummary.chronological.mp h⟩

-- A timeline does not end before it begins, whoever told it.
theorem first_le_last_of_scan {lockPrimary : Bool} {recording : Recording} {outcome : Outcome} {timeline : Timeline}
    (hscan : ofRecording lockPrimary recording = .ok outcome)
    (htimeline : outcome.clock.timeline = some timeline) : timeline.first ≤ timeline.last := by
  rcases timed_of_scan hscan htimeline with ⟨source, hprimary, -⟩ | ⟨columns, -, hlayout⟩
  · obtain ⟨details, hfounds⟩ := founds_of_primary hscan hprimary
    obtain rfl := Option.some.inj (hfounds.timeline.symm.trans htimeline)
    have hknown := hfounds.known
    rw [get?_sentences] at hknown
    exact (spans_of_chronological hknown hfounds.chronological).le
  · exact (spans_of_table hscan hlayout htimeline).2.le

end Scan

end VoyageLog
