import VoyageLog.Proofs.Recording.Rows

namespace VoyageLog

-- The first two neighbours among some instants of which the second is the earlier one.
def FirstDrop (instants : List Instant) (previous current : Instant) : Prop :=
  ∃ before after, instants = before ++ previous :: current :: after ∧
    (before ++ [previous]).Pairwise (· ≤ ·) ∧ current < previous

theorem sorted_or_firstDrop (instants : List Instant) :
    instants.Pairwise (· ≤ ·) ∨ ∃ previous current, FirstDrop instants previous current := by
  induction instants using List.reverseRecOn with
  | nil => exact .inl .nil
  | append_singleton before current ih =>
    rcases ih with hsorted | ⟨previous, earlier, front, after, rfl, hfront, hdrop⟩
    · cases hlast : before.getLast? with
      | none =>
        rw [List.getLast?_eq_none_iff.mp hlast]
        exact .inl (List.pairwise_singleton _ _)
      | some previous =>
        obtain ⟨front, rfl⟩ := List.getLast?_eq_some_iff.mp hlast
        by_cases hdrop : current < previous
        · exact .inr ⟨previous, current, front, [], by simp, hsorted, hdrop⟩
        · refine .inl (List.pairwise_append.mpr ⟨hsorted, by simp, ?_⟩)
          intro earlier hearlier later hlater
          rw [List.mem_singleton.mp hlater]
          exact Instant.le_trans (Scan.le_last_of_sorted hsorted hlast hearlier) hdrop
    · exact .inr ⟨previous, earlier, front, after ++ [current], by simp, hfront, hdrop⟩

-- Rows that tell nothing, and records that are no rows, add nothing to the instants.
theorem Columns.instants_filter (columns : Columns) (records : List Record) :
    columns.instants (records.filter fun record => (columns.instant? record).isSome) = columns.instants records := by
  rw [Columns.instants, Columns.instants, List.filterMap_filter]
  refine congrArg (List.filterMap · records) (funext fun record => ?_)
  cases h : columns.instant? record <;> simp

-- The record that tells an instant, between those that tell what comes before and after it.
theorem Columns.record_of_instants {columns : Columns} {records : List Record} {before after : List Instant}
    {instant : Instant} (h : columns.instants records = before ++ instant :: after) :
    ∃ front record rest, records = front ++ record :: rest ∧ columns.instants front = before ∧
      columns.instant? record = some instant := by
  obtain ⟨front, back, rfl, hfront, hback⟩ := List.filterMap_eq_append_iff.mp h
  obtain ⟨silent, record, rest, rfl, hsilent, hrecord, -⟩ := List.filterMap_eq_cons_iff.mp hback
  refine ⟨front ++ silent, record, rest, by simp, ?_, hrecord⟩
  rw [Columns.instants, List.filterMap_append, hfront, List.filterMap_eq_nil_iff.mpr hsilent, List.append_nil]

namespace Scan

variable {columns : Columns}

theorem Rows.read_of_drop {record : Record} {previous current : Instant} (tally : Tally) (first : Instant)
    (hrecord : columns.instant? record = some current) (hdrop : current < previous) :
    Rows.read columns ⟨tally, some (first, previous)⟩ record = .error (.notChronological previous current) := by
  simp only [Columns.instant?, Option.bind_eq_some_iff] at hrecord
  obtain ⟨row, hrow, htimestamp⟩ := hrecord
  simp [Rows.read, hrow, htimestamp, hdrop]

theorem table_of_firstDrop {records : List Record} {previous current : Instant}
    (h : FirstDrop (columns.instants records) previous current) :
    table columns records = .error (.notChronological previous current) := by
  obtain ⟨before, after, hinstants, hsorted, hdrop⟩ := h
  rw [List.append_cons] at hinstants
  obtain ⟨front, record, rest, rfl, hfront, hrecord⟩ := Columns.record_of_instants hinstants
  -- All rows before the drop are read.
  have hnothing : Spans (Rows.mk Tally.zero none).ends [] := ⟨rfl, rfl, List.Pairwise.nil⟩
  obtain ⟨ends, hread⟩ := Rows.foldlM_of_sorted front hnothing (by rw [hfront]; exact hsorted)
  have hspans := Rows.spans_foldlM hnothing hread
  have hlast : ends.map (·.2) = some previous := by
    rw [hspans.last, hfront]
    simp
  obtain ⟨⟨first, last⟩, rfl, rfl⟩ := Option.map_eq_some_iff.mp hlast
  rw [table, List.foldlM_append, hread]
  change (record :: rest).foldlM (Rows.read columns) _ = _
  rw [List.foldlM_cons, Rows.read_of_drop _ first hrecord hdrop]
  rfl

theorem table_eq_error_iff {records : List Record} {failure : Failure} :
    table columns records = .error failure ↔
      ∃ previous current, FirstDrop (columns.instants records) previous current ∧
        failure = .notChronological previous current := by
  constructor
  · intro h
    rcases sorted_or_firstDrop (columns.instants records) with hsorted | ⟨previous, current, hdrop⟩
    · obtain ⟨ends, hok, -⟩ := table_of_sorted hsorted
      rw [hok] at h
      cases h
    · rw [table_of_firstDrop hdrop] at h
      exact ⟨previous, current, hdrop, (Except.error.inj h).symm⟩
  · rintro ⟨previous, current, hdrop, rfl⟩
    exact table_of_firstDrop hdrop

theorem ofRecording_of_table {recording : Recording} {first : Record} {rest : List Record} {dataStart : Nat}
    (lockPrimary : Bool) (hrecords : recording.records = first :: rest)
    (hlayout : Layout.ofFirst first = (.table columns, dataStart)) :
    ofRecording lockPrimary recording =
      (table columns (recording.recordsAt dataStart)).map (outcomeOfTable columns dataStart) := by
  simp only [ofRecording, hrecords, hlayout]

-- What a scan makes of the rows of a table that does not go back in time.
structure Tabulates (columns : Columns) (dataStart : Nat) (records : List Record) (outcome : Outcome) : Prop where
  layout : outcome.clock.layout = some (.table columns)
  dataStart : outcome.clock.dataStart = dataStart
  first : outcome.clock.timeline.map (·.first) = (columns.instants records).head?
  current : outcome.clock.timeline.map (·.current) = (columns.instants records).head?
  last : outcome.clock.timeline.map (·.last) = (columns.instants records).getLast?
  latest : ∀ timeline, outcome.clock.timeline = some timeline →
    ∀ instant ∈ columns.instants records, instant ≤ timeline.last
  report : outcome.report = ⟨true, !(columns.instants records).isEmpty,
    records.countP fun record => (columns.row? record.text).isSome,
    records.countP fun record => (columns.row? record.text).isNone, (columns.instants records).length⟩
  sourceless : outcome.clock.primary = none ∧ outcome.clock.inventory = []
  unlocked : outcome.listener.lock = none

theorem tabulates {records : List Record} {ends : Option (Instant × Instant)} (dataStart : Nat)
    (hspans : Spans ends (columns.instants records)) :
    Tabulates columns dataStart records (outcomeOfTable columns dataStart ⟨tallyOf columns records, ends⟩) where
  layout := rfl
  dataStart := rfl
  first := by simp [outcomeOfTable, ← hspans.first, Function.comp_def]
  current := by simp [outcomeOfTable, ← hspans.first, Function.comp_def]
  last := by simp [outcomeOfTable, ← hspans.last, Function.comp_def]
  latest := by
    intro timeline htimeline instant hmem
    obtain ⟨⟨first, last⟩, rfl, rfl⟩ := Option.map_eq_some_iff.mp htimeline
    exact le_last_of_sorted hspans.sorted hspans.last.symm hmem
  report := by
    have htimed : ends.isSome = !(columns.instants records).isEmpty := by
      rw [← Option.isSome_map (f := fun ends : Instant × Instant => ends.1), hspans.first]
      cases columns.instants records <;> rfl
    simp [outcomeOfTable, Tally.report, tallyOf, Clock.isTable, Clock.isTimed, Layout.isTable, htimed,
      List.countP_eq_length_filter]
  sourceless := ⟨rfl, rfl⟩
  unlocked := rfl

end Scan

end VoyageLog
