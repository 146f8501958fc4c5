import VoyageLog.Proofs.Calendar.Rfc3339
import VoyageLog.Proofs.Recording.Columns
import VoyageLog.Proofs.Recording.Copy
import VoyageLog.Proofs.Recording.Rows

namespace VoyageLog

open Csv

-- The instant may be written with its offset from UTC or with the letter for none. What stands in the other
-- columns does not matter.
structure Entry where
  instant : Instant
  inZulu : Bool
  message : Text
  others : Nat → Text

namespace Entry

def written (entry : Entry) : Text :=
  if entry.inZulu then Calendar.Rfc3339.withZulu entry.instant else Calendar.Rfc3339.withOffset entry.instant

theorem read_written {entry : Entry} (h : entry.instant.Writable) :
    Calendar.Iso8601.read? entry.written = some entry.instant := by
  unfold written
  split
  · exact Calendar.read_withZulu h
  · exact Calendar.read_withOffset h

theorem feed_not_mem_written (entry : Entry) : '\n' ∉ entry.written := by
  have hunzoned : '\n' ∉ Calendar.Rfc3339.unzoned entry.instant := by
    intro hfeed
    rcases Calendar.mem_unzoned hfeed with h | h
    · cases h
    · exact absurd h (by decide)
  unfold written
  split <;> simp [Calendar.Rfc3339.withZulu, Calendar.Rfc3339.withOffset, hunzoned]

end Entry

structure Table where
  headings : List Text
  columns : Columns
  entries : List Entry
  head : columns.Head headings
  writable : ∀ entry ∈ entries, entry.instant.Writable
  feedless : ∀ entry ∈ entries, '\n' ∉ entry.message ∧ ∀ column < headings.length, '\n' ∉ entry.others column
  sorted : (entries.map (·.instant)).Pairwise (· ≤ ·)

namespace Table

def cells (table : Table) (entry : Entry) : List Text :=
  (List.range table.headings.length).map fun column =>
    if column = table.columns.timestamp then entry.written
    else if column = table.columns.message then entry.message
    else entry.others column

def row (table : Table) (entry : Entry) : Text := joined ((table.cells entry).map quoted)

-- The headings may be written bare or in quotes.
def header (inQuotes : Bool) (table : Table) : Text :=
  joined (table.headings.map (if inQuotes then quoted else id))

def lines (inQuotes : Bool) (table : Table) : List Text := table.header inQuotes :: table.entries.map table.row

section Rows

variable {table : Table} {entry : Entry}

theorem cells_ne_nil (table : Table) (entry : Entry) : table.cells entry ≠ [] := by
  have htimestamp := table.head.timestamp_lt
  apply List.ne_nil_of_length_pos
  rw [cells, List.length_map, List.length_range]
  omega

theorem cells_timestamp (table : Table) (entry : Entry) :
    (table.cells entry)[table.columns.timestamp]? = some entry.written := by
  simp [cells, List.getElem?_range table.head.timestamp_lt]

theorem cells_message (table : Table) (entry : Entry) :
    (table.cells entry)[table.columns.message]? = some entry.message := by
  simp [cells, List.getElem?_range table.head.message_lt, table.head.apart.symm]

-- Every row begins and ends with a quote.
theorem head_row (table : Table) (entry : Entry) : (table.row entry).head? = some '"' := by
  obtain ⟨first, rest, hcells⟩ := List.exists_cons_of_ne_nil (table.cells_ne_nil entry)
  rw [row, hcells]
  cases rest <;> rfl

theorem getLast_row (table : Table) (entry : Entry) : (table.row entry).getLast? = some '"' :=
  getLast_joined quoted (table.cells_ne_nil entry) fun cell _ => getLast_quoted cell

-- A row is read as the instant and the message that it was made of.
theorem row?_row (hentry : entry ∈ table.entries) :
    table.columns.row? (table.row entry) = some ⟨some entry.instant, entry.message⟩ := by
  have hcells := cells?_joined quoted (table.cells_ne_nil entry) (fun cell _ => spells_quoted cell)
    (table.head_row entry) (by decide) (by decide)
  have hinstant := Entry.read_written (table.writable entry hentry)
  simp [Columns.row?, row, hcells, cells_timestamp, cells_message, hinstant]

theorem feed_not_mem_cells (hentry : entry ∈ table.entries) {cell : Text} (hcell : cell ∈ table.cells entry) :
    '\n' ∉ cell := by
  obtain ⟨column, hcolumn, rfl⟩ := List.mem_map.mp hcell
  obtain ⟨hmessage, hothers⟩ := table.feedless entry hentry
  split
  · exact entry.feed_not_mem_written
  · split
    · exact hmessage
    · exact hothers column (List.mem_range.mp hcolumn)

theorem plain_row (hentry : entry ∈ table.entries) : Recording.Plain (table.row entry) := by
  refine ⟨?_, ?_, ?_, ?_⟩
  · have hquote : Text.isBlank '"' = false := by decide
    apply Text.dropBothWhile_of_ends
    · simp [head_row, hquote]
    · simp [getLast_row, hquote]
  · intro hnil
    simpa [hnil] using table.head_row entry
  · simp [head_row]
  · intro hfeed
    rcases mem_joined hfeed with h | ⟨written, hwritten, hfeed⟩
    · cases h
    · obtain ⟨cell, hcell, rfl⟩ := List.mem_map.mp hwritten
      rcases mem_quoted hfeed with h | h
      · cases h
      · exact feed_not_mem_cells hentry hcell h

end Rows

section Scanning

variable {table : Table} {recording : Recording}

theorem writes_header (inQuotes : Bool) (table : Table) :
    Columns.Writes (if inQuotes then quoted else id) table.headings := by
  cases inQuotes
  · exact table.head.writes_bare
  · exact Columns.Head.writes_quoted

theorem plain_header (inQuotes : Bool) (table : Table) : Recording.Plain (table.header inQuotes) := by
  have hwrites := table.writes_header inQuotes
  refine ⟨table.head.trim_written hwrites, table.head.written_ne_nil _, ?_, ?_⟩
  · intro hcomment
    have hmarks := (table.head.character_written hwrites (List.mem_of_mem_head? hcomment)).2
    exact hmarks (by simp)
  · intro hfeed
    have hblank := (table.head.character_written hwrites hfeed).1
    cases hblank

theorem plain_lines (inQuotes : Bool) (table : Table) : ∀ line ∈ table.lines inQuotes, Recording.Plain line := by
  intro line hline
  rcases List.mem_cons.mp hline with rfl | hline
  · exact table.plain_header inQuotes
  · obtain ⟨entry, hentry, rfl⟩ := List.mem_map.mp hline
    exact plain_row hentry

-- What a reader of records makes of those that hold the rows of a table.
theorem filterMap_rows {β : Type} {records : List Record} (read : Text → Option β) (told : Entry → β)
    (hrecords : records.map (·.text) = table.entries.map table.row)
    (hread : ∀ entry ∈ table.entries, read (table.row entry) = some (told entry)) :
    records.filterMap (fun record => read record.text) = table.entries.map told := by
  calc records.filterMap (fun record => read record.text)
      = (records.map (·.text)).filterMap read := (List.filterMap_map ..).symm
    _ = table.entries.filterMap fun entry => read (table.row entry) := by
        rw [hrecords, List.filterMap_map]
        rfl
    _ = table.entries.filterMap fun entry => some (told entry) :=
        List.filterMap_congr fun entry hentry => hread entry hentry
    _ = table.entries.map told := congrFun List.filterMap_eq_map' table.entries

theorem instants_rows {records : List Record} (hrecords : records.map (·.text) = table.entries.map table.row) :
    table.columns.instants records = table.entries.map (·.instant) :=
  filterMap_rows (fun text => (table.columns.row? text).bind (·.timestamp)) (·.instant) hrecords
    fun entry hentry => by rw [row?_row hentry]; rfl

theorem tallyOf_rows {records : List Record} (hrecords : records.map (·.text) = table.entries.map table.row) :
    Scan.tallyOf table.columns records = ⟨table.entries.length, 0, table.entries.length⟩ := by
  have hlength : records.length = table.entries.length := by simpa using congrArg List.length hrecords
  have hinstants : table.columns.instants records = table.entries.map (·.instant) := instants_rows hrecords
  have hrow : ∀ record ∈ records, (table.columns.row? record.text).isSome = true := by
    intro record hrecord
    have hmem : record.text ∈ table.entries.map table.row := hrecords ▸ List.mem_map_of_mem hrecord
    obtain ⟨entry, hentry, htext⟩ := List.mem_map.mp hmem
    rw [← htext, row?_row hentry]
    rfl
  have hvalid : records.filter (fun record => (table.columns.row? record.text).isSome) = records :=
    List.filter_eq_self.mpr hrow
  have hinvalid : records.filter (fun record => (table.columns.row? record.text).isNone) = [] := by
    rw [List.filter_eq_nil_iff]
    intro record hrecord
    simp [Option.isNone_iff_eq_none, Option.ne_none_iff_isSome, hrow record hrecord]
  rw [Scan.tallyOf, hvalid, hinvalid, hinstants, hlength, List.length_map]
  rfl

-- The scan finds the columns, takes every line below the header for a row, and knows the time of each.
theorem scan_of_lines {inQuotes : Bool} (lockPrimary : Bool) (htexts : recording.texts = table.lines inQuotes) :
    ∃ dataStart ends, Scan.ofRecording lockPrimary recording =
        .ok (Scan.outcomeOfTable table.columns dataStart
          ⟨⟨table.entries.length, 0, table.entries.length⟩, ends⟩) ∧
      Scan.Spans ends (table.entries.map (·.instant)) ∧
      (recording.recordsAt dataStart).map (·.text) = table.entries.map table.row := by
  obtain ⟨first, rest, hrecords, hheader, hrows⟩ : ∃ first rest, recording.records = first :: rest ∧
      first.text = table.header inQuotes ∧ rest.map (·.text) = table.entries.map table.row := by
    simpa [Recording.texts, lines, List.map_eq_cons_iff] using htexts
  have hdata : recording.recordsAt (first.line + 1) = rest := by
    have hall : recording.recordsAt 0 = [] ++ first :: rest := by rw [Recording.recordsAt_zero, hrecords]; rfl
    exact (Recording.stretch_of_recordsAt hall).2
  have hfirst : Layout.ofFirst first = (.table table.columns, first.line + 1) := by
    rw [Layout.ofFirst, hheader, header, table.head.ofHeader? (table.writes_header inQuotes)]
  have hinstants := instants_rows hrows
  obtain ⟨ends, hscan, hspans⟩ := Scan.table_of_sorted (hinstants ▸ table.sorted)
  rw [hinstants] at hspans
  rw [tallyOf_rows hrows] at hscan
  refine ⟨first.line + 1, ends, ?_, hspans, hdata ▸ hrows⟩
  simp only [Scan.ofRecording, hrecords, hfirst]
  rw [hdata, hscan]
  rfl

end Scanning

end Table

end VoyageLog
