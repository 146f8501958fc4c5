import VoyageLog.Proofs.Recording.Stretch
import VoyageLog.Recording.Layout

namespace VoyageLog

theorem Layout.start_le (first : Record) : (Layout.ofFirst first).2 ≤ first.line + 1 := by
  unfold Layout.ofFirst
  split
  · exact Nat.le_refl _
  · exact Nat.le_succ _

namespace Recording

-- A line that is neither blank nor a comment.
def IsRecord (line : Text) : Prop := Text.trim line ≠ [] ∧ (Text.trim line).head? ≠ some '#'

-- A record that stands on the line it names, and holds it without the blanks around it.
def StandsIn (lines : List Text) (record : Record) : Prop :=
  ∃ line, lines[record.line]? = some line ∧ IsRecord line ∧ record.text = Text.trim line

-- All the records from a line on, each once and in the order of their lines.
structure ListsFrom (lines : List Text) (first : Nat) (records : List Record) : Prop where
  all : ∀ record, record ∈ records ↔ first ≤ record.line ∧ StandsIn lines record
  ascending : records.Pairwise fun earlier later => earlier.line < later.line

theorem recordOfLine?_eq_some_iff {line : Text} {index : Nat} {record : Record} :
    recordOfLine? line index = some record ↔ IsRecord line ∧ record = ⟨index, Text.trim line⟩ := by
  simp only [recordOfLine?, IsRecord, Bool.or_eq_true, List.isEmpty_iff, decide_eq_true_eq]
  by_cases hpassed : Text.trim line = [] ∨ (Text.trim line).head? = some '#'
  · rw [if_pos hpassed]
    constructor
    · intro h
      cases h
    · intro h
      exact absurd hpassed (not_or.mpr h.1)
  · rw [if_neg hpassed, Option.some.injEq, eq_comm]
    exact (and_iff_right (not_or.mp hpassed)).symm

theorem mem_recordsFrom_iff {index : Nat} {lines : List Text} {record : Record} :
    record ∈ recordsFrom index lines ↔ ∃ place line, record.line = index + place ∧ lines[place]? = some line ∧
      IsRecord line ∧ record.text = Text.trim line := by
  induction lines generalizing index with
  | nil => simp [recordsFrom]
  | cons line rest ih =>
    have hrest : record ∈ recordsFrom (index + 1) rest ↔ ∃ place other, record.line = index + (place + 1) ∧
        (line :: rest)[place + 1]? = some other ∧ IsRecord other ∧ record.text = Text.trim other := by
      simp only [ih, List.getElem?_cons_succ, Nat.add_assoc, Nat.add_comm 1]
    have hfirst : recordOfLine? line index = some record ↔ ∃ other, record.line = index + 0 ∧
        (line :: rest)[0]? = some other ∧ IsRecord other ∧ record.text = Text.trim other := by
      simp only [recordOfLine?_eq_some_iff, List.getElem?_cons_zero, Option.some.injEq, Nat.add_zero]
      cases record
      simp [and_left_comm]
    have hsplit : record ∈ recordsFrom index (line :: rest) ↔
        recordOfLine? line index = some record ∨ record ∈ recordsFrom (index + 1) rest := by
      simp only [recordsFrom]
      cases recordOfLine? line index with
      | none => simp
      | some found => simp [eq_comm]
    rw [hsplit, hfirst, hrest]
    constructor
    · rintro (hhere | ⟨place, hlater⟩)
      · exact ⟨0, hhere⟩
      · exact ⟨place + 1, hlater⟩
    · rintro ⟨_ | place, hstands⟩
      · exact .inl hstands
      · exact .inr ⟨place, hstands⟩

-- To pass over lines is to number the others from there on.
theorem filter_recordsFrom (index skipped : Nat) (lines : List Text) :
    (recordsFrom index lines).filter (index + skipped ≤ ·.line) =
      recordsFrom (index + skipped) (lines.drop skipped) := by
  induction skipped generalizing index lines with
  | zero =>
    rw [List.drop_zero, Nat.add_zero, List.filter_eq_self]
    exact fun record hrecord => decide_eq_true (le_line_of_mem_recordsFrom hrecord).1
  | succ count ih =>
    cases lines with
    | nil => rfl
    | cons line rest =>
      have hrest := ih (index + 1) rest
      rw [Nat.add_right_comm, Nat.add_assoc] at hrest
      simp only [recordsFrom, List.drop_succ_cons]
      split
      · exact hrest
      · rename_i found hfound
        have hline := line_eq_of_recordOfLine hfound
        rw [List.filter_cons_of_neg (by simp [hline]), hrest]

section Lines

variable (name : String) (lines : List Text)

theorem mem_records_iff (record : Record) : record ∈ (ofLines name lines).records ↔ StandsIn lines record := by
  simp [ofLines, mem_recordsFrom_iff, StandsIn]

theorem recordsAt_ofLines (first : Nat) :
    (ofLines name lines).recordsAt first = recordsFrom first (lines.drop first) := by
  rw [recordsAt_eq_filter, ofLines]
  simpa using filter_recordsFrom 0 first lines

theorem listsFrom_recordsAt (first : Nat) : ListsFrom lines first ((ofLines name lines).recordsAt first) := by
  refine ⟨fun record => ?_, pairwise_recordsAt _ first⟩
  rw [recordsAt_eq_filter, List.mem_filter, mem_records_iff, decide_eq_true_eq, and_comm]

theorem records_eq_nil_iff : (ofLines name lines).records = [] ↔ ∀ line ∈ lines, ¬IsRecord line := by
  rw [List.eq_nil_iff_forall_not_mem]
  constructor
  · intro hnone line hline hrecord
    obtain ⟨place, hplace⟩ := List.getElem?_of_mem hline
    exact hnone ⟨place, Text.trim line⟩ ((mem_records_iff name lines _).mpr ⟨line, hplace, hrecord, rfl⟩)
  · intro hnone record hmem
    obtain ⟨line, hline, hrecord, -⟩ := (mem_records_iff name lines record).mp hmem
    exact hnone line (List.mem_of_getElem? hline) hrecord

end Lines

theorem start_le_lineCount {recording : Recording} {first : Record} {rest : List Record}
    (h : recording.records = first :: rest) : (Layout.ofFirst first).2 ≤ recording.lineCount := by
  have hbound := recording.bounded first (by simp [h])
  exact Nat.le_trans (Layout.start_le first) hbound

end Recording

-- What may be asked of a cursor.
inductive Log.Request
  | read
  | moveTo (line : Nat)
  | rewind

-- What a cursor answers to one request after the other, with its place after each, and the cursor in the end.
def Log.Request.served {Cursor : Type} (serve : Request → Cursor → Option Record × Cursor) (place : Cursor → Nat) :
    List Request → Cursor → List (Option Record × Nat) × Cursor
  | [], cursor => ([], cursor)
  | request :: rest, cursor =>
    let (answer, after) := serve request cursor
    let (answers, last) := served serve place rest after
    ((answer, place after) :: answers, last)

theorem Log.Request.served_cons {Cursor : Type} (serve : Request → Cursor → Option Record × Cursor)
    (place : Cursor → Nat) (request : Request) (rest : List Request) (cursor : Cursor) :
    served serve place (request :: rest) cursor =
      (((serve request cursor).1, place (serve request cursor).2) ::
        (served serve place rest (serve request cursor).2).1,
        (served serve place rest (serve request cursor).2).2) := rfl

namespace Log

def serve : Request → Log → Option Record × Log
  | .read, log => log.read
  | .moveTo line, log => (none, log.moveTo line)
  | .rewind, log => (none, log.moveTo 0)

def served (requests : List Request) (log : Log) : List (Option Record × Nat) × Log :=
  Request.served serve next requests log

theorem next_of_cons {log : Log} {record : Record} {rest : List Record} (h : log.unread = record :: rest) :
    (log.moveTo (record.line + 1)).next = record.line + 1 := by
  have hmem : record ∈ log.unread := by simp [h]
  exact Nat.min_eq_left (Recording.le_line_of_mem_recordsAt hmem).2

theorem unread_of_end (log : Log) : (log.moveTo log.lineCount).unread = [] := by
  rw [unread_moveTo]
  exact log.recording.recordsAt_lineCount

theorem detectLayout_of_nil {log : Log} (h : log.recording.records = []) :
    log.detectLayout = (none, log.moveTo log.lineCount) := by
  have hunread : (log.moveTo 0).unread = [] := by rw [unread_moveTo, Recording.recordsAt_zero, h]
  rw [detectLayout, read_of_nil hunread]
  rfl

theorem detectLayout_of_cons {log : Log} {first : Record} {rest : List Record}
    (h : log.recording.records = first :: rest) :
    log.detectLayout = (some (Layout.ofFirst first), log.moveTo (Layout.ofFirst first).2) := by
  have hunread : (log.moveTo 0).unread = first :: rest := by rw [unread_moveTo, Recording.recordsAt_zero, h]
  rw [detectLayout, (read_of_cons hunread).1]

theorem detectLayout_eq_none_iff (log : Log) : log.detectLayout.1 = none ↔ log.recording.records = [] := by
  cases hrecords : log.recording.records with
  | nil => simp [detectLayout_of_nil hrecords]
  | cons first rest => simp [detectLayout_of_cons hrecords]

theorem read_eq_head? (log : Log) : log.read.1 = log.unread.head? := by
  cases hunread : log.unread with
  | nil => rw [read_of_nil hunread, List.head?_nil]
  | cons record rest => rw [(read_of_cons hunread).1, List.head?_cons]

-- The cursor is left where the data starts.
theorem next_of_detectLayout {log : Log} {layout : Layout} {dataStart : Nat}
    (h : log.detectLayout.1 = some (layout, dataStart)) :
    log.detectLayout.2.next = dataStart ∧
      log.detectLayout.2.read.1 = (log.recording.recordsAt dataStart).head? := by
  cases hrecords : log.recording.records with
  | nil => simp [detectLayout_of_nil hrecords] at h
  | cons first rest =>
    rw [detectLayout_of_cons hrecords] at h ⊢
    have hstart : (Layout.ofFirst first).2 = dataStart := congrArg Prod.snd (Option.some.inj h)
    have hlines := Recording.start_le_lineCount hrecords
    rw [hstart] at hlines ⊢
    exact ⟨Nat.min_eq_left hlines, by rw [read_eq_head?, unread_moveTo]⟩

-- Reading on gives what is unread, one record after the other and each with the line after it, and then nothing more.
theorem served_reads (log : Log) (count : Nat) :
    (log.served (List.replicate count .read)).1 =
      (log.unread.map (fun record : Record => (some record, record.line + 1)) ++
        List.replicate count (none, log.lineCount)).take count := by
  induction count generalizing log with
  | zero => rfl
  | succ count ih =>
    rw [List.replicate_succ, served, Request.served_cons, serve]
    cases hunread : log.unread with
    | nil =>
      have hrest := ih (log.moveTo log.lineCount)
      have hend : (log.moveTo log.lineCount).next = log.lineCount := Nat.min_self _
      rw [unread_of_end, List.map_nil, List.nil_append] at hrest
      rw [read_of_nil hunread, ← served, hrest, hend, List.map_nil, List.nil_append, List.replicate_succ,
        List.take_succ_cons]
      rfl
    | cons record rest =>
      obtain ⟨hread, hleft⟩ := read_of_cons hunread
      have hrest := ih (log.moveTo (record.line + 1))
      -- The last of the answers without a record is beyond the count.
      have hlast : ∀ answers : List (Option Record × Nat),
          (answers ++ List.replicate (count + 1) (none, log.lineCount)).take count =
            (answers ++ List.replicate count (none, log.lineCount)).take count := by
        intro answers
        rw [List.replicate_succ', ← List.append_assoc, List.take_append_of_le_length (by simp)]
      rw [hleft] at hrest
      rw [hread, ← served, hrest, next_of_cons hunread, List.map_cons, List.cons_append, List.take_succ_cons, hlast]
      rfl

end Log

-- Lines and the place of the one to look at next.
structure LineCursor where
  lines : List Text
  next : Nat

namespace LineCursor

def start (lines : List Text) : LineCursor := ⟨lines, 0⟩

-- Looks at one line after the other until one is a record.
def read (cursor : LineCursor) : Option Record × LineCursor :=
  if h : cursor.next < cursor.lines.length then
    match Recording.recordOfLine? cursor.lines[cursor.next] cursor.next with
    | none => read ⟨cursor.lines, cursor.next + 1⟩
    | some record => (some record, ⟨cursor.lines, cursor.next + 1⟩)
  else (none, cursor)
termination_by cursor.lines.length - cursor.next

def moveTo (cursor : LineCursor) (line : Nat) : LineCursor := ⟨cursor.lines, min line cursor.lines.length⟩

def rewind (cursor : LineCursor) : LineCursor := ⟨cursor.lines, 0⟩

-- Behind a header the data starts at once; a first record that is none is data, and the cursor goes back to it.
def detectLayout (cursor : LineCursor) : Option (Layout × Nat) × LineCursor :=
  match cursor.rewind.read with
  | (none, atEnd) => (none, atEnd)
  | (some first, after) =>
    match Columns.ofHeader? first.text with
    | some columns => (some (.table columns, first.line + 1), after)
    | none => (some (.sentences, first.line), after.moveTo first.line)

def serve : Log.Request → LineCursor → Option Record × LineCursor
  | .read, cursor => cursor.read
  | .moveTo line, cursor => (none, cursor.moveTo line)
  | .rewind, cursor => (none, cursor.rewind)

def served (requests : List Log.Request) (cursor : LineCursor) : List (Option Record × Nat) × LineCursor :=
  Log.Request.served serve next requests cursor

theorem read_eq (cursor : LineCursor) :
    cursor.read =
      match Recording.recordsFrom cursor.next (cursor.lines.drop cursor.next) with
      | [] => (none, ⟨cursor.lines, max cursor.next cursor.lines.length⟩)
      | record :: _ => (some record, ⟨cursor.lines, record.line + 1⟩) := by
  fun_induction read cursor with
  | case1 cursor hwithin hnone ih =>
    have hmax : max (cursor.next + 1) cursor.lines.length = max cursor.next cursor.lines.length := by omega
    rw [ih, List.drop_eq_getElem_cons hwithin]
    simp only [Recording.recordsFrom, hnone, hmax]
  | case2 cursor hwithin record hrecord =>
    rw [List.drop_eq_getElem_cons hwithin]
    simp only [Recording.recordsFrom, hrecord, Recording.line_eq_of_recordOfLine hrecord]
  | case3 cursor hbeyond =>
    have hmax : max cursor.next cursor.lines.length = cursor.next := by omega
    rw [List.drop_of_length_le (by omega)]
    simp only [Recording.recordsFrom, hmax]

-- A log of the lines stands where the cursor stands.
structure Follows (name : String) (lines : List Text) (cursor : LineCursor) (log : Log) : Prop where
  kept : cursor.lines = lines
  recording : log.recording = Recording.ofLines name lines
  next : cursor.next = log.next

section Following

variable {name : String} {lines : List Text} {cursor : LineCursor} {log : Log}

theorem follows_start (name : String) (lines : List Text) :
    Follows name lines (start lines) (Log.start (Recording.ofLines name lines)) := ⟨rfl, rfl, rfl⟩

theorem Follows.lineCount (h : Follows name lines cursor log) : log.lineCount = lines.length := by
  rw [Log.lineCount, h.recording]
  rfl

theorem Follows.next_le (h : Follows name lines cursor log) : cursor.next ≤ lines.length := by
  rw [h.next, ← h.lineCount]
  exact log.next_le

theorem Follows.unread (h : Follows name lines cursor log) :
    log.unread = Recording.recordsFrom cursor.next (cursor.lines.drop cursor.next) := by
  rw [Log.unread, h.recording, Recording.recordsAt_ofLines, h.kept, h.next]

theorem Follows.moveTo (h : Follows name lines cursor log) (line : Nat) :
    Follows name lines (cursor.moveTo line) (log.moveTo line) :=
  ⟨h.kept, h.recording, by simp [LineCursor.moveTo, Log.moveTo, h.lineCount, h.kept]⟩

theorem Follows.rewind (h : Follows name lines cursor log) : Follows name lines cursor.rewind (log.moveTo 0) :=
  ⟨h.kept, h.recording, by simp [LineCursor.rewind, Log.moveTo]⟩

theorem Follows.read (h : Follows name lines cursor log) :
    cursor.read.1 = log.read.1 ∧ Follows name lines cursor.read.2 log.read.2 := by
  have hcursor := cursor.read_eq
  rw [← h.unread] at hcursor
  cases hunread : log.unread with
  | nil =>
    rw [hunread] at hcursor
    rw [hcursor, Log.read_of_nil hunread]
    exact ⟨rfl, h.kept, h.recording, by simp [Log.moveTo, h.lineCount, h.kept, h.next_le]⟩
  | cons record rest =>
    rw [hunread] at hcursor
    rw [hcursor, (Log.read_of_cons hunread).1]
    exact ⟨rfl, h.kept, h.recording, (Log.next_of_cons hunread).symm⟩

theorem Follows.serve (h : Follows name lines cursor log) (request : Log.Request) :
    (LineCursor.serve request cursor).1 = (Log.serve request log).1 ∧
      Follows name lines (LineCursor.serve request cursor).2 (Log.serve request log).2 := by
  cases request with
  | read => exact h.read
  | moveTo line => exact ⟨rfl, h.moveTo line⟩
  | rewind => exact ⟨rfl, h.rewind⟩

theorem Follows.served (h : Follows name lines cursor log) (requests : List Log.Request) :
    (cursor.served requests).1 = (log.served requests).1 ∧
      (∀ answer ∈ (cursor.served requests).1, answer.2 ≤ lines.length) ∧
      Follows name lines (cursor.served requests).2 (log.served requests).2 := by
  induction requests generalizing cursor log with
  | nil => exact ⟨rfl, by simp [LineCursor.served, Log.Request.served], h⟩
  | cons request rest ih =>
    obtain ⟨hanswer, hafter⟩ := h.serve request
    obtain ⟨hanswers, hwithin, hlast⟩ := ih hafter
    rw [LineCursor.served, Log.served, Log.Request.served_cons, Log.Request.served_cons]
    refine ⟨?_, ?_, hlast⟩
    · rw [hanswer, hafter.next]
      exact congrArg _ hanswers
    · intro answer hmem
      rcases List.mem_cons.mp hmem with rfl | hmem
      · exact hafter.next_le
      · exact hwithin answer hmem

theorem Follows.detectLayout (h : Follows name lines cursor log) :
    cursor.detectLayout.1 = log.detectLayout.1 ∧ Follows name lines cursor.detectLayout.2 log.detectLayout.2 := by
  obtain ⟨hanswer, hafter⟩ := h.rewind.read
  unfold LineCursor.detectLayout Log.detectLayout
  cases hunread : (log.moveTo 0).unread with
  | nil =>
    rw [Log.read_of_nil hunread] at hanswer hafter ⊢
    generalize cursor.rewind.read = result at hanswer hafter
    obtain ⟨found, after⟩ := result
    obtain rfl := hanswer
    exact ⟨rfl, hafter⟩
  | cons first rest =>
    rw [(Log.read_of_cons hunread).1] at hanswer hafter ⊢
    generalize cursor.rewind.read = result at hanswer hafter
    obtain ⟨found, after⟩ := result
    obtain rfl := hanswer
    simp only [Layout.ofFirst]
    cases Columns.ofHeader? first.text with
    | none => exact ⟨rfl, hafter.moveTo first.line⟩
    | some columns => exact ⟨rfl, hafter⟩

end Following

end LineCursor

-- Whatever was asked before, a log and a cursor over its lines have given the same answers and stand in the same place,
-- never beyond the end. From there on they read every record of the lines ahead, once and in order, with the line after
-- it as the new place, and then nothing more from the end. To look for the layout leads to the first record from the
-- start of the data on, unless there is no record at all.
theorem Log.cursor_keeps_to_lines (name : String) (lines : List Text) (requests : List Log.Request) :
    let recording := Recording.ofLines name lines
    let log := ((Log.start recording).served requests).2
    let cursor := ((LineCursor.start lines).served requests).2
    (∀ first, Recording.ListsFrom lines first (recording.recordsAt first)) ∧
      ((LineCursor.start lines).served requests).1 = ((Log.start recording).served requests).1 ∧
      (∀ answer ∈ ((LineCursor.start lines).served requests).1, answer.2 ≤ lines.length) ∧
      cursor.next = log.next ∧
      (∀ count, (log.served (List.replicate count .read)).1 =
        ((recording.recordsAt log.next).map (fun record : Record => (some record, record.line + 1)) ++
          List.replicate count (none, lines.length)).take count) ∧
      (cursor.detectLayout.1 = log.detectLayout.1 ∧ cursor.detectLayout.2.next = log.detectLayout.2.next) ∧
      (log.detectLayout.1 = none ↔ ∀ line ∈ lines, ¬Recording.IsRecord line) ∧
      ∀ layout dataStart, log.detectLayout.1 = some (layout, dataStart) →
        log.detectLayout.2.next = dataStart ∧
          log.detectLayout.2.read.1 = (recording.recordsAt dataStart).head? := by
  intro recording log cursor
  obtain ⟨hanswers, hwithin, hfollows⟩ := (LineCursor.follows_start name lines).served requests
  obtain ⟨hfound, hleft⟩ := hfollows.detectLayout
  refine ⟨Recording.listsFrom_recordsAt name lines, hanswers, hwithin, hfollows.next, ?_, ⟨hfound, hleft.next⟩, ?_, ?_⟩
  · intro count
    rw [Log.served_reads, hfollows.lineCount, Log.unread, hfollows.recording]
  · rw [Log.detectLayout_eq_none_iff, hfollows.recording, Recording.records_eq_nil_iff]
  · intro layout dataStart hdetect
    have hnext := Log.next_of_detectLayout hdetect
    rwa [hfollows.recording] at hnext

-- A comment, a header, a blank line and a row, left for a line far beyond the end.
def fourTableLines : List Text := ["# log".toList, "timestamp,message".toList, ['\t'], " ,b ".toList]

theorem Log.cursor_keeps_to_four_lines :
    let log := ((Log.start (Recording.ofLines "four" fourTableLines)).served [.read, .moveTo 9]).2
    log.next = 4 ∧ log.detectLayout.1 = some (.table ⟨0, 1⟩, 2) ∧ log.detectLayout.2.next = 2 ∧
      log.detectLayout.2.read.1 = some ⟨3, ",b".toList⟩ ∧
      ∃ answer ∈ ((LineCursor.start fourTableLines).served [.read, .moveTo 9]).1,
        answer = (none, 4) ∧ answer.2 ≤ fourTableLines.length := by
  intro log
  obtain ⟨-, hanswers, hwithin, -, -, -, -, hdetect⟩ :=
    Log.cursor_keeps_to_lines "four" fourTableLines [.read, .moveTo 9]
  have hnext : log.next = 4 := by decide +kernel
  have hfound : log.detectLayout.1 = some (.table ⟨0, 1⟩, 2) := by decide +kernel
  obtain ⟨hplace, hread⟩ := hdetect _ _ hfound
  have hmem : (none, 4) ∈ ((LineCursor.start fourTableLines).served [.read, .moveTo 9]).1 := by
    rw [hanswers]
    decide +kernel
  exact ⟨hnext, hfound, hplace, hread.trans (by decide +kernel), _, hmem, rfl, hwithin _ hmem⟩

end VoyageLog
