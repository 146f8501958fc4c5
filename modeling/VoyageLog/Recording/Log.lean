import VoyageLog.Text.Blank
import VoyageLog.Text.Utf8

namespace VoyageLog

structure Record where
  line : Nat
  text : Text
deriving DecidableEq

namespace Recording

-- A line is a record unless it is blank or a comment.
def recordOfLine? (line : Text) (index : Nat) : Option Record :=
  let text := Text.trim line
  if text.isEmpty || text.head? = some '#' then none else some ⟨index, text⟩

def recordsFrom (index : Nat) : List Text → List Record
  | [] => []
  | line :: rest =>
    match recordOfLine? line index with
    | none => recordsFrom (index + 1) rest
    | some record => record :: recordsFrom (index + 1) rest

theorem line_eq_of_recordOfLine {line : Text} {index : Nat} {record : Record}
    (h : recordOfLine? line index = some record) : record.line = index := by
  simp only [recordOfLine?] at h
  split at h
  · cases h
  · cases h
    rfl

theorem le_line_of_mem_recordsFrom {index : Nat} {lines : List Text} {record : Record}
    (h : record ∈ recordsFrom index lines) :
    index ≤ record.line ∧ record.line < index + lines.length := by
  induction lines generalizing index with
  | nil => simp [recordsFrom] at h
  | cons line rest ih =>
    simp only [recordsFrom] at h
    simp only [List.length_cons]
    split at h
    · have := ih h
      omega
    · rename_i found hfound
      cases List.mem_cons.mp h with
      | inl hhead =>
        have hline := line_eq_of_recordOfLine hfound
        rw [← hhead] at hline
        omega
      | inr htail =>
        have := ih htail
        omega

-- A record of a later line has a later line number.
theorem recordsFrom_pairwise (index : Nat) (lines : List Text) :
    (recordsFrom index lines).Pairwise (fun earlier later => earlier.line < later.line) := by
  induction lines generalizing index with
  | nil => exact List.Pairwise.nil
  | cons line rest ih =>
    simp only [recordsFrom]
    split
    · exact ih _
    · rename_i found hfound
      apply List.Pairwise.cons
      · intro later hlater
        have hline := line_eq_of_recordOfLine hfound
        have hbound := (le_line_of_mem_recordsFrom hlater).1
        omega
      · exact ih _

end Recording

-- The records in the order of their lines.
structure Recording where
  name : String
  lineCount : Nat
  records : List Record
  ascending : records.Pairwise fun earlier later => earlier.line < later.line
  bounded : ∀ record ∈ records, record.line < lineCount

namespace Recording

def ofLines (name : String) (lines : List Text) : Recording where
  name := name
  lineCount := lines.length
  records := recordsFrom 0 lines
  ascending := recordsFrom_pairwise 0 lines
  bounded := fun _ h => by simpa using (le_line_of_mem_recordsFrom h).2

def ofText (name : String) (text : Text) : Recording := ofLines name (Text.lines text)

def dropReturns (line : Text) : Text := Text.dropEndWhile (· = '\r') line

-- Lines end at line feeds; each is decoded for itself and loses all carriage returns at its end.
def byteLines (bytes : List UInt8) : List Text :=
  let (complete, remainder) := Text.terminated (· == 10) bytes
  (complete ++ if remainder.isEmpty then [] else [remainder]).map fun line =>
    dropReturns (Text.Utf8.decode line)

def ofBytes (name : String) (bytes : List UInt8) : Recording := ofLines name (byteLines bytes)

-- The records at or after a line.
def recordsAt (recording : Recording) (line : Nat) : List Record :=
  recording.records.dropWhile (·.line < line)

-- Lines ascend, so no earlier record follows a later one.
private theorem dropWhile_eq_filter (records : List Record) (line : Nat)
    (hasc : records.Pairwise fun earlier later => earlier.line < later.line) :
    records.dropWhile (·.line < line) = records.filter (line ≤ ·.line) := by
  induction records with
  | nil => rfl
  | cons record rest ih =>
    obtain ⟨hhead, htail⟩ := List.pairwise_cons.mp hasc
    by_cases h : record.line < line
    · have hn : ¬line ≤ record.line := by omega
      simp [h, hn, ih htail]
    · have hle : line ≤ record.line := by omega
      have hall : ∀ later ∈ rest, line ≤ later.line := by
        intro later hlater
        have := hhead later hlater
        omega
      rw [List.dropWhile_cons_of_neg (by simpa using h), List.filter_cons_of_pos (by simpa using hle),
        List.filter_eq_self.mpr (by simpa using hall)]

theorem recordsAt_eq_filter (recording : Recording) (line : Nat) :
    recording.recordsAt line = recording.records.filter (line ≤ ·.line) :=
  dropWhile_eq_filter _ _ recording.ascending

theorem le_line_of_mem_recordsAt {recording : Recording} {first : Nat} {record : Record}
    (h : record ∈ recording.recordsAt first) : first ≤ record.line ∧ record.line < recording.lineCount := by
  rw [recordsAt_eq_filter, List.mem_filter] at h
  exact ⟨by simpa using h.2, recording.bounded record h.1⟩

end Recording

-- A recording and the line to read next.
structure Log where
  recording : Recording
  next : Nat
  next_le : next ≤ recording.lineCount

namespace Log

def start (recording : Recording) : Log := ⟨recording, 0, Nat.zero_le _⟩

def lineCount (log : Log) : Nat := log.recording.lineCount

def isAtEnd (log : Log) : Bool := log.lineCount ≤ log.next

-- No further than the end.
def moveTo (log : Log) (line : Nat) : Log :=
  ⟨log.recording, min line log.lineCount, Nat.min_le_right _ _⟩

def unread (log : Log) : List Record := log.recording.recordsAt log.next

-- Without a further record the cursor goes to the end.
def read (log : Log) : Option Record × Log :=
  match log.unread with
  | [] => (none, log.moveTo log.lineCount)
  | record :: _ => (some record, log.moveTo (record.line + 1))

-- Whoever reads on comes to the end.
theorem next_lt_of_read {log next : Log} {record : Record} (h : log.read = (some record, next)) :
    next.lineCount = log.lineCount ∧ log.next < next.next := by
  unfold read at h
  split at h
  · cases h
  · rename_i found rest hunread
    obtain ⟨-, rfl⟩ := Prod.mk.inj h
    have hmem : found ∈ log.recording.recordsAt log.next := by
      rw [← unread, hunread]
      exact List.mem_cons_self
    obtain ⟨hahead, hwithin⟩ := Recording.le_line_of_mem_recordsAt hmem
    refine ⟨rfl, ?_⟩
    change log.next < min (found.line + 1) log.recording.lineCount
    omega

theorem left_lt_of_read {log next : Log} {record : Record} (h : log.read = (some record, next)) :
    next.lineCount - next.next < log.lineCount - log.next := by
  obtain ⟨hsame, hfurther⟩ := next_lt_of_read h
  have hwithin : next.next ≤ next.lineCount := next.next_le
  omega

end Log

end VoyageLog
