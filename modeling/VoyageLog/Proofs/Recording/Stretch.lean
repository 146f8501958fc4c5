import VoyageLog.Recording.Log

namespace VoyageLog.Recording

def stretch (recording : Recording) (first beyond : Nat) : List Record :=
  recording.records.filter fun record => first ≤ record.line && record.line < beyond

theorem recordsAt_eq_stretch (recording : Recording) (first : Nat) :
    recording.recordsAt first = recording.stretch first recording.lineCount := by
  rw [recordsAt_eq_filter, stretch]
  apply List.filter_congr
  intro record hrecord
  simp [recording.bounded record hrecord]

theorem stretch_eq_filter_recordsAt (recording : Recording) (first beyond : Nat) :
    recording.stretch first beyond = (recording.recordsAt first).filter (·.line < beyond) := by
  rw [recordsAt_eq_filter, List.filter_filter, stretch]
  apply List.filter_congr
  intro record _
  rw [Bool.and_comm]

@[simp] theorem stretch_self (recording : Recording) (line : Nat) :
    recording.stretch line line = [] := by
  rw [stretch, List.filter_eq_nil_iff]
  intro record _
  simp only [Bool.and_eq_true, decide_eq_true_eq]
  omega

theorem pairwise_recordsAt (recording : Recording) (line : Nat) :
    (recording.recordsAt line).Pairwise fun earlier later => earlier.line < later.line := by
  rw [recordsAt_eq_filter]
  exact recording.ascending.filter _

private theorem filter_append_filter (records : List Record) {first middle beyond : Nat}
    (hasc : records.Pairwise fun earlier later => earlier.line < later.line)
    (hfirst : first ≤ middle) (hmiddle : middle ≤ beyond) :
    records.filter (fun record => first ≤ record.line && record.line < middle) ++
      records.filter (fun record => middle ≤ record.line && record.line < beyond) =
      records.filter (fun record => first ≤ record.line && record.line < beyond) := by
  induction records with
  | nil => rfl
  | cons record rest ih =>
    obtain ⟨hhead, htail⟩ := List.pairwise_cons.mp hasc
    have hrest := ih htail
    by_cases hline : record.line < middle
    · have hn : ¬middle ≤ record.line := by omega
      have hb : record.line < beyond := by omega
      by_cases hf : first ≤ record.line <;> simp [hline, hn, hf, hb, hrest]
    · -- From here on nothing is left for the first of the two.
      have hm : middle ≤ record.line := by omega
      have hf : first ≤ record.line := by omega
      have hnil : rest.filter (fun record => first ≤ record.line && record.line < middle) = [] := by
        rw [List.filter_eq_nil_iff]
        intro later hlater
        have := hhead later hlater
        simp only [Bool.and_eq_true, decide_eq_true_eq]
        omega
      rw [hnil, List.nil_append] at hrest
      by_cases hb : record.line < beyond <;> simp [hline, hm, hf, hb, hnil, hrest]

-- Two stretches that meet make one.
theorem stretch_append (recording : Recording) {first middle beyond : Nat} (hfirst : first ≤ middle)
    (hmiddle : middle ≤ beyond) :
    recording.stretch first middle ++ recording.stretch middle beyond = recording.stretch first beyond :=
  filter_append_filter _ recording.ascending hfirst hmiddle

-- A line divides what is unread into the stretch up to it and what is unread from it on.
theorem split_recordsAt {recording : Recording} {first line : Nat} {taken rest : List Record}
    (h : recording.recordsAt first = taken ++ rest) (hline : first ≤ line)
    (htaken : ∀ record ∈ taken, record.line < line) (hrest : ∀ record ∈ rest, line ≤ record.line) :
    recording.stretch first line = taken ∧ recording.recordsAt line = rest := by
  constructor
  · rw [stretch_eq_filter_recordsAt, h, List.filter_append,
      List.filter_eq_self.mpr (by simpa using htaken),
      List.filter_eq_nil_iff.mpr (by simpa using hrest), List.append_nil]
  · have hagain : recording.recordsAt line = (recording.recordsAt first).filter (line ≤ ·.line) := by
      rw [recordsAt_eq_filter, recordsAt_eq_filter, List.filter_filter]
      apply List.filter_congr
      intro other _
      simp only [← Bool.decide_and, decide_eq_decide]
      omega
    rw [hagain, h, List.filter_append, List.filter_eq_nil_iff.mpr (by simpa using htaken),
      List.filter_eq_self.mpr (by simpa using hrest), List.nil_append]

-- The lines before and after a record that is reached.
theorem lines_of_recordsAt {recording : Recording} {first : Nat} {taken rest : List Record}
    {record : Record} (h : recording.recordsAt first = taken ++ record :: rest) :
    first ≤ record.line ∧ (∀ earlier ∈ taken, earlier.line < record.line) ∧
      ∀ later ∈ rest, record.line < later.line := by
  have hasc := pairwise_recordsAt recording first
  have hmem : record ∈ recording.recordsAt first := by
    rw [h]
    simp
  have hle := le_line_of_mem_recordsAt hmem
  rw [h, List.pairwise_append, List.pairwise_cons] at hasc
  obtain ⟨-, ⟨hlater, -⟩, hearlier⟩ := hasc
  exact ⟨hle.1, fun earlier hmem => hearlier earlier hmem record (by simp), hlater⟩

theorem recordsAt_line {recording : Recording} {first : Nat} {taken rest : List Record} {record : Record}
    (h : recording.recordsAt first = taken ++ record :: rest) :
    recording.recordsAt record.line = record :: rest := by
  obtain ⟨hle, htaken, hrest⟩ := lines_of_recordsAt h
  refine (split_recordsAt h hle htaken ?_).2
  intro other hmem
  rcases List.mem_cons.mp hmem with rfl | hmem
  · exact Nat.le_refl _
  · exact Nat.le_of_lt (hrest other hmem)

-- The records up to one that is reached, and those after it.
theorem stretch_of_recordsAt {recording : Recording} {first : Nat} {taken rest : List Record}
    {record : Record} (h : recording.recordsAt first = taken ++ record :: rest) :
    recording.stretch first (record.line + 1) = taken ++ [record] ∧
      recording.recordsAt (record.line + 1) = rest := by
  obtain ⟨hle, htaken, hrest⟩ := lines_of_recordsAt h
  have hsplit : recording.recordsAt first = (taken ++ [record]) ++ rest := by simpa using h
  refine split_recordsAt hsplit (by omega) ?_ hrest
  intro other hmem
  rcases List.mem_append.mp hmem with hmem | hmem
  · have := htaken other hmem
    omega
  · simp [List.mem_singleton.mp hmem]

theorem recordsAt_zero (recording : Recording) : recording.recordsAt 0 = recording.records := by
  cases h : recording.records <;> simp [Recording.recordsAt, h]

-- All records stand at or after the line of the first one.
theorem recordsAt_first {recording : Recording} {first : Record} {rest : List Record}
    (h : recording.records = first :: rest) : recording.recordsAt first.line = recording.records := by
  have hall : recording.recordsAt 0 = [] ++ first :: rest := by rw [recordsAt_zero, h, List.nil_append]
  rw [recordsAt_line hall, h]

theorem recordsAt_lineCount (recording : Recording) : recording.recordsAt recording.lineCount = [] := by
  rw [recordsAt_eq_stretch, stretch_self]

end VoyageLog.Recording

namespace VoyageLog.Log

-- A cursor that is put back is where it was.
theorem moveTo_next (log : Log) : log.moveTo log.next = log := by
  have hback : min log.next log.lineCount = log.next := Nat.min_eq_left log.next_le
  simp only [moveTo, hback]

theorem moveTo_moveTo (log : Log) (earlier later : Nat) : (log.moveTo earlier).moveTo later = log.moveTo later := rfl

-- Beyond the last line there is as little to read as at the end.
theorem unread_moveTo (log : Log) (line : Nat) : (log.moveTo line).unread = log.recording.recordsAt line := by
  simp only [unread, moveTo, lineCount]
  by_cases h : line ≤ log.recording.lineCount
  · rw [Nat.min_eq_left h]
  · rw [Nat.min_eq_right (by omega), Recording.recordsAt_lineCount, Recording.recordsAt_eq_filter, eq_comm,
      List.filter_eq_nil_iff]
    intro record hrecord
    have := log.recording.bounded record hrecord
    simp only [decide_eq_true_eq]
    omega

theorem read_of_nil {log : Log} (h : log.unread = []) : log.read = (none, log.moveTo log.lineCount) := by
  simp only [read, h]

theorem read_of_cons {log : Log} {record : Record} {rest : List Record} (h : log.unread = record :: rest) :
    log.read = (some record, log.moveTo (record.line + 1)) ∧ (log.moveTo (record.line + 1)).unread = rest := by
  have hahead : log.recording.recordsAt log.next = [] ++ record :: rest := h
  refine ⟨by simp only [read, h], ?_⟩
  rw [unread_moveTo]
  exact (Recording.stretch_of_recordsAt hahead).2

end VoyageLog.Log
