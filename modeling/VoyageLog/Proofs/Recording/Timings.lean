import VoyageLog.Proofs.Recording.Stretch
import VoyageLog.Proofs.TimeSource.Hearing

namespace VoyageLog.TimeSource.Listener

-- The listener after it has heard some records.
def hearAll (listener : Listener) (records : List Record) : Listener :=
  records.foldl (fun listener record => (listener.heed record.text).2) listener

-- The instant that each record tells, by its line, in one pass over all of them.
def timings (listener : Listener) : List Record → List (Nat × Option Instant)
  | [] => []
  | record :: rest =>
    let (found, next) := listener.heed record.text
    (record.line, found.map (·.instant)) :: next.timings rest

theorem timings_append (listener : Listener) (first second : List Record) :
    listener.timings (first ++ second) =
      listener.timings first ++ (listener.hearAll first).timings second := by
  induction first generalizing listener with
  | nil => rfl
  | cons record rest ih => exact congrArg (List.cons _) (ih _)

theorem map_fst_timings (listener : Listener) (records : List Record) :
    (listener.timings records).map (·.1) = records.map (·.line) := by
  induction records generalizing listener with
  | nil => rfl
  | cons record rest ih => exact congrArg (List.cons _) (ih _)

theorem undated_hearAll (listener : Listener) (records : List Record) :
    (listener.hearAll records).undated = listener.undated := by
  induction records generalizing listener with
  | nil => rfl
  | cons record rest ih => exact (ih _).trans (undated_heed listener record.text)

-- A listener that has heard the next record already makes the same of all that follow.
theorem timings_heed_again (listener : Listener) (record : Record) (rest : List Record) :
    (listener.heed record.text).2.timings (record :: rest) = listener.timings (record :: rest) := by
  simp only [timings, heed_again]

-- Lines ascend, so that each has one instant at most.
theorem lookup_timings {listener : Listener} {recording : Recording} {first line : Nat}
    {answer : Option Instant} (h : (line, answer) ∈ listener.timings (recording.recordsAt first)) :
    (listener.timings (recording.recordsAt first)).lookup line = some answer := by
  have hlines := (recording.pairwise_recordsAt first).map (S := (· < ·)) Record.line fun _ _ hlt => hlt
  rw [← map_fst_timings listener] at hlines
  obtain ⟨before, after, hsplit⟩ := List.append_of_mem h
  rw [hsplit, List.lookup_eq_some_iff]
  refine ⟨before, after, rfl, ?_⟩
  intro entry hentry
  rw [hsplit, List.map_append, List.pairwise_append] at hlines
  have hlt := hlines.2.2 entry.1 (List.mem_map_of_mem hentry) line (by simp)
  simp only [bne_iff_ne, ne_eq]
  omega

end VoyageLog.TimeSource.Listener
