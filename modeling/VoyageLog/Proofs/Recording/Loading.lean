import VoyageLog.Proofs.Recording.Cursor
import VoyageLog.Proofs.Text.Lines
import VoyageLog.Proofs.Text.Utf8

namespace VoyageLog.Recording

theorem pieces_decode (bytes : List UInt8) :
    Text.pieces (· == '\n') (Text.Utf8.decode bytes) = (Text.pieces (· == 10) bytes).map Text.Utf8.decode := by
  induction hlength : bytes.length using Nat.strongRecOn generalizing bytes with
  | ind length ih =>
    by_cases hfeed : 10 ∈ bytes
    · obtain ⟨piece, rest, rfl, hpiece⟩ := List.eq_append_cons_of_mem hfeed
      have hrest := ih rest.length (by simp at hlength; omega) rest rfl
      rw [Text.Utf8.decode_append_feed rest hpiece, Text.pieces_append_mark _ (Text.Utf8.feed_not_mem_decode hpiece),
        Text.pieces_append_mark _ hpiece, List.map_cons, hrest]
    · rw [Text.pieces_of_not_mem hfeed, Text.pieces_of_not_mem (Text.Utf8.feed_not_mem_decode hfeed),
        List.map_singleton]

section Returns

variable (line : Text)

theorem trim_dropReturns : Text.trim (dropReturns line) = Text.trim line := by
  have hreturns : ∀ c ∈ line.rtakeWhile (fun c => decide (c = '\r')), Text.isBlank c = true := by
    intro c hc
    have hreturn := List.mem_rtakeWhile_imp hc
    rw [of_decide_eq_true hreturn]
    rfl
  have hwhole : dropReturns line ++ line.rtakeWhile (fun c => decide (c = '\r')) = line :=
    List.rdropWhile_append_rtakeWhile
  rw [Text.trim, Text.trim, ← Text.dropBothWhile_append hreturns, hwhole]

theorem dropReturns_dropReturn : dropReturns (Text.dropReturn line) = dropReturns line := by
  unfold Text.dropReturn
  split
  · rename_i hlast
    obtain ⟨front, rfl⟩ := List.getLast?_eq_some_iff.mp hlast
    rw [List.dropLast_concat, dropReturns, dropReturns, Text.dropEndWhile_append (by simp)]
  · rfl

theorem trim_dropReturn : Text.trim (Text.dropReturn line) = Text.trim line := by
  rw [← trim_dropReturns, dropReturns_dropReturn, trim_dropReturns]

end Returns

-- Bytes lose every carriage return at the end of a line.
theorem byteLines_eq (bytes : List UInt8) :
    byteLines bytes = (Text.lines (Text.Utf8.decode bytes)).map dropReturns := by
  have hcomplete : (Text.terminated (· == '\n') (Text.Utf8.decode bytes)).1 =
      (Text.terminated (· == 10) bytes).1.map Text.Utf8.decode := by
    simp only [Text.terminated, pieces_decode, List.map_dropLast]
  have hremainder : (Text.terminated (· == '\n') (Text.Utf8.decode bytes)).2 =
      Text.Utf8.decode (Text.terminated (· == 10) bytes).2 := by
    simp [Text.terminated, pieces_decode, List.getLastD_eq_getLast?, List.getLast?_map,
      List.getLast?_eq_some_getLast (Text.pieces_ne_nil (· == 10) bytes)]
  simp only [byteLines, Text.lines, hcomplete, hremainder, List.map_append, List.map_map]
  congr 1
  · refine List.map_congr_left fun line _ => ?_
    exact (dropReturns_dropReturn _).symm
  · cases hempty : (Text.terminated (· == 10) bytes).2 with
    | nil => rfl
    | cons first rest =>
      have hne : Text.Utf8.decode (first :: rest) ≠ [] := by simp [Text.Utf8.decode_eq_nil_iff]
      simp [hne]

section Trims

variable {first second : List Text}

-- Blanks around the lines do not matter to the records.
theorem recordsFrom_of_same_trims (index : Nat) (h : first.map Text.trim = second.map Text.trim) :
    recordsFrom index first = recordsFrom index second := by
  induction first generalizing index second with
  | nil => rw [List.map_eq_nil_iff.mp h.symm]
  | cons line rest ih =>
    obtain ⟨other, others, rfl, htrim, hrest⟩ := List.map_eq_cons_iff.mp h.symm
    have hrecord : recordOfLine? line index = recordOfLine? other index := by simp only [recordOfLine?, htrim]
    simp only [recordsFrom, hrecord, ih (index + 1) hrest.symm]

theorem ofLines_of_same_trims (name : String) (h : first.map Text.trim = second.map Text.trim) :
    ofLines name first = ofLines name second := by
  have hlength : first.length = second.length := by simpa using congrArg List.length h
  simp only [ofLines, Recording.mk.injEq, true_and]
  exact ⟨hlength, recordsFrom_of_same_trims 0 h⟩

end Trims

theorem ofBytes_eq_ofText (name : String) (bytes : List UInt8) :
    ofBytes name bytes = ofText name (Text.Utf8.decode bytes) := by
  apply ofLines_of_same_trims
  rw [byteLines_eq, List.map_map]
  exact List.map_congr_left fun line _ => trim_dropReturns line

-- Bytes and the text that they decode to make one recording. Their lines are as many, and differ in nothing but
-- carriage returns at their ends, so that cursors over them give the same answers to whatever is asked of them, and
-- come to the same places.
theorem loads_alike (name : String) (bytes : List UInt8) :
    ofBytes name bytes = ofText name (Text.Utf8.decode bytes) ∧
      let fromBytes := byteLines bytes
      let fromText := Text.lines (Text.Utf8.decode bytes)
      fromBytes.length = fromText.length ∧ fromBytes = fromText.map dropReturns ∧
        ∀ requests, ((LineCursor.start fromBytes).served requests).1 = ((LineCursor.start fromText).served requests).1 ∧
          ((LineCursor.start fromBytes).served requests).2.next =
            ((LineCursor.start fromText).served requests).2.next := by
  have hlines := byteLines_eq bytes
  have hsame := ofBytes_eq_ofText name bytes
  refine ⟨hsame, by rw [hlines, List.length_map], hlines, fun requests => ?_⟩
  obtain ⟨hbytes, -, hbytesEnd⟩ := (LineCursor.follows_start name (byteLines bytes)).served requests
  obtain ⟨htext, -, htextEnd⟩ :=
    (LineCursor.follows_start name (Text.lines (Text.Utf8.decode bytes))).served requests
  rw [← ofBytes, hsame] at hbytes hbytesEnd
  exact ⟨hbytes.trans htext.symm, hbytesEnd.next.trans htextEnd.next.symm⟩

-- Read from text or from bytes.
def IsLoaded (recording : Recording) : Prop :=
  ∃ name, (∃ text, recording = ofText name text) ∨ ∃ bytes, recording = ofBytes name bytes

end VoyageLog.Recording
