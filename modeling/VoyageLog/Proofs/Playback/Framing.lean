import VoyageLog.Playback.Framing
import VoyageLog.Proofs.Text.Lines
import VoyageLog.Proofs.Text.Utf8

namespace VoyageLog.Framing

namespace Writer

-- A record that does not fit leaves no room for its line end.
theorem emit_eq (writer : Writer) (record : Text) :
    writer.emit record =
      ⟨writer.room - (frame record).length, writer.written ++ (frame record).take writer.room⟩ := by
  have hlength : (frame record).length = (Text.Utf8.encode record).length + 2 := by
    simp [frame, lineEnd]
  rw [hlength]
  by_cases hfits : (Text.Utf8.encode record).length ≤ writer.room
  · have htake : (Text.Utf8.encode record).take writer.room = Text.Utf8.encode record :=
      List.take_of_length_le hfits
    simp [emit, write, frame, hfits, htake, List.take_append, Nat.sub_sub, lineEnd]
  · have htorn : writer.room - (Text.Utf8.encode record).length = 0 := by omega
    have hnone : writer.room - ((Text.Utf8.encode record).length + 2) = 0 := by omega
    simp [emit, write, frame, hfits, htorn, hnone, List.take_append]

theorem written_emitAll (writer : Writer) (records : List Text) :
    (writer.emitAll records).written = writer.written ++ (records.flatMap frame).take writer.room := by
  induction records generalizing writer with
  | nil => simp [emitAll]
  | cons record rest ih =>
    have hrest := ih (writer.emit record)
    simp only [emitAll, List.foldl_cons] at hrest ⊢
    rw [hrest, emit_eq]
    simp [List.take_append]

-- A writer with room for everything takes everything.
theorem written_of_fits {room : Nat} {records : List Text} (h : (records.flatMap frame).length ≤ room) :
    ((ofRoom room).emitAll records).written = records.flatMap frame := by
  rw [written_emitAll]
  simp [ofRoom, List.take_of_length_le h]

-- Write by write, for as long as anything is left: each takes what fits, and a full writer fails.
def writeOn (writer : Writer) (bytes : List UInt8) : Writer × Bool :=
  if _hdone : bytes = [] then (writer, true)
  else if _hfull : writer.room = 0 then (writer, false)
  else
    writeOn ⟨writer.room - bytes.length, writer.written ++ bytes.take writer.room⟩ (bytes.drop writer.room)
termination_by bytes.length
decreasing_by
  have hpos : 0 < bytes.length := List.length_pos_iff.mpr _hdone
  rw [List.length_drop]
  omega

-- The second write finds nothing left or no room.
theorem writeOn_eq (writer : Writer) (bytes : List UInt8) : writer.writeOn bytes = writer.write bytes := by
  by_cases hdone : bytes = []
  · simp [writeOn, write, hdone]
  · have hpos : 0 < bytes.length := List.length_pos_iff.mpr hdone
    by_cases hfull : writer.room = 0
    · obtain ⟨room, written⟩ := writer
      obtain rfl : room = 0 := hfull
      simp [writeOn, write, hdone]
    · rw [writeOn, dif_neg hdone, dif_neg hfull, write]
      by_cases hfits : bytes.length ≤ writer.room
      · rw [writeOn, dif_pos (List.drop_of_length_le hfits), decide_eq_true hfits]
      · have hleft : bytes.drop writer.room ≠ [] := by
          rw [ne_eq, List.drop_eq_nil_iff]
          exact hfits
        have hnone : writer.room - bytes.length = 0 := by omega
        rw [writeOn, dif_neg hleft, dif_pos hnone, decide_eq_false hfits]

-- A record and its line end, write by write.
def emitOn (writer : Writer) (record : Text) : Writer :=
  match writer.writeOn (Text.Utf8.encode record) with
  | (after, true) => (after.writeOn lineEnd).1
  | (after, false) => after

theorem emitOn_eq (writer : Writer) (record : Text) : writer.emitOn record = writer.emit record := by
  rw [emitOn, writeOn_eq, emit]
  cases writer.write (Text.Utf8.encode record) with
  | mk after whole =>
    cases whole with
    | true => exact congrArg Prod.fst (after.writeOn_eq lineEnd)
    | false => rfl

end Writer

-- What stands before each line feed, without one carriage return at its end.
def unframed (bytes : List UInt8) : List (List UInt8) :=
  (Text.terminated (· == 10) bytes).1.map fun piece => if piece.getLast? = some 13 then piece.dropLast else piece

-- Only the line ends have line feeds.
theorem terminated_frames {records : List Text} (h : ∀ record ∈ records, '\n' ∉ record) :
    Text.terminated (· == 10) (records.flatMap frame) =
      (records.map fun record => Text.Utf8.encode record ++ [13], []) := by
  have hframes : records.flatMap frame =
      records.flatMap fun record => (Text.Utf8.encode record ++ [13]) ++ [10] := by
    congr 1
    funext record
    rw [frame, List.append_assoc]
    rfl
  rw [hframes]
  refine Text.terminated_flatMap records _ fun record hrecord => ?_
  rw [List.mem_append, not_or]
  exact ⟨Text.Utf8.feed_not_mem_encode (h record hrecord), by decide⟩

theorem unframed_frames {records : List Text} (h : ∀ record ∈ records, '\n' ∉ record) :
    unframed (records.flatMap frame) = records.map Text.Utf8.encode := by
  rw [unframed, terminated_frames h, List.map_map]
  exact List.map_congr_left fun record _ => by simp

end VoyageLog.Framing
