import VoyageLog.Proofs.Playback.Framing
import VoyageLog.Proofs.Playback.Holdings
import VoyageLog.Proofs.Recording.Copy
import VoyageLog.Proofs.Recording.Csv

namespace VoyageLog

theorem Columns.mem_of_row {columns : Columns} {line : Text} {row : Row} {c : Char} (h : columns.row? line = some row)
    (hc : c ∈ row.message) : c ∈ line := by
  simp only [row?, Option.bind_eq_bind, Option.bind_eq_some_iff] at h
  obtain ⟨cells, hcells, message, hmessage, hrow⟩ := h
  obtain rfl := Option.some.inj hrow
  exact Csv.mem_of_mem_cells hcells (List.mem_of_getElem? hmessage) hc

theorem Record.mem_of_payload {record : Record} {layout : Option Layout} {payload : Text} {c : Char}
    (h : record.payload? layout = some payload) (hc : c ∈ payload) : c ∈ record.text := by
  unfold payload? at h
  split at h
  · obtain ⟨row, hrow, rfl⟩ := Option.map_eq_some_iff.mp h
    exact Columns.mem_of_row hrow hc
  · obtain rfl := Option.some.inj h
    exact hc

theorem Player.SaidBy.no_feed {text : Text} (h : Player.SaidBy Recording.IsLoaded text) : '\n' ∉ text := by
  obtain ⟨recording, hloaded, record, hrecord, layout, hpayload⟩ := h
  have hplain := hloaded.plain (List.mem_map_of_mem hrecord)
  exact fun hfeed => hplain.oneLine (Record.mem_of_payload hpayload hfeed)

namespace Framing

-- A carriage return before its line feed is all that a line loses.
theorem lines_frames {records : List Text} (h : ∀ record ∈ records, '\n' ∉ record) :
    Text.lines (Text.Utf8.decode (records.flatMap frame)) = records := by
  rw [Recording.frames_eq, Text.Utf8.decode_encode, Recording.lines_written 1 h]
  simp [Text.dropReturn]

-- However much a writer has room for, it has written just so much of the records and their line ends, write by write
-- as at once. Where it has room for all of them, the records are what stands between the line ends, if recordings
-- that were loaded say them; and whatever a player sends, a recording that it was given says.
theorem output_survives_full_writer (records : List Text) (room : Nat) :
    let written := ((Writer.ofRoom room).emitAll records).written
    written = (records.flatMap frame).take room ∧
    records.foldl Writer.emitOn (Writer.ofRoom room) = (Writer.ofRoom room).emitAll records ∧
    ((∀ record ∈ records, Player.SaidBy Recording.IsLoaded record) → (records.flatMap frame).length ≤ room →
      (∀ record ∈ records, '\n' ∉ record) ∧ (Text.terminated (· == 10) written).2 = [] ∧
        unframed written = records.map Text.Utf8.encode ∧ Text.lines (Text.Utf8.decode written) = records) ∧
    ∀ (config : Player.Config) (orders : List Player.Order),
      (∀ order ∈ orders, ∀ recording, order.command = .load recording → recording.IsLoaded) →
        ∀ text ∈ Player.emitted ((Player.new config).obeyAll orders).effects,
          Player.SaidBy Recording.IsLoaded text := by
  intro written
  have hwritten : written = (records.flatMap frame).take room := Writer.written_emitAll (Writer.ofRoom room) records
  refine ⟨hwritten, ?_, ?_, ?_⟩
  · exact congrArg (fun emit => records.foldl emit (Writer.ofRoom room)) (funext₂ Writer.emitOn_eq)
  · intro hsaid hfits
    have hfeeds : ∀ record ∈ records, '\n' ∉ record := fun record hrecord => (hsaid record hrecord).no_feed
    have hwhole : written = records.flatMap frame := Writer.written_of_fits hfits
    rw [hwhole]
    exact ⟨hfeeds, congrArg Prod.snd (terminated_frames hfeeds), unframed_frames hfeeds, lines_frames hfeeds⟩
  · intro config orders hloads
    have hnone : (Player.new config).Holds Recording.IsLoaded := by simp [Player.Holds, Player.new]
    exact Player.saidBy_of_obeyAll orders .new hnone hloads

-- A cell that ends with a carriage return, and an empty one.
def returningTable : Recording :=
  Recording.ofText "returning table" "timestamp,message\n,\"a\r\"\n,\n".toList

-- The writer with room for three bytes is full between a carriage return and its line feed.
theorem returning_table_survives_full_writer :
    let sent := Player.emitted
      ((Player.new Player.Config.default).obeyAll [⟨0, .load returningTable⟩, ⟨0, .start⟩]).effects
    sent = ["a\r".toList, []] ∧ ((Writer.ofRoom 3).emitAll sent).written = [97, 13, 13] ∧
      unframed ((Writer.ofRoom 6).emitAll sent).written = [[97, 13], []] ∧
      Text.lines (Text.Utf8.decode ((Writer.ofRoom 6).emitAll sent).written) = sent := by
  intro sent
  have hsent : sent = ["a\r".toList, []] := by decide +kernel
  have hloads : ∀ order ∈ [(⟨0, .load returningTable⟩ : Player.Order), ⟨0, .start⟩], ∀ recording,
      order.command = .load recording → recording.IsLoaded := by
    rintro order horder recording hload
    rcases List.mem_pair.mp horder with rfl | rfl
    · obtain rfl := Player.Command.load.inj hload
      exact ⟨_, .inl ⟨_, rfl⟩⟩
    · cases hload
  obtain ⟨htorn, -, -, -⟩ := output_survives_full_writer sent 3
  obtain ⟨-, -, hwhole, hsaid⟩ := output_survives_full_writer sent 6
  have hfits : (sent.flatMap frame).length ≤ 6 := by
    rw [hsent]
    decide +kernel
  obtain ⟨-, -, hpieces, hlines⟩ := hwhole (hsaid Player.Config.default _ hloads) hfits
  refine ⟨hsent, ?_, ?_, hlines⟩
  · rw [htorn, hsent]
    decide +kernel
  · rw [hpieces, hsent]
    decide +kernel

end Framing

end VoyageLog
