import VoyageLog.Playback.Framing
import VoyageLog.Proofs.Recording.Loading
import VoyageLog.Proofs.Recording.Sightings

namespace VoyageLog

namespace Recording

-- What each record holds.
def texts (recording : Recording) : List Text := recording.records.map (·.text)

-- Text that is a record if it stands on a line for itself.
structure Plain (text : Text) : Prop where
  trimmed : Text.trim text = text
  nonempty : text ≠ []
  noComment : text.head? ≠ some '#'
  oneLine : '\n' ∉ text

theorem plain_of_recordOfLine {line : Text} {index : Nat} {record : Record} (hline : '\n' ∉ line)
    (h : recordOfLine? line index = some record) : Plain record.text := by
  simp only [recordOfLine?] at h
  split at h
  · cases h
  · rename_i hrecord
    obtain rfl := Option.some.inj h
    simp only [Bool.or_eq_true, List.isEmpty_iff, decide_eq_true_eq, not_or] at hrecord
    exact ⟨Text.trim_trim line, hrecord.1, hrecord.2, fun hfeed => hline (Text.mem_of_mem_dropBothWhile hfeed)⟩

theorem plain_of_mem_recordsFrom {index : Nat} {lines : List Text} {record : Record}
    (hlines : ∀ line ∈ lines, '\n' ∉ line) (h : record ∈ recordsFrom index lines) : Plain record.text := by
  induction lines generalizing index with
  | nil => cases h
  | cons line rest ih =>
    have hrest := fun other hother => hlines other (List.mem_cons_of_mem line hother)
    simp only [recordsFrom] at h
    split at h
    · exact ih hrest h
    · rename_i found hfound
      rcases List.mem_cons.mp h with rfl | h
      · exact plain_of_recordOfLine (hlines line (by simp)) hfound
      · exact ih hrest h

theorem no_feed_lines {text line : Text} (h : line ∈ Text.lines text) : '\n' ∉ line := by
  rcases List.mem_append.mp h with h | h
  · obtain ⟨piece, hpiece, rfl⟩ := List.mem_map.mp h
    have hfeed : '\n' ∉ piece := Text.not_mem_of_mem_pieces (List.dropLast_subset _ hpiece)
    unfold Text.dropReturn
    split
    · exact fun hmem => hfeed (List.dropLast_subset _ hmem)
    · exact hfeed
  · split at h
    · cases h
    · rw [List.mem_singleton.mp h]
      exact Text.not_mem_of_mem_pieces (Text.remainder_mem_pieces _ text)

theorem IsLoaded.plain {recording : Recording} {text : Text} (h : recording.IsLoaded) (htext : text ∈ recording.texts) :
    Plain text := by
  have hread : ∃ name held, recording = ofText name held := by
    obtain ⟨name, ⟨held, rfl⟩ | ⟨bytes, rfl⟩⟩ := h
    · exact ⟨name, held, rfl⟩
    · exact ⟨name, _, ofBytes_eq_ofText name bytes⟩
  obtain ⟨name, held, rfl⟩ := hread
  obtain ⟨record, hrecord, rfl⟩ := List.mem_map.mp htext
  exact plain_of_mem_recordsFrom (fun _ => no_feed_lines) hrecord

-- Blanks around them do not matter.
theorem recordsFrom_of_trims {index : Nat} {lines : List Text} (h : ∀ line ∈ lines, Plain (Text.trim line)) :
    (recordsFrom index lines).map (·.text) = lines.map Text.trim := by
  induction lines generalizing index with
  | nil => rfl
  | cons line rest ih =>
    have hline := h line (by simp)
    have hrecord : recordOfLine? line index = some ⟨index, Text.trim line⟩ := by
      simp [recordOfLine?, hline.nonempty, hline.noComment]
    simp [recordsFrom, hrecord, ih fun other hother => h other (by simp [hother])]

-- Lines as they are written, with so many carriage returns before each line feed.
def written (returns : Nat) (lines : List Text) : Text :=
  lines.flatMap fun line => line ++ List.replicate returns '\r' ++ ['\n']

section Written

variable {lines : List Text} (returns : Nat)

theorem trim_returns (line : Text) : Text.trim (line ++ List.replicate returns '\r') = Text.trim line := by
  have hback : ∀ c ∈ List.replicate returns '\r', Text.isBlank c = true := by
    intro c hc
    rw [List.eq_of_mem_replicate hc]
    rfl
  exact Text.dropBothWhile_append hback

theorem lines_written (h : ∀ line ∈ lines, '\n' ∉ line) :
    Text.lines (written returns lines) =
      lines.map fun line => Text.dropReturn (line ++ List.replicate returns '\r') := by
  have hfeeds : ∀ line ∈ lines, '\n' ∉ line ++ List.replicate returns '\r' := by
    intro line hline
    rw [List.mem_append, not_or]
    exact ⟨h line hline, fun hmem => absurd (List.eq_of_mem_replicate hmem) (by decide)⟩
  rw [written, Text.lines, Text.terminated_flatMap lines _ hfeeds]
  simp only [List.isEmpty_nil, if_true, List.append_nil, List.map_map]
  rfl

-- Lines that are written out and read again are the records.
theorem texts_ofText (name : String) (h : ∀ line ∈ lines, Plain line) :
    (ofText name (written returns lines)).texts = lines := by
  have htrims : (Text.lines (written returns lines)).map Text.trim = lines := by
    rw [lines_written returns fun line hline => (h line hline).oneLine, List.map_map]
    refine (List.map_congr_left fun line hline => ?_).trans (List.map_id _)
    -- However many of the carriage returns a reader takes off, the rest are blanks.
    exact (trim_dropReturn _).trans ((trim_returns returns line).trans (h line hline).trimmed)
  rw [texts, ofText, ofLines, recordsFrom_of_trims, htrims]
  intro other hother
  rw [← htrims] at h
  exact h _ (List.mem_map_of_mem hother)

theorem texts_ofBytes (name : String) (h : ∀ line ∈ lines, Plain line) :
    (ofBytes name (Text.Utf8.encode (written returns lines))).texts = lines := by
  rw [ofBytes_eq_ofText, Text.Utf8.decode_encode]
  exact texts_ofText returns name h

end Written

theorem frames_eq (texts : List Text) : texts.flatMap Framing.frame = Text.Utf8.encode (written 1 texts) := by
  rw [written, Text.Utf8.encode, List.flatMap_assoc]
  congr 1
  funext text
  simp [Framing.frame, Framing.lineEnd, Text.Utf8.encode, String.utf8EncodeChar]

-- A recording that is written out, each record on a line, and read again holds the same.
theorem texts_copy {texts : List Text} (name : String) (h : ∀ text ∈ texts, Plain text) :
    (ofBytes name (texts.flatMap Framing.frame)).texts = texts := by
  rw [frames_eq]
  exact texts_ofBytes 1 name h

end Recording

namespace Scan

-- Where the records stand does not matter to a scan of sentences.
theorem sentences_of_texts (records : List Record) :
    sentences records = (records.map (·.text)).foldl (fun state text => state.read ⟨0, text⟩)
      ⟨Tally.zero, [], TimeSource.Listener.fresh⟩ := by
  rw [sentences, List.foldl_map]
  rfl

theorem ofFirst_eq_sentences_iff {first : Record} {dataStart : Nat} :
    Layout.ofFirst first = (.sentences, dataStart) ↔
      Columns.ofHeader? first.text = none ∧ first.line = dataStart := by
  unfold Layout.ofFirst
  cases Columns.ofHeader? first.text <;> simp

-- What a scan finds in sentences, if one of them is sound.
theorem ofRecording_of_sentences {recording : Recording} {first : Record} {rest : List Record}
    (lockPrimary : Bool) (hrecords : recording.records = first :: rest)
    (hheader : Columns.ofHeader? first.text = none)
    (hvalid : (sentences recording.records).tally.valid ≠ 0) :
    ofRecording lockPrimary recording =
      .ok (outcomeOfSentences lockPrimary first.line (sentences recording.records)) := by
  have hfirst : Layout.ofFirst first = (.sentences, first.line) :=
    ofFirst_eq_sentences_iff.mpr ⟨hheader, rfl⟩
  have hall := Recording.recordsAt_first hrecords
  simp only [ofRecording, hrecords, hfirst]
  rw [hall, if_neg hvalid, hrecords]

theorem sentences_of_ofRecording {lockPrimary : Bool} {recording : Recording} {outcome : Outcome}
    (hscan : ofRecording lockPrimary recording = .ok outcome)
    (hlayout : outcome.clock.layout = some .sentences) :
    ∃ first rest, recording.records = first :: rest ∧ Columns.ofHeader? first.text = none ∧
      (sentences recording.records).tally.valid ≠ 0 ∧
      outcome = outcomeOfSentences lockPrimary first.line (sentences recording.records) := by
  cases succeeds hscan with
  | empty | table => cases hlayout
  | sentences first rest hrecords dataStart hfirst hvalid =>
    obtain ⟨hheader, rfl⟩ := ofFirst_eq_sentences_iff.mp hfirst
    rw [Recording.recordsAt_first hrecords] at hvalid ⊢
    exact ⟨first, rest, hrecords, hheader, hvalid, rfl⟩

-- Where the data of sentences starts, there is all of it.
theorem recordsAt_dataStart {lockPrimary : Bool} {recording : Recording} {outcome : Outcome}
    (hscan : ofRecording lockPrimary recording = .ok outcome)
    (hlayout : outcome.clock.layout = some .sentences) :
    recording.recordsAt outcome.clock.dataStart = recording.records := by
  obtain ⟨first, rest, hrecords, -, -, rfl⟩ := sentences_of_ofRecording hscan hlayout
  exact Recording.recordsAt_first hrecords

theorem ofRecording_copy {lockPrimary : Bool} {recording copy : Recording} {outcome : Outcome}
    (hscan : ofRecording lockPrimary recording = .ok outcome)
    (hlayout : outcome.clock.layout = some .sentences) (htexts : copy.texts = recording.texts) :
    ∃ dataStart, ofRecording lockPrimary copy =
      .ok { outcome with clock := { outcome.clock with dataStart } } := by
  obtain ⟨first, rest, hrecords, hheader, hvalid, rfl⟩ := sentences_of_ofRecording hscan hlayout
  obtain ⟨other, others, hcopy, hother, -⟩ : ∃ other others, copy.records = other :: others ∧
      other.text = first.text ∧ others.map (·.text) = rest.map (·.text) := by
    simpa [Recording.texts, hrecords, List.map_eq_cons_iff] using htexts
  have hsame : sentences copy.records = sentences recording.records := by
    rw [sentences_of_texts, sentences_of_texts]
    exact congrArg _ htexts
  rw [ofRecording_of_sentences lockPrimary hcopy (hother ▸ hheader) (hsame ▸ hvalid), hsame]
  exact ⟨other.line, rfl⟩

end Scan

end VoyageLog
