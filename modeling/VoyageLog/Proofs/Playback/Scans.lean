import VoyageLog.Proofs.Playback.Header
import VoyageLog.Proofs.Recording.Drops
import VoyageLog.Proofs.Recording.Observations

namespace VoyageLog

open TimeSource

namespace Player

-- A scan that fails leaves the cursor at the first line, and its listener heeds any source.
structure FailsToScan (player : Player) (log : Log) (failure : Scan.Failure) : Prop where
  scan : log.scan player.lockPrimary = (.error failure, log.moveTo 0)
  answer : player.scan.1 = .error failure
  moved : player.scan.2.player.log = some (log.moveTo 0)
  listener : player.scan.2.player.listener = Listener.fresh

-- A scan that succeeds leaves the cursor where the data starts, and its listener without a date.
structure Finds (player : Player) (log : Log) (dataStart : Nat) (outcome : Scan.Outcome) : Prop where
  scan : log.scan player.lockPrimary = (.ok outcome, log.moveTo dataStart)
  cursor : (log.moveTo dataStart).next = dataStart
  answer : player.scan.1 = .ok outcome.report
  moved : player.scan.2.player.log = some (log.moveTo dataStart)
  clock : player.scan.2.player.clock = outcome.clock
  listener : player.scan.2.player.listener = outcome.listener.undated

variable {player : Player} {log : Log} {first : Record} {rest : List Record} {dataStart : Nat} {columns : Columns}

theorem failsToScan {failure : Scan.Failure} (hlog : player.log = some log)
    (hscan : Scan.ofRecording player.lockPrimary log.recording = .error failure) :
    player.FailsToScan log failure := by
  have hplayer := scan_of_failure hlog hscan
  exact {
    scan := by simp only [Log.scan, hscan]
    answer := congrArg Prod.fst hplayer
    moved := congrArg (·.2.player.log) hplayer
    listener := congrArg (·.2.player.listener) hplayer }

theorem finds {outcome : Scan.Outcome} {layout : Layout} (hlog : player.log = some log)
    (hrecords : log.recording.records = first :: rest) (hlayout : Layout.ofFirst first = (layout, dataStart))
    (hscan : Scan.ofRecording player.lockPrimary log.recording = .ok outcome)
    (hstart : outcome.clock.dataStart = dataStart) : player.Finds log dataStart outcome := by
  subst hstart
  have hplayer := scan_of_outcome hlog hscan
  have hlines := Recording.start_le_lineCount hrecords
  rw [hlayout] at hlines
  exact {
    scan := by simp only [Log.scan, hscan]
    cursor := Nat.min_eq_left hlines
    answer := congrArg Prod.fst hplayer
    moved := congrArg (·.2.player.log) hplayer
    clock := congrArg (·.2.player.clock) hplayer
    listener := congrArg (·.2.player.listener) hplayer }

-- Players with one recording learn the same from it.
theorem scan_same {other : Player} {otherLog : Log} (hlog : player.log = some log)
    (hother : other.log = some otherLog) (hrecording : otherLog.recording = log.recording) :
    other.scan.1 = player.scan.1 ∧ other.scan.2.player.clock = player.scan.2.player.clock := by
  have hagain := Scan.ofRecording_lock player.lockPrimary other.lockPrimary log.recording
  cases hscan : Scan.ofRecording player.lockPrimary log.recording with
  | error failure =>
    rw [hscan, ← hrecording] at hagain
    rw [scan_of_failure hlog hscan, scan_of_failure hother hagain]
    exact ⟨rfl, rfl⟩
  | ok outcome =>
    rw [hscan, ← hrecording] at hagain
    rw [scan_of_outcome hlog hscan, scan_of_outcome hother hagain]
    exact ⟨rfl, rfl⟩

-- A scan of sentences fails if none of them is sound. Else it counts them and takes its clock from what a
-- listener hears of the sound ones, whoever scans.
theorem scan_observes (hlog : player.log = some log) (hrecords : log.recording.records = first :: rest)
    (hlayout : Layout.ofFirst first = (.sentences, dataStart)) :
    let records := log.recording.recordsAt dataStart
    ((∀ record ∈ records, ¬isSound record.text) → player.FailsToScan log .noSentence) ∧
      ((∃ record ∈ records, isSound record.text) →
        ∃ outcome, player.Finds log dataStart outcome ∧
          Scan.Surveys player.lockPrimary dataStart records outcome) ∧
      ∀ (other : Player) (otherLog : Log), other.log = some otherLog → otherLog.recording = log.recording →
        other.scan.1 = player.scan.1 ∧ other.scan.2.player.clock = player.scan.2.player.clock := by
  intro records
  have hscan : Scan.ofRecording player.lockPrimary log.recording =
      if (Scan.sentences records).tally.valid = 0 then .error .noSentence
      else .ok (Scan.outcomeOfSentences player.lockPrimary dataStart (Scan.sentences records)) := by
    simp only [Scan.ofRecording, hrecords, hlayout]
    rfl
  rw [Scan.tally_sentences] at hscan
  refine ⟨?_, ?_, fun other otherLog hother hrecording => scan_same hlog hother hrecording⟩
  · intro hnone
    rw [if_pos (List.countP_eq_zero.mpr hnone)] at hscan
    exact failsToScan hlog hscan
  · rintro ⟨record, hmem, hsound⟩
    have hpos : 0 < records.countP (isSound ·.text) := List.countP_pos_iff.mpr ⟨record, hmem, hsound⟩
    rw [if_neg (Nat.ne_of_gt hpos)] at hscan
    have hsurveys := Scan.surveys player.lockPrimary dataStart records
    exact ⟨_, finds hlog hrecords hlayout hscan hsurveys.dataStart, hsurveys⟩

-- One line is no sentence, one tells no time, and the finer source goes back in time.
def mixedSentences : Recording :=
  Recording.ofLines "mixed"
    ["nonsense".toList, "$GPTXT,hello*".toList, "$GPRMC,120005.5,A,,,,,,,010124*".toList,
      "$GPGLL,,,,,120006*".toList, "$GPRMC,120004.5,A,,,,,,,010124*".toList, "$GPGLL,,,,,120007*".toList]

def mixedPlayer : Player := ((Player.new Config.default).load mixedSentences).player

theorem scan_observes_mixed_sentences :
    ∃ outcome, mixedPlayer.Finds (Log.start mixedSentences) 0 outcome ∧
      Scan.Surveys true 0 (mixedSentences.recordsAt 0) outcome ∧
      outcome.report = ⟨false, true, 5, 1, 4⟩ ∧ outcome.clock.primary = some ⟨['G', 'P'], .gll, 0⟩ := by
  have hrecords : mixedSentences.records = ⟨0, "nonsense".toList⟩ :: mixedSentences.records.tail := by
    decide +kernel
  have hlayout : Layout.ofFirst ⟨0, "nonsense".toList⟩ = (.sentences, 0) := by decide +kernel
  have hsound : ∃ record ∈ mixedSentences.recordsAt 0, isSound record.text := by decide +kernel
  have hlog : mixedPlayer.log = some (Log.start mixedSentences) := rfl
  have hanswer : mixedPlayer.scan.1 = .ok ⟨false, true, 5, 1, 4⟩ := by decide +kernel
  have hprimary : mixedPlayer.scan.2.player.clock.primary = some ⟨['G', 'P'], .gll, 0⟩ := by decide +kernel
  obtain ⟨-, hfound, -⟩ := scan_observes hlog hrecords hlayout
  obtain ⟨outcome, hfinds, hsurveys⟩ := hfound hsound
  exact ⟨outcome, hfinds, hsurveys, Except.ok.inj (hfinds.answer.symm.trans hanswer), hfinds.clock ▸ hprimary⟩

theorem failsToScan_of_firstDrop {previous current : Instant} (hlog : player.log = some log)
    (hrecords : log.recording.records = first :: rest)
    (hlayout : Layout.ofFirst first = (.table columns, dataStart))
    (hdrop : FirstDrop (columns.instants (log.recording.recordsAt dataStart)) previous current) :
    player.FailsToScan log (.notChronological previous current) := by
  refine failsToScan hlog ?_
  rw [Scan.ofRecording_of_table _ hrecords hlayout, Scan.table_of_firstDrop hdrop]
  rfl

theorem finds_of_sorted (hlog : player.log = some log) (hrecords : log.recording.records = first :: rest)
    (hlayout : Layout.ofFirst first = (.table columns, dataStart))
    (hsorted : (columns.instants (log.recording.recordsAt dataStart)).Pairwise (· ≤ ·)) :
    ∃ outcome, player.Finds log dataStart outcome ∧
      Scan.Tabulates columns dataStart (log.recording.recordsAt dataStart) outcome := by
  obtain ⟨ends, hrows, hspans⟩ := Scan.table_of_sorted hsorted
  have htabulates := Scan.tabulates dataStart hspans
  refine ⟨_, finds hlog hrecords hlayout ?_ htabulates.dataStart, htabulates⟩
  rw [Scan.ofRecording_of_table _ hrecords hlayout, hrows]
  rfl

-- A scan of a table fails only for a drop.
theorem scan_table_eq_error_iff (hlog : player.log = some log) (hrecords : log.recording.records = first :: rest)
    (hlayout : Layout.ofFirst first = (.table columns, dataStart)) (failure : Scan.Failure) :
    player.scan.1 = .error failure ↔ ∃ previous current,
      FirstDrop (columns.instants (log.recording.recordsAt dataStart)) previous current ∧
        failure = .notChronological previous current := by
  constructor
  · intro hfails
    rcases sorted_or_firstDrop (columns.instants (log.recording.recordsAt dataStart)) with
      hsorted | ⟨previous, current, hdrop⟩
    · obtain ⟨outcome, hfinds, -⟩ := finds_of_sorted hlog hrecords hlayout hsorted
      cases hfinds.answer.symm.trans hfails
    · have hdropped := failsToScan_of_firstDrop hlog hrecords hlayout hdrop
      exact ⟨previous, current, hdrop, Except.error.inj (hfails.symm.trans hdropped.answer)⟩
  · rintro ⟨previous, current, hdrop, rfl⟩
    exact (failsToScan_of_firstDrop hlog hrecords hlayout hdrop).answer

-- A scan of a table names the first two instants that are out of order, and if there are none it counts the
-- rows and takes its clock from the first and the last instant. Nothing but the instants has a say in that.
theorem scan_finds_first_drop (hlog : player.log = some log)
    (hrecords : log.recording.records = first :: rest)
    (hlayout : Layout.ofFirst first = (.table columns, dataStart)) :
    let records := log.recording.recordsAt dataStart
    let instants := columns.instants records
    (∀ previous current, player.scan.1 = .error (.notChronological previous current) ↔
        FirstDrop instants previous current) ∧
      (¬instants.Pairwise (· ≤ ·) → ∃ previous current, FirstDrop instants previous current ∧
        player.FailsToScan log (.notChronological previous current)) ∧
      (instants.Pairwise (· ≤ ·) → ∃ outcome, player.Finds log dataStart outcome ∧
        Scan.Tabulates columns dataStart records outcome) ∧
      ∀ failure, player.scan.1 = .error failure ↔
        Scan.table columns (records.filter fun record => (columns.instant? record).isSome) = .error failure := by
  intro records instants
  have hfailure := scan_table_eq_error_iff hlog hrecords hlayout
  refine ⟨?_, ?_, finds_of_sorted hlog hrecords hlayout, ?_⟩
  · intro previous current
    rw [hfailure]
    constructor
    · rintro ⟨_, _, hdrop, heq⟩
      obtain ⟨rfl, rfl⟩ := Scan.Failure.notChronological.inj heq
      exact hdrop
    · exact fun hdrop => ⟨previous, current, hdrop, rfl⟩
  · intro hunsorted
    obtain ⟨previous, current, hdrop⟩ := (sorted_or_firstDrop instants).resolve_left hunsorted
    exact ⟨previous, current, hdrop, failsToScan_of_firstDrop hlog hrecords hlayout hdrop⟩
  · intro failure
    rw [hfailure, Scan.table_eq_error_iff, Columns.instants_filter]

-- The third row has no message and the second one no time, so that the fourth is the first to go back.
def unorderedTable : Recording :=
  Recording.ofLines "unordered"
    ["timestamp,message".toList, "2024-01-01T12:00:05Z,a".toList, "later,b".toList,
      "2024-01-01T12:00:04Z".toList, "2024-01-01T12:00:03Z,c".toList, "2024-01-01T12:00:01Z,d".toList]

def unorderedPlayer : Player := ((Player.new Config.default).load unorderedTable).player

theorem scan_finds_drop_in_fourth_row :
    ∃ previous current, previous.second = 43205 ∧ current.second = 43203 ∧
      FirstDrop (Columns.instants ⟨0, 1⟩ (unorderedTable.recordsAt 1)) previous current ∧
      unorderedPlayer.FailsToScan (Log.start unorderedTable) (.notChronological previous current) := by
  have hrecords : unorderedTable.records =
      ⟨0, "timestamp,message".toList⟩ :: unorderedTable.records.tail := by decide +kernel
  have hlayout : Layout.ofFirst ⟨0, "timestamp,message".toList⟩ = (.table ⟨0, 1⟩, 1) := by decide +kernel
  have hlog : unorderedPlayer.log = some (Log.start unorderedTable) := rfl
  have hunsorted : ¬(Columns.instants ⟨0, 1⟩ (unorderedTable.recordsAt 1)).Pairwise (· ≤ ·) := by decide +kernel
  have hseconds : (match unorderedPlayer.scan.1 with
      | .error (.notChronological previous current) => some (previous.second, current.second)
      | _ => none) = some (43205, 43203) := by decide +kernel
  obtain ⟨-, hdrops, -, -⟩ := scan_finds_first_drop hlog hrecords hlayout
  obtain ⟨previous, current, hdrop, hfails⟩ := hdrops hunsorted
  rw [hfails.answer] at hseconds
  obtain ⟨hprevious, hcurrent⟩ := Prod.mk.inj (Option.some.inj hseconds)
  exact ⟨previous, current, hprevious, hcurrent, hdrop, hfails⟩

end Player

end VoyageLog
