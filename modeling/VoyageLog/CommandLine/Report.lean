import VoyageLog.Calendar.Rfc3339
import VoyageLog.Json.Pretty
import VoyageLog.Playback.Player

namespace VoyageLog.CommandLine

open Calendar TimeSource

-- Why a command fails.
inductive Failure
  | cannotScan (file : Text) (cause : Scan.Failure)
  | cannotPlay (file : Text) (cause : Scan.Failure)
  | scanFailed (file : Text) (cause : Scan.Failure)
  | startOutOfRange (start : Text)
  | cannotSeek (start : Text) (file : Text)
  | cannotSave (cause : Text)

namespace Failure

def message : Failure → Text
  | cannotScan file _ => "cannot scan ".toList ++ file
  | cannotPlay file _ => "cannot play ".toList ++ file
  | scanFailed file _ => "scan of ".toList ++ file ++ " failed".toList
  | startOutOfRange start => "--from must be between 0.0 and 1.0, got ".toList ++ start
  | cannotSeek start file => "cannot seek to ".toList ++ start ++ " in ".toList ++ file
  | cannotSave _ => "failed to save settings".toList

def scanCauses (failure : Scan.Failure) : List Text :=
  failure.message.toList ::
    match failure with
    | .unreadable _ cause => [cause.toList]
    | _ => []

-- From the nearest cause to the last one.
def causes : Failure → List Text
  | cannotScan _ cause | cannotPlay _ cause | scanFailed _ cause => scanCauses cause
  | cannotSave cause => [cause]
  | startOutOfRange _ | cannotSeek _ _ => []

-- The later lines of a cause stand below its first one.
def indent (first rest : Text) (cause : Text) : Text :=
  first ++ ['\n' :: rest].flatten.intercalate (Text.pieces (· = '\n') cause)

def numbered (index : Nat) (cause : Text) : Text :=
  indent ((Text.decimal index).leftpad 5 ' ' ++ [':', ' ']) (List.replicate 7 ' ') cause

def numberedFrom (index : Nat) : List Text → Text
  | [] => []
  | cause :: rest => '\n' :: numbered index cause ++ numberedFrom (index + 1) rest

-- A single cause has no number.
def causesText : List Text → Text
  | [] => []
  | [cause] => "\n\nCaused by:\n".toList ++ indent (List.replicate 4 ' ') (List.replicate 4 ' ') cause
  | causes => "\n\nCaused by:".toList ++ numberedFrom 0 causes

def write (failure : Failure) : Text :=
  "Error: ".toList ++ failure.message ++ causesText failure.causes ++ ['\n']

end Failure

-- A scanned recording: its file, the counts and the clock.
structure Summary where
  file : Text
  report : Scan.Report
  clock : Clock

namespace Summary

def first? (summary : Summary) : Option Instant := summary.clock.timeline.map (·.first)

def last? (summary : Summary) : Option Instant := summary.clock.timeline.map (·.last)

def instantJson (instant : Instant) : Json := .text (some (Rfc3339.withZulu instant))

def optionJson {α : Type} (write : α → Json) : Option α → Json
  | none => .null
  | some value => write value

def natJson (value : Nat) : Json := .number (Json.Number.ofNat value)

def sourceMembers (source : TimeSource) : List (Option Text × Json) :=
  [(some "talker".toList, .text (some source.talker)),
    (some "kind".toList, .text (some source.kind.code)),
    (some "precision".toList, natJson source.precision)]

def detailMembers (details : Details) : List (Option Text × Json) :=
  [(some "start_time".toList, instantJson details.start),
    (some "current_time".toList, instantJson details.current),
    (some "end_time".toList, instantJson details.latest),
    (some "is_chronological".toList, .bool details.isChronological)]

def toJson (summary : Summary) : Json :=
  .object [
    (some "file".toList, .text (some summary.file)),
    (some "is_csv".toList, .bool summary.report.isTable),
    (some "has_valid_timestamps".toList, .bool summary.report.isTimed),
    (some "valid_records".toList, natJson summary.report.valid),
    (some "invalid_records".toList, natJson summary.report.invalid),
    (some "timestamped_records".toList, natJson summary.report.timestamped),
    (some "first_timestamp".toList, optionJson instantJson summary.first?),
    (some "last_timestamp".toList, optionJson instantJson summary.last?),
    (some "primary_source".toList,
      optionJson (fun source => .object (sourceMembers source)) summary.clock.primary),
    (some "sources".toList, .list (summary.clock.inventory.map fun (source, details) =>
      .object (sourceMembers source ++ detailMembers details)))]

def line (pieces : List Text) : Text := pieces.flatten ++ ['\n']

def formatLine (summary : Summary) : Text :=
  line ["  format: ".toList, if summary.report.isTable then "CSV".toList else "NMEA".toList]

def recordsLine (summary : Summary) : Text :=
  line ["  records: ".toList, Text.decimal summary.report.valid, " valid, ".toList,
    Text.decimal summary.report.invalid, " invalid, ".toList,
    Text.decimal summary.report.timestamped, " timestamped".toList]

def wholeSeconds (nanoseconds : Int) : Text :=
  let seconds := nanoseconds.tdiv 1000000000
  (if seconds < 0 then ['-'] else []) ++ Text.decimal seconds.natAbs

def timeLines (summary : Summary) : Text :=
  match summary.clock.timeline with
  | some timeline =>
    line ["  start: ".toList, Rfc3339.withOffset timeline.first] ++
      line ["  end:   ".toList, Rfc3339.withOffset timeline.last] ++
      line ["  duration: ".toList, wholeSeconds timeline.span, ['s']]
  | none => line ["  no usable timestamps, playback is paced by batches".toList]

def truth (value : Bool) : Text := if value then "true".toList else "false".toList

-- The primary source has a star.
def sourceLine (primary : Option TimeSource) (entry : TimeSource × Details) : Text :=
  let (source, details) := entry
  line ["  ".toList, if primary = some source then ['*'] else [' '], [' '], source.label,
    ": chronological=".toList, truth details.isChronological, [' '],
    Rfc3339.withOffset details.start, " .. ".toList, Rfc3339.withOffset details.latest]

def toText (summary : Summary) : Text :=
  line [summary.file] ++ summary.formatLine ++ summary.recordsLine ++ summary.timeLines ++
    (summary.clock.inventory.map (sourceLine summary.clock.primary)).flatten

end Summary

end VoyageLog.CommandLine
