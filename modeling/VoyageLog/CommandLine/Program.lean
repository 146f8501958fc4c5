import VoyageLog.CommandLine.Arguments
import VoyageLog.CommandLine.Report
import VoyageLog.Playback.Framing
import VoyageLog.Playback.Session
import VoyageLog.Settings

namespace VoyageLog.CommandLine

open Player

-- The content of the settings file, if there is one, and of any other file, or why it cannot be read.
structure Files where
  settings : Option (List UInt8)
  content : Text → Except String (List UInt8)

structure Outcome where
  exit : Nat
  output : Text
  errors : Text
  settings : Option (List UInt8)

def versionText : Text := "vdr-replay 0.1.0\n".toList

def usageText : Text :=
  "Usage: vdr-replay scan [--json] FILE\n       vdr-replay play [--speed SPEED] [--from FRACTION] [--any-source] [--save] FILE\n".toList

-- Settings that cannot be read count as none.
def settingsOf (file : Option (List UInt8)) : Settings :=
  match Settings.ofFile file with
  | .ok settings => settings
  | .error _ => Settings.default

def PlayOptions.override (options : PlayOptions) (settings : Settings) : Settings :=
  ⟨{ settings.playback with
    speed := options.speed.getD settings.playback.speed,
    lockPrimary := settings.playback.lockPrimary && !options.anySource }⟩

def openRecording (files : Files) (file : Text) : Except Scan.Failure Recording :=
  match files.content file with
  | .ok bytes => .ok (Recording.ofBytes (String.ofList file) bytes)
  | .error cause => .error (.unreadable (String.ofList file) cause)

-- A player with the file loaded and scanned.
def scanned (settings : Settings) (recording : Recording) : Except Scan.Failure (Scan.Report × Player) :=
  let (outcome, step) := ((Player.new settings.playback).load recording).player.scan
  outcome.map fun report => (report, step.player)

def summary? (files : Files) (file : Text) : Except Failure Summary := do
  let recording ← (openRecording files file).mapError (Failure.cannotScan file)
  let (report, player) ←
    (scanned (settingsOf files.settings) recording).mapError (Failure.scanFailed file)
  .ok ⟨file, report, player.clock⟩

-- Whether a number is above zero, so that there is somewhere to go first.
def isAboveZero : Binary64 → Bool
  | .finite number => 0 < number.value
  | _ => false

def isShare (number : Binary64) : Bool :=
  number.within (Binary64.Finite.zero false) Binary64.Finite.one

-- A player that stands where playback is to start.
def readyPlayer (files : Files) (file : Text) (settings : Settings) (start : Binary64) :
    Except Failure Player := do
  if isShare start then
    let recording ← (openRecording files file).mapError (Failure.cannotPlay file)
    let (_, player) ← (scanned settings recording).mapError (Failure.scanFailed file)
    if isAboveZero start then
      match player.seek 0 start with
      | (.moved, step) => .ok step.player
      | _ => .error (.cannotSeek (Decimal.plain start) file)
    else .ok player
  else .error (.startOutOfRange (Decimal.plain start))

export Player (emitted)

-- All that is played from the start on; each delivery but the last reads a record.
def playedOut (player : Player) : List Effect :=
  let session : Session := ⟨player, ManualTimer.fresh, 0⟩
  let (_, session, effects) := session.perform .start
  let lineCount := match player.log with
    | some log => log.lineCount
    | none => 0
  effects ++ session.playOut (lineCount + 1)

def frames (records : List Text) : Text := (records.map (· ++ ['\r', '\n'])).flatten

def fail (failure : Failure) (settings : Option (List UInt8)) : Outcome :=
  ⟨1, [], failure.write, settings⟩

def run (files : Files) (arguments : List Text) : Outcome :=
  match read? arguments with
  | none => ⟨2, [], usageText, files.settings⟩
  | some .help => ⟨0, usageText, [], files.settings⟩
  | some .version => ⟨0, versionText, [], files.settings⟩
  | some (.scan file asJson) =>
    match summary? files file with
    | .ok summary =>
      ⟨0, if asJson then summary.toJson.pretty ++ ['\n'] else summary.toText, [], files.settings⟩
    | .error failure => fail failure files.settings
  | some (.play file options) =>
    let settings := options.override (settingsOf files.settings)
    let saved := if options.save then some (Text.Utf8.encode settings.write) else files.settings
    match readyPlayer files file settings options.start with
    | .ok player => ⟨0, frames (emitted (playedOut player)), [], saved⟩
    | .error failure => fail failure saved

end VoyageLog.CommandLine
