import VoyageLog.Json.Pretty
import VoyageLog.Playback.Config
import VoyageLog.Text.Utf8

namespace VoyageLog

structure Settings where
  playback : Player.Config
deriving DecidableEq

namespace Settings

-- Equal field by field, where a speed without a value equals none and the zeros equal each other.
def sameAs (left right : Settings) : Bool :=
  left.playback.speed.sameNumber right.playback.speed &&
    left.playback.lockPrimary == right.playback.lockPrimary &&
    left.playback.capacity == right.playback.capacity

def default : Settings := ⟨Player.Config.default⟩

-- What has no finite value is written as null.
def speedJson : Binary64 → Json
  | .finite number => .number (Json.Number.ofFinite number)
  | .nan | .infinite _ => .null

def playbackJson (config : Player.Config) : Json :=
  .object [
    (some "speed".toList, speedJson config.speed),
    (some "lock_primary_source".toList, .bool config.lockPrimary),
    (some "max_buffer_size".toList, .number (Json.Number.ofNat config.capacity))]

def toJson (settings : Settings) : Json :=
  .object [(some "playback".toList, playbackJson settings.playback)]

def write (settings : Settings) : Text := settings.toJson.pretty

-- What is not there takes its default; what is there has to be right.
def orDefault {α : Type} (default : α) (read : Json → Option α) : Option Json → Option α
  | none => some default
  | some value => read value

def number? : Json → Option Binary64
  | .number value => value.toBinary64?
  | _ => none

def bool? : Json → Option Bool
  | .bool value => some value
  | _ => none

def word? : Json → Option Nat
  | .number value => value.toWord?
  | _ => none

def namesReadable (members : List (Option Text × Json)) : Bool := members.all (·.1.isSome)

def config? (speed lock capacity : Option Json) : Option Player.Config := do
  some ⟨← orDefault Player.Config.default.speed number? speed,
    ← orDefault Player.Config.default.lockPrimary bool? lock,
    ← orDefault Player.Config.default.capacity word? capacity⟩

-- As an object, or as a list of the values in their order.
def playback? : Json → Option Player.Config
  | .object members => do
    if namesReadable members then
      config? (← Json.member? "speed".toList members)
        (← Json.member? "lock_primary_source".toList members)
        (← Json.member? "max_buffer_size".toList members)
    else none
  | .list items => if items.length ≤ 3 then config? items[0]? items[1]? items[2]? else none
  | _ => none

def ofJson? : Json → Option Settings
  | .object members => do
    if namesReadable members then
      some ⟨← orDefault Player.Config.default playback? (← Json.member? "playback".toList members)⟩
    else none
  | .list items =>
    if items.length ≤ 1 then (orDefault Player.Config.default playback? items[0]?).map (⟨·⟩) else none
  | _ => none

def read? (content : Text) : Option Settings := (Json.read? content).bind ofJson?

-- Why a settings file gives no settings.
inductive Failure
  | unreadable
  | malformed
deriving DecidableEq

def Failure.message : Failure → String
  | unreadable => "failed to read"
  | malformed => "failed to parse"

-- The settings in a file of these bytes, if there is a file.
def ofFile : Option (List UInt8) → Except Failure Settings
  | none => .error .unreadable
  | some bytes =>
    match Text.Utf8.decode? bytes with
    | none => .error .unreadable
    | some content =>
      match read? content with
      | none => .error .malformed
      | some settings => .ok settings

end Settings

end VoyageLog
