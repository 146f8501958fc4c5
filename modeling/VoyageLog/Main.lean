import VoyageLog.CommandLine.Program

namespace VoyageLog.CommandLine

def systemMessage (error : IO.Error) : String :=
  match error with
  | .noFileOrDirectory _ _ _ => "No such file or directory (os error 2)"
  | .permissionDenied _ _ _ => "Permission denied (os error 13)"
  | .inappropriateType _ code _ =>
    if code = 20 then "Not a directory (os error 20)" else "Is a directory (os error 21)"
  | other => toString other

def settingsDirectory? : IO (Option String) := do
  match ← IO.getEnv "XDG_CONFIG_HOME" with
  | some directory =>
    if directory.startsWith "/" then return some (directory ++ "/vdr-replay")
    else return (← IO.getEnv "HOME").map (· ++ "/.config/vdr-replay")
  | none => return (← IO.getEnv "HOME").map (· ++ "/.config/vdr-replay")

def readBytes (path : String) : IO (Except String (List UInt8)) := do
  try
    let bytes ← IO.FS.readBinFile path
    return .ok bytes.toList
  catch error => return .error (systemMessage error)

def readSettings : IO (Option (List UInt8)) := do
  match ← settingsDirectory? with
  | none => return none
  | some directory => return (← readBytes (directory ++ "/settings.json")).toOption

def writeSettings (settings : Settings) : IO (Option Failure) := do
  match ← settingsDirectory? with
  | none => return some (.cannotSave "no config directory on this platform".toList)
  | some directory =>
    try
      IO.FS.createDirAll directory
      IO.FS.writeBinFile (directory ++ "/settings.json")
        ⟨(Text.Utf8.encode settings.write).toArray⟩
      return none
    catch error => return some (.cannotSave (systemMessage error).toList)

def report (outcome : Outcome) : IO UInt32 := do
  (← IO.getStdout).putStr (String.ofList outcome.output)
  (← IO.getStderr).putStr (String.ofList outcome.errors)
  return UInt32.ofNat outcome.exit

-- A record that cannot be written is lost, and playback goes on.
def sendOut (effects : List Player.Effect) : IO Unit := do
  let output ← IO.getStdout
  for record in emitted effects do
    try
      output.write ⟨(Framing.frame record).toArray⟩
      output.flush
    catch _ => pure ()

def lastDelay (effects : List Player.Effect) : Nat :=
  effects.foldl (fun delay effect => match effect with
    | .wake _ asked => asked
    | _ => delay) 0

-- A sleep is no longer than the system allows, so a long wait takes several.
def waitUntil (due : Nat) : IO Unit := do
  let mut now ← IO.monoNanosNow
  while now < due do
    IO.sleep (UInt32.ofNat (min ((due - now + 999999) / 1000000) 1000000000))
    now ← IO.monoNanosNow

def playInTime (player : Player) : IO Unit := do
  let mut asked ← IO.monoNanosNow
  let mut step := player.start asked
  sendOut step.effects
  while step.player.state = .playing do
    waitUntil (asked + lastDelay step.effects)
    match step.player.pending with
    | some token =>
      asked ← IO.monoNanosNow
      step := step.player.wake asked token
      sendOut step.effects
    | none => break

def play (files : Files) (file : Text) (options : PlayOptions) : IO UInt32 := do
  let settings := options.override (settingsOf files.settings)
  if options.save then
    if let some failure ← writeSettings settings then
      return ← report (fail failure files.settings)
  match readyPlayer files file settings options.start with
  | .error failure => report (fail failure files.settings)
  | .ok player =>
    playInTime player
    return 0

end VoyageLog.CommandLine

open VoyageLog VoyageLog.CommandLine in
def main (arguments : List String) : IO UInt32 := do
  let arguments := arguments.map String.toList
  let settings ← readSettings
  match read? arguments with
  | some (.play file options) =>
    let content ← readBytes (String.ofList file)
    play ⟨settings, fun _ => content⟩ file options
  | some (.scan file _) =>
    let content ← readBytes (String.ofList file)
    report (run ⟨settings, fun _ => content⟩ arguments)
  | _ => report (run ⟨settings, fun _ => .error ""⟩ arguments)
