import VoyageLog.Decimal.Read

namespace VoyageLog.CommandLine

structure PlayOptions where
  speed : Option Binary64
  start : Binary64
  anySource : Bool
  save : Bool

inductive Request
  | scan (file : Text) (asJson : Bool)
  | play (file : Text) (options : PlayOptions)
  | help
  | version

-- The flags and options that a command knows.
inductive Flag
  | json
  | anySource
  | save
deriving DecidableEq

inductive Setting
  | speed
  | start
deriving DecidableEq

inductive Command
  | scan
  | play
deriving DecidableEq

namespace Command

def flag? : Command → Text → Option Flag
  | scan, name => if name = "json".toList then some .json else none
  | play, name =>
    if name = "any-source".toList then some .anySource
    else if name = "save".toList then some .save
    else none

def option? : Command → Text → Option Setting
  | scan, _ => none
  | play, name =>
    if name = "speed".toList then some .speed
    else if name = "from".toList then some .start
    else none

end Command

-- What the arguments so far have given. An option that was named waits for its value.
structure Given where
  file : Option Text
  flags : List Flag
  values : List (Setting × Binary64)
  waiting : Option Setting
  onlyFiles : Bool

-- What one argument leads to: on with the next, an answer at once, or a refusal.
inductive Verdict
  | goOn (given : Given)
  | answer (request : Request)
  | refuse

namespace Given

def empty : Given := ⟨none, [], [], none, false⟩

-- Nothing may be given twice.
def withFlag (given : Given) (flag : Flag) : Verdict :=
  if given.flags.contains flag then .refuse else .goOn { given with flags := flag :: given.flags }

def withValue (given : Given) (option : Setting) (text : Text) : Verdict :=
  match Decimal.read? text with
  | some number => .goOn { given with values := (option, number) :: given.values, waiting := none }
  | none => .refuse

def isGiven (given : Given) (option : Setting) : Bool := given.values.any (·.1 = option)

-- One file, and not the empty name.
def withFile (given : Given) (text : Text) : Verdict :=
  if given.file.isSome || text.isEmpty then .refuse else .goOn { given with file := some text }

-- An argument with two hyphens in front: a name, and perhaps a value after an equals sign.
def withLong (command : Command) (given : Given) (text : Text) : Verdict :=
  let name := text.takeWhile (· ≠ '=')
  let value := text.dropWhile (· ≠ '=')
  match command.flag? name, command.option? name with
  | some flag, _ => if value.isEmpty then given.withFlag flag else .refuse
  | none, some option =>
    if given.isGiven option then .refuse
    else if value.isEmpty then .goOn { given with waiting := some option }
    else given.withValue option value.tail
  | none, none => if text = "help".toList then .answer .help else .refuse

-- A single hyphen is a file or a value like any other text.
def take (command : Command) (given : Given) (argument : Text) : Verdict :=
  if given.onlyFiles then given.withFile argument
  else
    match argument, given.waiting with
    | '-' :: _ :: _, some _ => .refuse
    | ['-', '-'], none => .goOn { given with onlyFiles := true }
    | '-' :: '-' :: text, none => withLong command given text
    | '-' :: first :: _, none => if first = 'h' then .answer .help else .refuse
    | text, some option => given.withValue option text
    | text, none => given.withFile text

-- The first argument that is wrong decides, unless one before it was answered at once.
def takeAll (command : Command) (given : Given) : List Text → Verdict
  | [] => if given.waiting.isSome then .refuse else .goOn given
  | argument :: rest =>
    match take command given argument with
    | .goOn next => takeAll command next rest
    | verdict => verdict

def value? (given : Given) (option : Setting) : Option Binary64 :=
  (given.values.find? (·.1 = option)).map (·.2)

def request? (command : Command) (given : Given) : Option Request :=
  given.file.map fun file =>
    match command with
    | .scan => .scan file (given.flags.contains .json)
    | .play =>
      .play file ⟨given.value? .speed, (given.value? .start).getD Binary64.zero,
        given.flags.contains .anySource, given.flags.contains .save⟩

end Given

def readCommand? (command : Command) (arguments : List Text) : Option Request :=
  match Given.takeAll command Given.empty arguments with
  | .goOn given => given.request? command
  | .answer request => some request
  | .refuse => none

def isCommandName (name : Text) : Bool :=
  name = "scan".toList || name = "play".toList || name = "help".toList

def readHelp? : List Text → Option Request
  | [] => some .help
  | [name] => if isCommandName name then some .help else none
  | _ => none

def read? : List Text → Option Request
  | [] => none
  | first :: rest =>
    if first = "scan".toList then readCommand? .scan rest
    else if first = "play".toList then readCommand? .play rest
    else if first = "help".toList then readHelp? rest
    else if first = "--help".toList || "-h".toList.isPrefixOf first then some .help
    else if first = "--version".toList || "-V".toList.isPrefixOf first then some .version
    else none

end VoyageLog.CommandLine
