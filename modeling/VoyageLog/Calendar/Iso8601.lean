import VoyageLog.Calendar.Instant
import VoyageLog.Text.Blank
import VoyageLog.Text.Digits

namespace VoyageLog.Calendar.Iso8601

open Text

def literal (mark : Char) : Text → Option Text
  | first :: rest => if first = mark then some rest else none
  | [] => none

-- The first nine digits after the point count; the others are passed over.
def fraction (text : Text) : Option (Nat × Text) :=
  match text with
  | '.' :: rest =>
    let (digits, after) := digitRun rest
    if digits.isEmpty then none
    else some (number ((digits ++ List.replicate 9 '0').take 9), after)
  | _ => some (0, text)

-- Second 60 is second 59 carried on.
def timeOfDay? (hour minute second nano : Nat) : Option TimeOfDay :=
  if second = 60 then TimeOfDay.ofParts? hour minute 59 (nano + 1000000000)
  else TimeOfDay.ofParts? hour minute second nano

-- Seconds east of UTC.
def offset : Text → Option (Int × Text)
  | 'Z' :: rest | 'z' :: rest => some (0, rest)
  | sign :: rest => do
    let east ←
      if sign = '+' then some true
      else if sign = '-' || sign = '\u2212' then some false
      else none
    let (hours, rest) ← readExactly 2 rest
    let rest ← literal ':' rest
    let (minutes, rest) ← readExactly 2 rest
    if hours < 24 ∧ minutes < 60 then
      let seconds : Int := hours * 3600 + minutes * 60
      some (if east then seconds else -seconds, rest)
    else none
  | [] => none

def separator : Text → Option Text
  | first :: rest => if first = 'T' || first = 't' || first = ' ' then some rest else none
  | [] => none

-- The instant at which clocks so many seconds east of UTC show a date and time.
def shifted? (date : Date) (time : TimeOfDay) (east : Int) : Option Instant :=
  let second : Int := time.second - east
  Instant.ofParts? (date.dayNumber + second / 86400) (second % 86400).toNat time.nano

def zoned? (text : Text) : Option Instant := do
  let (year, text) ← readExactly 4 text
  let text ← literal '-' text
  let (month, text) ← readExactly 2 text
  let text ← literal '-' text
  let (day, text) ← readExactly 2 text
  let text ← separator text
  let (hour, text) ← readExactly 2 text
  let text ← literal ':' text
  let (minute, text) ← readExactly 2 text
  let text ← literal ':' text
  let (second, text) ← readExactly 2 text
  let (nano, text) ← fraction text
  let (east, text) ← offset text
  if text.isEmpty then
    let date ← Date.ofParts? year month day
    let time ← timeOfDay? hour minute second nano
    shifted? date time east
  else none

-- One or two digits, blanks before them.
def shortNumber (text : Text) : Option (Nat × Text) :=
  readUpTo 2 (text.dropWhile isBlank)

-- Up to four digits, or a sign and any number of digits; blanks before them.
def signedYear (text : Text) : Option (Int × Text) :=
  match text.dropWhile isBlank with
  | '-' :: rest => (readUpTo rest.length rest).map fun (year, after) => (-(year : Int), after)
  | '+' :: rest => (readUpTo rest.length rest).map fun (year, after) => ((year : Int), after)
  | digits => (readUpTo 4 digits).map fun (year, after) => ((year : Int), after)

-- Without an offset a time is one in UTC.
def local? (text : Text) : Option Instant := do
  let (year, text) ← signedYear text
  let text ← literal '-' text
  let (month, text) ← shortNumber text
  let text ← literal '-' text
  let (day, text) ← shortNumber text
  let text ← literal 'T' text
  let (hour, text) ← shortNumber text
  let text ← literal ':' text
  let (minute, text) ← shortNumber text
  let text ← literal ':' text
  let (second, text) ← shortNumber text
  let (nano, text) ← fraction text
  if text.isEmpty then
    let date ← Date.ofParts? year month day
    let time ← timeOfDay? hour minute second nano
    some (Instant.onDate date time)
  else none

-- Blanks and then quotes are taken off both ends first.
def read? (text : Text) : Option Instant :=
  let bare := dropBothWhile (· == '"') (trim text)
  zoned? bare <|> local? bare

end VoyageLog.Calendar.Iso8601
