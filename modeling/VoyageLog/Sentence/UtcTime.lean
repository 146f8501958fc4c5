import VoyageLog.Calendar.Instant
import VoyageLog.Text.Blank
import VoyageLog.Text.Digits

namespace VoyageLog.Sentence

open Text

-- A time of day and how many places its seconds had, where no more than 255 are counted.
structure UtcTime where
  time : TimeOfDay
  precision : Nat
deriving DecidableEq

def milliseconds (fraction : Text) : Nat :=
  number ((fraction ++ ['0', '0', '0']).take 3)

-- What may follow the six digits of a time: nothing, or a point and digits.
def fractionOf? : Text → Option Text
  | [] => some []
  | '.' :: digits => if allDigits digits then some digits else none
  | _ => none

def UtcTime.read? (field : Text) : Option UtcTime := do
  let (hour, rest) ← readExactly 2 (trim field)
  let (minute, rest) ← readExactly 2 rest
  let (second, rest) ← readExactly 2 rest
  let fraction ← fractionOf? rest
  let time ← TimeOfDay.ofParts? hour minute second (milliseconds fraction * 1000000)
  some ⟨time, min fraction.length 255⟩

-- Two digits stand for a year from 1970 to 2069.
def fullYear (twoDigits : Nat) : Nat :=
  if 70 ≤ twoDigits then 1900 + twoDigits else 2000 + twoDigits

def recentDate? (year month day : Nat) : Option Date :=
  if 1900 ≤ year then Date.ofParts? year month day else none

-- Day, month and year of two digits each. ASCII characters may follow.
def dayMonthYear? (field : Text) : Option Date := do
  let bare := trim field
  if bare.all (·.toNat < 128) then
    let (day, rest) ← readExactly 2 bare
    let (month, rest) ← readExactly 2 rest
    let (year, _) ← readExactly 2 rest
    recentDate? (fullYear year) month day
  else none

-- Digits, perhaps with a plus sign before them.
def wholeNumber? (field : Text) : Option Nat :=
  let bare := trim field
  let digits := if bare.head? = some '+' then bare.tail else bare
  if digits.isEmpty then none else if allDigits digits then some (number digits) else none

def separateDate? (day month year : Text) : Option Date := do
  recentDate? (← wholeNumber? year) (← wholeNumber? month) (← wholeNumber? day)

end VoyageLog.Sentence
