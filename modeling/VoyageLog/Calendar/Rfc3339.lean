import VoyageLog.Calendar.Instant
import VoyageLog.Text.Digits

namespace VoyageLog.Calendar.Rfc3339

open Text

-- A year of four digits stands alone; any other has a sign and at least four digits.
def year (value : Int) : Text :=
  if 0 ≤ value ∧ value ≤ 9999 then padded 4 value.toNat
  else (if value < 0 then '-' else '+') :: padded 4 value.natAbs

def fraction (nano : Nat) : Text :=
  if nano = 0 then []
  else if nano % 1000000 = 0 then '.' :: padded 3 (nano / 1000000)
  else if nano % 1000 = 0 then '.' :: padded 6 (nano / 1000)
  else '.' :: padded 9 nano

def date (day : Int) : Text :=
  let (wholeYear, month, dayOfMonth) := civil day
  year wholeYear ++ '-' :: padded 2 month ++ '-' :: padded 2 dayOfMonth

def time (time : TimeOfDay) : Text :=
  let leap := 1000000000 ≤ time.nano
  let second := time.secondOfMinute + if leap then 1 else 0
  let nano := if leap then time.nano - 1000000000 else time.nano
  padded 2 time.hour ++ ':' :: padded 2 time.minute ++ ':' :: padded 2 second ++ fraction nano

-- Date and time without a zone.
def unzoned (instant : Instant) : Text := date instant.day ++ 'T' :: time instant.time

def withOffset (instant : Instant) : Text := unzoned instant ++ "+00:00".toList

def withZulu (instant : Instant) : Text := unzoned instant ++ ['Z']

end VoyageLog.Calendar.Rfc3339
