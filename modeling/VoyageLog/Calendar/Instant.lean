import VoyageLog.Calendar.Date

namespace VoyageLog

open Calendar

-- A leap second is the second before it carried on: its nanoseconds run from one to two thousand million.
structure TimeOfDay where
  second : Nat
  nano : Nat
  in_range : second < 86400 ∧ nano < 2000000000
deriving DecidableEq

structure Instant where
  day : Int
  second : Nat
  nano : Nat
  in_range : firstDay ≤ day ∧ day ≤ lastDay ∧ second < 86400 ∧ nano < 2000000000
deriving DecidableEq

namespace TimeOfDay

def ofParts? (hour minute second nano : Nat) : Option TimeOfDay :=
  if h : hour < 24 ∧ minute < 60 ∧ second < 60 ∧ nano < 2000000000 then
    some ⟨hour * 3600 + minute * 60 + second, nano, by omega, h.2.2.2⟩
  else none

def hour (time : TimeOfDay) : Nat := time.second / 3600

def minute (time : TimeOfDay) : Nat := time.second / 60 % 60

def secondOfMinute (time : TimeOfDay) : Nat := time.second % 60

end TimeOfDay

namespace Instant

def onDate (date : Date) (time : TimeOfDay) : Instant where
  day := date.dayNumber
  second := time.second
  nano := time.nano
  in_range := ⟨date.dayNumber_mem.1, date.dayNumber_mem.2, time.in_range.1, time.in_range.2⟩

def time (instant : Instant) : TimeOfDay :=
  ⟨instant.second, instant.nano, instant.in_range.2.2.1, instant.in_range.2.2.2⟩

def ofParts? (day : Int) (second nano : Nat) : Option Instant :=
  if h : firstDay ≤ day ∧ day ≤ lastDay ∧ second < 86400 ∧ nano < 2000000000 then
    some ⟨day, second, nano, h⟩
  else none

-- So many seconds after 1970 began, and nanoseconds.
def ofUnix? (seconds : Int) (nano : Nat) : Option Instant :=
  ofParts? (719162 + seconds / 86400) (seconds % 86400).toNat nano

def isLeapSecond (instant : Instant) : Bool := 1000000000 ≤ instant.nano

-- By day, second of the day and nanosecond, in this order.
def Before (left right : Instant) : Prop :=
  left.day < right.day ∨ left.day = right.day ∧
    (left.second < right.second ∨ left.second = right.second ∧ left.nano < right.nano)

instance : LT Instant := ⟨Before⟩

instance : LE Instant := ⟨fun left right => ¬right < left⟩

instance (left right : Instant) : Decidable (left < right) :=
  inferInstanceAs (Decidable (_ ∨ _))

instance (left right : Instant) : Decidable (left ≤ right) :=
  inferInstanceAs (Decidable (¬_))

-- A leap second that lies between two times of day counts as a second between them.
def leapCount (left right : Instant) : Int :=
  if right.second < left.second && right.isLeapSecond then 1
  else if left.second < right.second && left.isLeapSecond then -1
  else 0

-- Nanoseconds from the second instant to the first.
def since (left right : Instant) : Int :=
  ((left.day - right.day) * 86400 + ((left.second : Int) - right.second) + leapCount left right) *
    1000000000 + ((left.nano : Int) - right.nano)

-- Where whole nanoseconds after an ordinary instant lie, day by day.
def advance? (day : Int) (second : Int) (nano : Int) : Option Instant :=
  let seconds := second + nano / 1000000000
  ofParts? (day + seconds / 86400) (seconds % 86400).toNat (nano % 1000000000).toNat

-- A leap second is left behind by a move of a second, or out of its own nanoseconds; forward it counts
-- as the second that it carries on, backward as the one that follows.
def add? (instant : Instant) (nanoseconds : Int) : Option Instant :=
  let nano : Int := instant.nano
  if instant.isLeapSecond then
    if 2000000000 ≤ nano + nanoseconds then
      advance? instant.day instant.second (nano - 1000000000 + nanoseconds)
    else if nanoseconds ≤ -1000000000 then
      advance? instant.day (instant.second + 1) (nano - 1000000000 + nanoseconds)
    else
      ofParts? instant.day instant.second (nano + nanoseconds).toNat
  else advance? instant.day instant.second (nano + nanoseconds)

end Instant

end VoyageLog
