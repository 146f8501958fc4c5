import VoyageLog.Binary64.Whole

namespace VoyageLog

open Binary64

namespace Speed

-- One tenth.
def slowest : Finite := ⟨false, 7205759403792794, -56, by decide⟩

-- One thousand.
def fastest : Finite := ⟨false, 8796093022208000, -43, by decide⟩

end Speed

structure Speed where
  rate : Finite
  in_range : Speed.slowest.value ≤ rate.value ∧ rate.value ≤ Speed.fastest.value

namespace Speed

theorem slowest_le_fastest : slowest.value ≤ fastest.value := by decide +kernel

-- The nearest speed in the range.
def clamp (rate : Finite) : Speed :=
  if low : rate.value < slowest.value then ⟨slowest, Rat.le_refl, slowest_le_fastest⟩
  else if high : fastest.value < rate.value then ⟨fastest, slowest_le_fastest, Rat.le_refl⟩
  else ⟨rate, Rat.not_lt.mp low, Rat.not_lt.mp high⟩

-- Only a finite positive number is a speed.
def ofNumber? : Binary64 → Option Speed
  | .finite rate => if 0 < rate.value then some (clamp rate) else none
  | _ => none

def realTime : Speed := clamp Finite.one

def toNumber (speed : Speed) : Binary64 := .finite speed.rate

-- Whole microseconds, counted in milliseconds where they do not fit a 64-bit word.
def wholeMicroseconds (nanoseconds : Int) : Int :=
  let exact := nanoseconds.tdiv 1000
  if leastWord ≤ exact ∧ exact ≤ greatestWord then exact
  else saturate (nanoseconds.tdiv 1000000 * 1000)

-- Microseconds on the wall for nanoseconds of the recording.
def wallMicroseconds (speed : Speed) (nanoseconds : Int) : Int :=
  (ofInt (wholeMicroseconds nanoseconds) / speed.toNumber).truncate

-- The nanoseconds in a second at this speed, to the nearest one.
def secondOnWall (speed : Speed) : Nat :=
  match Binary64.one / speed.toNumber with
  | .finite seconds => (roundHalfEven (seconds.value * 1000000000)).toNat
  | _ => 0

end Speed

end VoyageLog
