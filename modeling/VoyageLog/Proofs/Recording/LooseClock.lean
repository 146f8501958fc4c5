import VoyageLog.Recording.Clock

namespace VoyageLog

-- A clock that keeps each instant, and whether playback follows them, in a field of its own.
structure LooseClock where
  layout : Option Layout
  dataStart : Nat
  timed : Bool
  first : Option Instant
  last : Option Instant
  current : Option Instant
  primary : Option TimeSource
  inventory : TimeSource.Inventory

namespace LooseClock

def unknown : LooseClock := ⟨none, 0, false, none, none, none, none, []⟩

def isTimed (clock : LooseClock) : Bool :=
  clock.timed && clock.first.isSome && clock.last.isSome && clock.current.isSome

def span? (clock : LooseClock) : Option Int := do
  some ((← clock.last).since (← clock.first))

def elapsed? (clock : LooseClock) : Option Int := do
  some ((← clock.current).since (← clock.first))

-- The flag and the three instants are all set or all not.
structure InStep (clock : LooseClock) : Prop where
  first : clock.first.isSome = clock.timed
  last : clock.last.isSome = clock.timed
  current : clock.current.isSome = clock.timed

def tightened (clock : LooseClock) : Clock where
  layout := clock.layout
  dataStart := clock.dataStart
  timeline := do some ⟨← clock.first, ← clock.last, ← clock.current⟩
  primary := clock.primary
  inventory := clock.inventory

end LooseClock

namespace Clock

def loosened (clock : Clock) : LooseClock where
  layout := clock.layout
  dataStart := clock.dataStart
  timed := clock.isTimed
  first := clock.timeline.map (·.first)
  last := clock.timeline.map (·.last)
  current := clock.current?
  primary := clock.primary
  inventory := clock.inventory

variable (clock : Clock)

theorem inStep_loosened : clock.loosened.InStep := by
  constructor <;> apply Option.isSome_map

theorem tightened_loosened : clock.loosened.tightened = clock := by
  cases clock with
  | mk layout dataStart timeline primary inventory => cases timeline <;> rfl

-- A loose clock in step has been loosened from one clock only.
theorem loosened_tightened {clock : LooseClock} (h : clock.InStep) : clock.tightened.loosened = clock := by
  obtain ⟨layout, dataStart, timed, first, last, current, primary, inventory⟩ := clock
  obtain ⟨hfirst, hlast, hcurrent⟩ := h
  cases timed with
  | false =>
    obtain rfl : first = none := by simpa using hfirst
    obtain rfl : last = none := by simpa using hlast
    obtain rfl : current = none := by simpa using hcurrent
    rfl
  | true =>
    obtain ⟨first, rfl⟩ := Option.isSome_iff_exists.mp hfirst
    obtain ⟨last, rfl⟩ := Option.isSome_iff_exists.mp hlast
    obtain ⟨current, rfl⟩ := Option.isSome_iff_exists.mp hcurrent
    rfl

@[simp] theorem isTimed_loosened : clock.loosened.isTimed = clock.isTimed := by
  cases h : clock.timeline <;> simp [LooseClock.isTimed, loosened, isTimed, current?, h]

@[simp] theorem span?_loosened : clock.loosened.span? = clock.timeline.map (·.span) := by
  cases h : clock.timeline <;> simp [LooseClock.span?, loosened, h, Timeline.span]

@[simp] theorem elapsed?_loosened : clock.loosened.elapsed? = clock.timeline.map (·.elapsed) := by
  cases h : clock.timeline <;> simp [LooseClock.elapsed?, loosened, current?, h, Timeline.elapsed]

-- To write the instant that playback has reached keeps a clock whole only if it is timed.
theorem loosened_withCurrent (instant : Instant) (htimed : clock.isTimed) :
    { clock.loosened with current := some instant } = (clock.withCurrent instant).loosened := by
  obtain ⟨timeline, h⟩ := Option.isSome_iff_exists.mp htimed
  simp [loosened, withCurrent, isTimed, current?, h]

-- To write the first instant in its place always does.
theorem loosened_backToFirst :
    { clock.loosened with current := clock.loosened.first } = clock.backToFirst.loosened := by
  cases h : clock.timeline <;> simp [loosened, backToFirst, isTimed, current?, h]

end Clock

end VoyageLog
