import VoyageLog.Binary64.Basic

namespace VoyageLog.Binary64

def isNegative : Binary64 → Bool
  | .nan => false
  | .infinite negative => negative
  | .finite number => number.negative

-- Zero times infinity has no value; the sign of every other product is the product of the signs.
def mul (left right : Binary64) : Binary64 :=
  let negative := left.isNegative != right.isNegative
  match left, right with
  | .nan, _ | _, .nan => .nan
  | .infinite _, .infinite _ => .infinite negative
  | .infinite _, .finite factor | .finite factor, .infinite _ =>
    if factor.significand = 0 then .nan else .infinite negative
  | .finite first, .finite second => nearestSigned negative (first.magnitude * second.magnitude)

-- Zero by zero and infinity by infinity have no value; anything else by zero is infinite.
def div (dividend divisor : Binary64) : Binary64 :=
  let negative := dividend.isNegative != divisor.isNegative
  match dividend, divisor with
  | .nan, _ | _, .nan => .nan
  | .infinite _, .infinite _ => .nan
  | .infinite _, .finite _ => .infinite negative
  | .finite _, .infinite _ => .finite (Finite.zero negative)
  | .finite first, .finite second =>
    if second.significand = 0 then
      if first.significand = 0 then .nan else .infinite negative
    else nearestSigned negative (first.magnitude / second.magnitude)

def neg : Binary64 → Binary64
  | .nan => .nan
  | .infinite negative => .infinite (!negative)
  | .finite number => .finite { number with negative := !number.negative }

instance : Mul Binary64 := ⟨mul⟩
instance : Div Binary64 := ⟨div⟩
instance : Neg Binary64 := ⟨neg⟩

-- Equality of numbers: what has no value equals nothing, and the two zeros are equal.
def sameNumber : Binary64 → Binary64 → Bool
  | .finite left, .finite right => left.value = right.value
  | .infinite left, .infinite right => left = right
  | _, _ => false

-- Whether a number lies between two finite ones, ends included. No value, no place.
def within (lower upper : Finite) : Binary64 → Bool
  | .finite number => decide (lower.value ≤ number.value ∧ number.value ≤ upper.value)
  | _ => false

-- A number outside the bounds moves to the nearer one. What has no value keeps none.
def clamp (lower upper : Finite) : Binary64 → Binary64
  | .nan => .nan
  | .infinite true => .finite lower
  | .infinite false => .finite upper
  | .finite number =>
    if number.value < lower.value then .finite lower
    else if upper.value < number.value then .finite upper
    else .finite number

end VoyageLog.Binary64
