import VoyageLog.Binary64.Basic

namespace VoyageLog.Decimal

open Binary64

-- A whole number of some power of ten.
structure Scaled where
  digits : Nat
  exponent : Int
deriving DecidableEq

-- Which of two equally near decimals is taken.
inductive Tie
  | even
  | up
deriving DecidableEq

def tenTo (exponent : Int) : Rat :=
  if 0 ≤ exponent then ((Nat.pow 10 exponent.toNat : Nat) : Rat) else mkRat 1 (Nat.pow 10 (-exponent).toNat)

def Scaled.value (scaled : Scaled) : Rat := (scaled.digits : Rat) * tenTo scaled.exponent

-- Below a power of two the neighbour is half as far as above it.
def lowerGap (number : Finite) : Rat :=
  if number.significand = 4503599627370496 ∧ number.exponent ≠ -1074 then 1 / 4 else 1 / 2

def lowerEnd (number : Finite) : Rat :=
  ((number.significand : Rat) - lowerGap number) * twoTo number.exponent

def upperEnd (number : Finite) : Rat :=
  ((number.significand : Rat) + 1 / 2) * twoTo number.exponent

-- Whether a magnitude rounds to that of the number.
def readsBack (number : Finite) (magnitude : Rat) : Bool :=
  if number.significand % 2 = 0 then
    decide (lowerEnd number ≤ magnitude ∧ magnitude ≤ upperEnd number)
  else decide (lowerEnd number < magnitude ∧ magnitude < upperEnd number)

-- The neighbour on a grid that reads back, if there is one.
def onGrid? (tie : Tie) (number : Finite) (exponent : Int) : Option Scaled :=
  let steps := number.magnitude / tenTo exponent
  let below : Scaled := ⟨steps.floor.toNat, exponent⟩
  let above : Scaled := ⟨steps.floor.toNat + 1, exponent⟩
  let rest := steps - (steps.floor : Rat)
  match 0 < below.digits && readsBack number below.value, readsBack number above.value with
  | true, true =>
    if rest < 1 / 2 then some below
    else if 1 / 2 < rest then some above
    else
      match tie with
      | .even => if below.digits % 2 = 0 then some below else some above
      | .up => some above
  | true, false => some below
  | false, true => some above
  | false, false => none

-- Seventeen digits always read back, so the grids that are left suffice.
def onGridsFrom (tie : Tie) (number : Finite) (exponent : Int) : Nat → Scaled
  | 0 => ⟨(number.magnitude / tenTo exponent).floor.toNat, exponent⟩
  | grids + 1 =>
    match onGrid? tie number exponent with
    | some scaled => scaled
    | none => onGridsFrom tie number (exponent - 1) grids

-- No decimal on a coarser grid than the first one is near enough.
def coarsest (number : Finite) : Int :=
  (binaryExponent number.magnitude + 2) * 30103 / 100000 + 1

def shortest (tie : Tie) (number : Finite) : Scaled :=
  if number.significand = 0 then ⟨0, 0⟩ else onGridsFrom tie number (coarsest number) 24

end VoyageLog.Decimal
