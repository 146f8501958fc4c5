import VoyageLog.Decimal.Shortest
import VoyageLog.Text.Digits

namespace VoyageLog.Decimal

open Binary64

-- A decimal as its digits and the number of them before the point, which may lie outside them.
structure Placed where
  digits : Text
  before : Int

def Scaled.placed (scaled : Scaled) : Placed :=
  let digits := Text.decimal scaled.digits
  ⟨digits, (digits.length : Int) + scaled.exponent⟩

def zeros (count : Int) : Text := List.replicate count.toNat '0'

-- The digits before the point, at least one, and those after it, if any.
def Placed.written (placed : Placed) : Text × Text :=
  if placed.before ≤ 0 then (['0'], zeros (-placed.before) ++ placed.digits)
  else if (placed.digits.length : Int) ≤ placed.before then
    (placed.digits ++ zeros (placed.before - placed.digits.length), [])
  else (placed.digits.take placed.before.toNat, placed.digits.drop placed.before.toNat)

-- All digits in full, and a point only before digits. A tie between two shortest decimals goes up.
def plain : Binary64 → Text
  | .nan => "NaN".toList
  | .infinite negative => if negative then "-inf".toList else "inf".toList
  | .finite number =>
    let (whole, places) := (shortest .up number).placed.written
    (if number.negative then ['-'] else []) ++ whole ++
      if places.isEmpty then [] else '.' :: places

end VoyageLog.Decimal
