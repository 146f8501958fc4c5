import VoyageLog.Binary64.Arithmetic
import VoyageLog.Decimal.Shortest
import VoyageLog.Text.Digits

namespace VoyageLog.Decimal

open Text

-- A magnitude beyond the range needs no exact power of ten.
def Scaled.nearest (negative : Bool) (scaled : Scaled) : Binary64 :=
  let order := ((decimal scaled.digits).length : Int) + scaled.exponent
  if scaled.digits = 0 || order < -400 then .finite (Binary64.Finite.zero negative)
  else if 400 < order then .infinite negative
  else Binary64.nearestSigned negative scaled.value

-- The sign in front, true for minus, and the rest.
def signed (text : Text) : Bool × Text :=
  match text with
  | '-' :: rest => (true, rest)
  | '+' :: rest => (false, rest)
  | _ => (false, text)

-- The point and the digits after it, if there is one.
def places (text : Text) : Text × Text :=
  match text with
  | '.' :: rest => digitRun rest
  | _ => ([], text)

def exponent? (text : Text) : Option Int :=
  match text with
  | [] => some 0
  | mark :: rest =>
    if mark = 'e' || mark = 'E' then
      let (negative, digits) := signed rest
      if digits.isEmpty then none
      else if allDigits digits then
        some (if negative then -(number digits : Int) else (number digits : Int))
      else none
    else none

-- Digits with a point among them or not, and perhaps a power of ten.
def scaled? (text : Text) : Option Scaled := do
  let (whole, rest) := digitRun text
  let (part, rest) := places rest
  if whole.isEmpty && part.isEmpty then none
  else some ⟨number (whole ++ part), (← exponent? rest) - (part.length : Int)⟩

def named? (negative : Bool) (text : Text) : Option Binary64 :=
  let name := text.map Char.toLower
  if name = "inf".toList || name = "infinity".toList then some (.infinite negative)
  else if name = "nan".toList then some .nan
  else none

def read? (text : Text) : Option Binary64 :=
  let (negative, magnitude) := signed text
  match scaled? magnitude with
  | some scaled => some (scaled.nearest negative)
  | none => named? negative magnitude

end VoyageLog.Decimal
