import VoyageLog.Binary64.Basic

namespace VoyageLog.Binary64

-- A significand of 53 bits leaves its first bit out and counts its exponent from one.
def Finite.magnitudeBits (number : Finite) : Nat :=
  if number.significand < 4503599627370496 then number.significand
  else (number.exponent + 1075).toNat * 4503599627370496 + (number.significand - 4503599627370496)

def signBit (negative : Bool) : Nat := if negative then 9223372036854775808 else 0

def toBits : Binary64 → Nat
  | .nan => 9221120237041090560
  | .infinite negative => signBit negative + 9218868437227405312
  | .finite number => signBit number.negative + number.magnitudeBits

end VoyageLog.Binary64
