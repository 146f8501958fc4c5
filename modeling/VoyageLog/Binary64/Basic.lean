namespace VoyageLog

-- One form for each finite number: the significand fills 53 bits unless the exponent is the least one.
def Binary64.Canonical (significand : Nat) (exponent : Int) : Prop :=
  significand < 9007199254740992 ∧ -1074 ≤ exponent ∧ exponent ≤ 971 ∧
    (4503599627370496 ≤ significand ∨ exponent = -1074)

instance (significand : Nat) (exponent : Int) : Decidable (Binary64.Canonical significand exponent) :=
  inferInstanceAs (Decidable (_ ∧ _))

structure Binary64.Finite where
  negative : Bool
  significand : Nat
  exponent : Int
  canonical : Binary64.Canonical significand exponent
deriving DecidableEq

inductive Binary64
  | nan
  | infinite (negative : Bool)
  | finite (number : Binary64.Finite)
deriving DecidableEq

namespace Binary64

-- Two to any whole exponent.
def twoTo (exponent : Int) : Rat :=
  if 0 ≤ exponent then ((1 <<< exponent.toNat : Nat) : Rat) else mkRat 1 (1 <<< (-exponent).toNat)

def Finite.magnitude (number : Finite) : Rat :=
  (number.significand : Rat) * twoTo number.exponent

-- Both zeros have the value zero.
def Finite.value (number : Finite) : Rat :=
  if number.negative then -number.magnitude else number.magnitude

def Finite.zero (negative : Bool) : Finite := ⟨negative, 0, -1074, by decide⟩

def Finite.one : Finite := ⟨false, 4503599627370496, -52, by decide⟩

def zero : Binary64 := .finite (Finite.zero false)

def one : Binary64 := .finite Finite.one

def isFinite : Binary64 → Bool
  | .finite _ => true
  | _ => false

-- The nearest whole number; a half goes to the even neighbour.
def roundHalfEven (exact : Rat) : Int :=
  let below := exact.floor
  let rest := exact - (below : Rat)
  if rest < 1 / 2 then below
  else if 1 / 2 < rest then below + 1
  else if below % 2 = 0 then below else below + 1

-- The exponent of the greatest power of two that a positive rational reaches.
def binaryExponent (exact : Rat) : Int :=
  let guess : Int := (exact.num.natAbs.log2 : Int) - (exact.den.log2 : Int)
  if exact < twoTo guess then guess - 1 else guess

-- The exponent at which the number nearest to a magnitude has its last place.
def lastPlace (magnitude : Rat) : Int :=
  if magnitude = 0 then -1074 else max (-1074) (binaryExponent magnitude - 52)

-- A significand rounded up to 54 bits moves to the next exponent; what then leaves the range is infinite.
def nearestSigned (negative : Bool) (magnitude : Rat) : Binary64 :=
  let place := lastPlace magnitude
  let rounded := (roundHalfEven (magnitude / twoTo place)).toNat
  let significand := if rounded = 9007199254740992 then 4503599627370496 else rounded
  let exponent := if rounded = 9007199254740992 then place + 1 else place
  if canonical : Canonical significand exponent then
    .finite ⟨negative, significand, exponent, canonical⟩
  else .infinite negative

def nearest (exact : Rat) : Binary64 :=
  if exact < 0 then nearestSigned true (-exact) else nearestSigned false exact

def ofInt (whole : Int) : Binary64 := nearest (whole : Rat)

def ofNat (whole : Nat) : Binary64 := nearest (whole : Rat)

end Binary64

end VoyageLog
