import VoyageLog.Binary64.Arithmetic
import VoyageLog.Decimal.Notation

namespace VoyageLog.Json

open Text

-- The exponent's sign, true for minus, and its digits.
structure Number where
  negative : Bool
  whole : Text
  places : Option Text
  exponent : Option (Bool × Text)
deriving DecidableEq

namespace Number

def isWhole (digits : Text) : Bool :=
  !digits.isEmpty && (digits.head? ≠ some '0' || digits.length = 1)

def readPlaces (text : Text) : Option (Option Text × Text) :=
  match text with
  | '.' :: rest =>
    let (digits, after) := digitRun rest
    if digits.isEmpty then none else some (some digits, after)
  | _ => some (none, text)

def exponentSign (text : Text) : Bool × Text :=
  match text with
  | '-' :: rest => (true, rest)
  | '+' :: rest => (false, rest)
  | _ => (false, text)

def readExponent (text : Text) : Option (Option (Bool × Text)) :=
  match text with
  | [] => some none
  | mark :: rest =>
    if mark = 'e' || mark = 'E' then
      let (negative, digits) := exponentSign rest
      if !digits.isEmpty && allDigits digits then some (some (negative, digits)) else none
    else none

def read? (text : Text) : Option Number := do
  let negative : Bool := text.head? = some '-'
  let (whole, rest) := digitRun (if negative then text.tail else text)
  if isWhole whole then
    let (places, rest) ← readPlaces rest
    some ⟨negative, whole, places, ← readExponent rest⟩
  else none

def write (number : Number) : Text :=
  (if number.negative then ['-'] else []) ++ number.whole ++
    (match number.places with
      | none => []
      | some digits => '.' :: digits) ++
    (match number.exponent with
      | none => []
      | some (negative, digits) => 'e' :: (if negative then '-' else '+') :: digits)

def ofNat (value : Nat) : Number := ⟨false, decimal value, none, none⟩

-- In full from five places after the point to sixteen before it, and never without a place; beyond that as
-- one digit before the point. A tie between two shortest decimals goes to the even one.
def ofFinite (number : Binary64.Finite) : Number :=
  let placed := (Decimal.shortest .even number).placed
  if -5 < placed.before ∧ placed.before ≤ 16 then
    let (whole, places) := placed.written
    ⟨number.negative, whole, some (if places.isEmpty then ['0'] else places), none⟩
  else
    let power := placed.before - 1
    ⟨number.negative, placed.digits.take 1,
      if placed.digits.length = 1 then none else some (placed.digits.drop 1),
      some (power < 0, decimal power.natAbs)⟩

def greatestWord : Nat := 18446744073709551615

-- A whole number of 64 bits, written without sign, places or exponent.
def toWord? (number : Number) : Option Nat :=
  if number.negative || number.places.isSome || number.exponent.isSome then none
  else
    let value := Text.number number.whole
    if value ≤ greatestWord then some value else none

-- Takes digits on as long as the number fits a word, and gives back the others.
def gather (significand : Nat) : Text → Nat × Text
  | [] => (significand, [])
  | digit :: rest =>
    let grown := 10 * significand + (digit.toNat - '0'.toNat)
    if greatestWord < grown then (significand, digit :: rest) else gather grown rest

def powerOfTen (exponent : Nat) : Binary64 := Binary64.nearest (Decimal.tenTo exponent)

-- Division by a power of ten beyond the range is done in steps of the greatest one.
def divideDown (exponent : Nat) (number : Binary64) : Binary64 :=
  if exponent ≤ 308 then number / powerOfTen exponent
  else if number = Binary64.zero then number
  else divideDown (exponent - 308) (number / powerOfTen 308)
termination_by exponent

-- One multiplication or some divisions, each of them rounded. An infinite result is out of range.
def scale? (significand : Nat) (exponent : Int) : Option Binary64 :=
  let number := Binary64.ofNat significand
  if exponent < 0 then some (divideDown exponent.natAbs number)
  else if exponent ≤ 308 then
    let product := number * powerOfTen exponent.toNat
    if product.isFinite then some product else none
  else if significand = 0 then some number
  else none

def greatestExponent : Nat := 2147483647

def clampExponent (exponent : Int) : Int :=
  if exponent < -2147483648 then -2147483648
  else if 2147483647 < exponent then 2147483647
  else exponent

-- A written exponent on top of the one that the digits bring along.
def withExponent? (significand : Nat) (exponent : Int) (negative : Bool) (digits : Text) :
    Option Binary64 :=
  let written := Text.number digits
  if greatestExponent < written then
    if significand ≠ 0 && !negative then none else some Binary64.zero
  else
    scale? significand
      (clampExponent (if negative then exponent - (written : Int) else exponent + (written : Int)))

-- Whole numbers that fit a word are rounded once. All others keep the digits that fit a word and are scaled
-- by the place of the last of them: digits before the point that are left out count, those after it do not.
def magnitude? (number : Number) : Option Binary64 :=
  let (whole, left) := gather 0 number.whole
  match number.places, number.exponent with
  | none, none =>
    if left.isEmpty then some (Binary64.ofNat whole) else scale? whole left.length
  | places, exponent =>
    let digits := places.getD []
    let (significand, unread) := gather whole digits
    let power : Int := (left.length : Int) - ((digits.length : Int) - unread.length)
    match exponent with
    | none => scale? significand power
    | some (negative, written) => withExponent? significand power negative written

def toBinary64? (number : Number) : Option Binary64 :=
  number.magnitude?.map fun magnitude => if number.negative then -magnitude else magnitude

end Number

end VoyageLog.Json
