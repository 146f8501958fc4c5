import VoyageLog.Text.Basic

namespace VoyageLog.Text

def allDigits (text : Text) : Bool := text.all Char.isDigit

-- The number that digits spell, most significant first.
def number (digits : Text) : Nat := Nat.ofDigitChars 10 digits 0

def decimal (value : Nat) : Text := Nat.toDigits 10 value

-- At least so many digits, zeros in front.
def padded (width : Nat) (value : Nat) : Text := (decimal value).leftpad width '0'

-- The longest run of digits in front, and the rest.
def digitRun (text : Text) : Text × Text := text.span Char.isDigit

-- Exactly so many digits in front, as a number, and the rest.
def readExactly (width : Nat) (text : Text) : Option (Nat × Text) :=
  let digits := text.take width
  if digits.length = width && allDigits digits then some (number digits, text.drop width) else none

-- From one digit to so many, as many as there are.
def readUpTo (width : Nat) (text : Text) : Option (Nat × Text) :=
  let digits := (digitRun text).1.take width
  if digits.isEmpty then none else some (number digits, text.drop digits.length)

end VoyageLog.Text
