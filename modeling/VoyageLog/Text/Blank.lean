import VoyageLog.Text.Basic

namespace VoyageLog.Text

-- First and last code point of each range.
def blankRanges : List (Nat × Nat) :=
  [(0x09, 0x0D), (0x20, 0x20), (0x85, 0x85), (0xA0, 0xA0), (0x1680, 0x1680), (0x2000, 0x200A),
    (0x2028, 0x2029), (0x202F, 0x202F), (0x205F, 0x205F), (0x3000, 0x3000)]

def isBlank (c : Char) : Bool :=
  blankRanges.any fun (lowest, highest) => lowest ≤ c.toNat && c.toNat ≤ highest

def trim (text : Text) : Text := dropBothWhile isBlank text

end VoyageLog.Text
