import VoyageLog.Binary64.Arithmetic

namespace VoyageLog.Binary64

def leastWord : Int := -9223372036854775808

def greatestWord : Int := 9223372036854775807

def saturate (whole : Int) : Int :=
  if whole < leastWord then leastWord else if greatestWord < whole then greatestWord else whole

-- Toward zero.
def truncated (exact : Rat) : Int := exact.num.tdiv exact.den

-- To the nearest, a half away from zero.
def roundHalfAway (exact : Rat) : Int :=
  if exact < 0 then -((1 / 2 - exact).floor) else (exact + 1 / 2).floor

def toWordBy (whole : Rat → Int) : Binary64 → Int
  | .nan => 0
  | .infinite true => leastWord
  | .infinite false => greatestWord
  | .finite number => saturate (whole number.value)

def truncate : Binary64 → Int := toWordBy truncated

def round : Binary64 → Int := toWordBy roundHalfAway

end VoyageLog.Binary64
