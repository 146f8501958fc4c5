import VoyageLog.Text.Basic

namespace VoyageLog

namespace Sentence

-- The kinds of sentence that tell the time.
inductive Kind
  | rmc
  | zda
  | gll
  | gga
  | gbs
deriving DecidableEq

namespace Kind

def code : Kind → Text
  | rmc => ['R', 'M', 'C']
  | zda => ['Z', 'D', 'A']
  | gll => ['G', 'L', 'L']
  | gga => ['G', 'G', 'A']
  | gbs => ['G', 'B', 'S']

def all : List Kind := [rmc, zda, gll, gga, gbs]

def ofCode? (code : Text) : Option Kind := all.find? (·.code = code)

-- Whether the sentence tells the date as well.
def tellsDate : Kind → Bool
  | rmc | zda => true
  | gll | gga | gbs => false

theorem ofCode?_code (kind : Kind) : ofCode? kind.code = some kind := by
  cases kind <;> rfl

end Kind

end Sentence

end VoyageLog
