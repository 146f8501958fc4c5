import VoyageLog.Binary64.Basic

namespace VoyageLog.Player

-- What a player is set up with: how fast it plays, whether only the primary source paces it, and how many
-- records it holds back at most.
structure Config where
  speed : Binary64
  lockPrimary : Bool
  capacity : Nat
deriving DecidableEq

def Config.default : Config := ⟨Binary64.one, true, 1000⟩

end VoyageLog.Player
