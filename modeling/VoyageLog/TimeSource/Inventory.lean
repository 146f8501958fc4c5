import VoyageLog.TimeSource.Basic

namespace VoyageLog.TimeSource

abbrev Inventory := List (TimeSource × Details)

namespace Inventory

def sight (inventory : Inventory) (source : TimeSource) (instant : Instant) : Inventory :=
  match inventory with
  | [] => [(source, Details.first instant)]
  | (seen, details) :: rest =>
    if seen = source then (seen, details.sight instant) :: rest
    else (seen, details) :: sight rest source instant

def get? (inventory : Inventory) (source : TimeSource) : Option Details :=
  (inventory.find? (·.1 = source)).map (·.2)

-- A source that goes back in time is passed over, and one that is no better than the best so far.
def better (best : Option TimeSource) (entry : TimeSource × Details) : Option TimeSource :=
  if entry.2.isChronological then
    match best with
    | none => some entry.1
    | some source => if source.score < entry.1.score then some entry.1 else some source
  else best

-- Of the best sources the one that was seen first.
def primary? (inventory : Inventory) : Option TimeSource :=
  inventory.foldl better none

end Inventory

end VoyageLog.TimeSource
