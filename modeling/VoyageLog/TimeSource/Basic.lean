import VoyageLog.Calendar.Instant
import VoyageLog.Sentence.Kind
import VoyageLog.Text.Digits

namespace VoyageLog

-- Who tells the time, with what kind of sentence and to how many places of a second.
structure TimeSource where
  talker : Text
  kind : Sentence.Kind
  precision : Nat
deriving DecidableEq

namespace TimeSource

def label (source : TimeSource) : Text :=
  source.talker ++ source.kind.code ++ " (precision=".toList ++ Text.decimal source.precision ++ [')']

-- Sources that tell the date come before those that do not, and finer ones before coarser.
def score (source : TimeSource) : Nat :=
  (if source.kind.tellsDate then 10 else 0) + 2 * source.precision

-- What is known of a source from its sightings so far. The current instant is the one that the next sighting
-- is compared with.
structure Details where
  start : Instant
  current : Instant
  latest : Instant
  isChronological : Bool
deriving DecidableEq

def Details.first (instant : Instant) : Details := ⟨instant, instant, instant, true⟩

-- One step back is never forgotten.
def Details.sight (details : Details) (instant : Instant) : Details where
  start := details.start
  current := instant
  latest := instant
  isChronological := details.isChronological && details.current ≤ instant

end TimeSource

end VoyageLog
