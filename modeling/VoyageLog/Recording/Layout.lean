import VoyageLog.Calendar.Iso8601
import VoyageLog.Recording.Csv
import VoyageLog.Recording.Log

namespace VoyageLog

-- The columns of a table that hold the time and the message.
structure Columns where
  timestamp : Nat
  message : Nat
deriving DecidableEq

structure Row where
  timestamp : Option Instant
  message : Text
deriving DecidableEq

namespace Columns

structure Found where
  timestamp : Option Nat
  message : Option Nat

-- A heading that names both is one of timestamps.
def note (found : Found) (heading : Text) (index : Nat) : Found :=
  let plain := (Text.trim heading).map Char.toLower
  if Text.containsPart "timestamp".toList plain then { found with timestamp := some index }
  else if Text.containsPart "message".toList plain then { found with message := some index }
  else found

def noteAll (found : Found) (index : Nat) : List Text → Found
  | [] => found
  | heading :: rest => noteAll (note found heading index) (index + 1) rest

-- Of several fitting columns the last is taken. No header starts as a sentence does.
def ofHeader? (line : Text) : Option Columns := do
  let header := Text.trim line
  if header.head? = some '$' || header.head? = some '!' then none
  else
    let found := noteAll ⟨none, none⟩ 0 (← Csv.cells? header)
    some ⟨← found.timestamp, ← found.message⟩

-- A row needs its message; a time that cannot be read is no time.
def row? (columns : Columns) (line : Text) : Option Row := do
  let cells ← Csv.cells? line
  let message ← cells[columns.message]?
  some ⟨cells[columns.timestamp]?.bind Calendar.Iso8601.read?, message⟩

end Columns

inductive Layout
  | sentences
  | table (columns : Columns)
deriving DecidableEq

namespace Layout

def isTable : Layout → Bool
  | sentences => false
  | table _ => true

-- The layout that the first record shows, and the line at which the data starts.
def ofFirst (first : Record) : Layout × Nat :=
  match Columns.ofHeader? first.text with
  | some columns => (.table columns, first.line + 1)
  | none => (.sentences, first.line)

end Layout

-- Looks from the first line on and leaves the cursor where the data starts.
def Log.detectLayout (log : Log) : Option (Layout × Nat) × Log :=
  match (log.moveTo 0).read with
  | (none, atEnd) => (none, atEnd)
  | (some first, _) =>
    let found := Layout.ofFirst first
    (some found, log.moveTo found.2)

end VoyageLog
