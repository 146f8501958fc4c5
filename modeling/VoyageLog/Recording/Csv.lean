import VoyageLog.Text.Basic

namespace VoyageLog.Csv

-- Where in a cell the reader is.
inductive Place
  | atStart
  | bare
  | quoted
  | afterQuote

-- What one character does to a cell.
inductive Action
  | keep (next : Place)
  | skip (next : Place)
  | endCell
  | endRow

def endsRow (c : Char) : Bool := c = '\r' || c = '\n'

def bareAction (c : Char) : Action :=
  if c = ',' then .endCell else if endsRow c then .endRow else .keep .bare

-- Quotes count at the very start of a cell only; inside them a quote is written twice.
def action : Place → Char → Action
  | .atStart, c => if c = '"' then .skip .quoted else bareAction c
  | .bare, c => bareAction c
  | .quoted, c => if c = '"' then .skip .afterQuote else .keep .quoted
  | .afterQuote, c => if c = '"' then .keep .quoted else bareAction c

-- The rest of the cell that the reader is in, and the cells after it.
def cellsFrom : Place → Text → Text × List Text
  | _, [] => ([], [])
  | place, c :: rest =>
    match action place c with
    | .keep next =>
      let (cell, others) := cellsFrom next rest
      (c :: cell, others)
    | .skip next => cellsFrom next rest
    | .endCell =>
      let (cell, others) := cellsFrom .atStart rest
      ([], cell :: others)
    | .endRow => ([], [])

-- A byte order mark and line ends before the row do not belong to it.
def rowText (text : Text) : Text :=
  (if text.head? = some '\uFEFF' then text.tail else text).dropWhile endsRow

-- No row where nothing is left.
def cells? (text : Text) : Option (List Text) :=
  let row := rowText text
  if row.isEmpty then none
  else
    let (cell, others) := cellsFrom .atStart row
    some (cell :: others)

end VoyageLog.Csv
