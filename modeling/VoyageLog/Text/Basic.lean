namespace VoyageLog

abbrev Text := List Char

namespace Text

def dropEndWhile (p : Char → Bool) (text : Text) : Text :=
  (text.reverse.dropWhile p).reverse

def dropBothWhile (p : Char → Bool) (text : Text) : Text :=
  dropEndWhile p (text.dropWhile p)

-- The pieces between the marks, one more than there are marks.
def pieces {α : Type} (isMark : α → Bool) : List α → List (List α)
  | [] => [[]]
  | first :: rest =>
    if isMark first then [] :: pieces isMark rest
    else
      match pieces isMark rest with
      | [] => [[first]]
      | piece :: others => (first :: piece) :: others

-- The pieces that a line feed ends, and what follows the last line feed.
def terminated {α : Type} (isFeed : α → Bool) (text : List α) : List (List α) × List α :=
  ((pieces isFeed text).dropLast, (pieces isFeed text).getLastD [])

def dropReturn (text : Text) : Text :=
  if text.getLast? = some '\r' then text.dropLast else text

-- A line ends with a line feed and one carriage return before it. What follows the last line feed is a
-- line as it stands, unless it is empty.
def lines (text : Text) : List Text :=
  let (complete, remainder) := terminated (· == '\n') text
  complete.map dropReturn ++ if remainder.isEmpty then [] else [remainder]

def containsPart (part : Text) : Text → Bool
  | [] => part.isEmpty
  | first :: rest => part.isPrefixOf (first :: rest) || containsPart part rest

end Text

end VoyageLog
