import VoyageLog.Text.Basic

namespace VoyageLog.Json

-- A word is a name or a number. A text with half a character in it has no content.
inductive Token
  | listOpen
  | listClose
  | objectOpen
  | objectClose
  | comma
  | colon
  | text (content : Option Text)
  | word (letters : Text)
deriving DecidableEq

namespace Token

inductive Piece
  | character (c : Char)
  | half (code : Nat)

def Piece.ofCode (code : Nat) : Piece :=
  if 0xD800 ≤ code && code ≤ 0xDFFF then .half code else .character (Char.ofNat code)

-- A leading half and the trailing half right after it make one character.
def join? : List Piece → Option Text
  | [] => some []
  | .character c :: rest => (join? rest).map (c :: ·)
  | .half leading :: .half trailing :: rest =>
    if leading < 0xDC00 && 0xDC00 ≤ trailing then
      (join? rest).map (Char.ofNat (0x10000 + (leading - 0xD800) * 1024 + (trailing - 0xDC00)) :: ·)
    else none
  | .half _ :: _ => none

-- Where in a JSON text the reader is, with what it has read of a token, last first.
inductive Place
  | between
  | word (letters : Text)
  | text (pieces : List Piece)
  | escape (pieces : List Piece)
  | code (pieces : List Piece) (value : Nat) (digitsLeft : Nat)

def isBlank (c : Char) : Bool := c = ' ' || c = '\n' || c = '\t' || c = '\r'

def mark? (c : Char) : Option Token :=
  if c = '[' then some listOpen
  else if c = ']' then some listClose
  else if c = '\x7b' then some objectOpen
  else if c = '\x7d' then some objectClose
  else if c = ',' then some comma
  else if c = ':' then some colon
  else none

def escaped? (c : Char) : Option Char :=
  if c = '"' || c = '\\' || c = '/' then some c
  else if c = 'b' then some '\x08'
  else if c = 'f' then some '\x0c'
  else if c = 'n' then some '\n'
  else if c = 'r' then some '\r'
  else if c = 't' then some '\t'
  else none

def hexDigit? (c : Char) : Option Nat :=
  if c.isDigit then some (c.toNat - '0'.toNat)
  else if 'a' ≤ c && c ≤ 'f' then some (c.toNat - 'a'.toNat + 10)
  else if 'A' ≤ c && c ≤ 'F' then some (c.toNat - 'A'.toNat + 10)
  else none

-- Between tokens, a character that is no mark, quote or blank begins a word.
def stepBetween (c : Char) : Place × List Token :=
  match mark? c with
  | some token => (.between, [token])
  | none =>
    if c = '"' then (.text [], [])
    else if isBlank c then (.between, [])
    else (.word [c], [])

def endsWord (c : Char) : Bool := (mark? c).isSome || c = '"' || isBlank c

-- No text holds a control character as it stands.
def step? : Place → Char → Option (Place × List Token)
  | .between, c => some (stepBetween c)
  | .word letters, c =>
    if endsWord c then
      let (place, tokens) := stepBetween c
      some (place, word letters.reverse :: tokens)
    else some (.word (c :: letters), [])
  | .text pieces, c =>
    if c = '"' then some (.between, [text (join? pieces.reverse)])
    else if c = '\\' then some (.escape pieces, [])
    else if c.toNat < 32 then none
    else some (.text (.character c :: pieces), [])
  | .escape pieces, c =>
    if c = 'u' then some (.code pieces 0 3, [])
    else (escaped? c).map fun character => (.text (.character character :: pieces), [])
  | .code pieces value digitsLeft, c => do
    let value := value * 16 + (← hexDigit? c)
    match digitsLeft with
    | 0 => some (.text (Piece.ofCode value :: pieces), [])
    | left + 1 => some (.code pieces value left, [])

-- A text has to end, and a word ends with the input.
def readFrom? : Place → Text → Option (List Token)
  | .between, [] => some []
  | .word letters, [] => some [word letters.reverse]
  | .text _, [] | .escape _, [] | .code _ _ _, [] => none
  | place, c :: rest => do
    let (next, tokens) ← step? place c
    (readFrom? next rest).map (tokens ++ ·)

def readAll? (input : Text) : Option (List Token) := readFrom? .between input

end Token

end VoyageLog.Json
