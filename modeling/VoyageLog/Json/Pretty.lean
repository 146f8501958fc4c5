import VoyageLog.Json.Value

namespace VoyageLog.Json

-- Quotes, backslashes and control characters are escaped.
def escape (c : Char) : Text :=
  if c = '"' then ['\\', '"']
  else if c = '\\' then ['\\', '\\']
  else if c = '\x08' then ['\\', 'b']
  else if c = '\x0c' then ['\\', 'f']
  else if c = '\n' then ['\\', 'n']
  else if c = '\r' then ['\\', 'r']
  else if c = '\t' then ['\\', 't']
  else if c.toNat < 32 then ['\\', 'u', '0', '0', Nat.digitChar (c.toNat / 16), Nat.digitChar (c.toNat % 16)]
  else [c]

def quote (content : Text) : Text := '"' :: content.flatMap escape ++ ['"']

def newLine (level : Nat) : Text := '\n' :: List.replicate (2 * level) ' '

-- Brackets around what has a line each, and nothing between them around nothing.
def enclose (opening closing : Char) (level : Nat) (entries : List Text) : Text :=
  if entries.isEmpty then [opening, closing]
  else
    opening :: [','].intercalate (entries.map (newLine (level + 1) ++ ·)) ++ newLine level ++ [closing]

mutual

-- A text without content is written as null.
def prettyAt (level : Nat) : Json → Text
  | null => "null".toList
  | bool value => if value then "true".toList else "false".toList
  | number value => value.write
  | text none => "null".toList
  | text (some content) => quote content
  | list items => enclose '[' ']' level (prettyItems (level + 1) items)
  | object members => enclose '\x7b' '\x7d' level (prettyMembers (level + 1) members)

def prettyItems (level : Nat) : List Json → List Text
  | [] => []
  | item :: rest => prettyAt level item :: prettyItems level rest

def prettyMembers (level : Nat) : List (Option Text × Json) → List Text
  | [] => []
  | (name, value) :: rest =>
    (quote (name.getD []) ++ ':' :: ' ' :: prettyAt level value) :: prettyMembers level rest

end

def pretty (value : Json) : Text := prettyAt 0 value

end VoyageLog.Json
