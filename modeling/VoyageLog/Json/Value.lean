import VoyageLog.Json.Number
import VoyageLog.Json.Token

namespace VoyageLog

inductive Json
  | null
  | bool (value : Bool)
  | number (value : Json.Number)
  | text (content : Option Text)
  | list (items : List Json)
  | object (members : List (Option Text × Json))

namespace Json

def ofWord? (letters : Text) : Option Json :=
  if letters = "null".toList then some null
  else if letters = "true".toList then some (bool true)
  else if letters = "false".toList then some (bool false)
  else (Number.read? letters).map number

-- A list or object begun, with what it holds so far, last first.
inductive Frame
  | items (items : List Json)
  | members (members : List (Option Text × Json))
  | member (members : List (Option Text × Json)) (name : Option Text)

-- What has to come next.
inductive Place
  | value
  | firstItem
  | firstName
  | name
  | colon
  | more
  | nothing (value : Json)

-- What is begun is kept on a stack, so that values nest as deep as they like.
structure Reader where
  place : Place
  stack : List Frame

namespace Reader

-- A value is complete.
def complete (value : Json) : List Frame → Option Reader
  | [] => some ⟨.nothing value, []⟩
  | .items items :: stack => some ⟨.more, .items (value :: items) :: stack⟩
  | .member members name :: stack => some ⟨.more, .members ((name, value) :: members) :: stack⟩
  | .members _ :: _ => none

def beginValue (stack : List Frame) : Token → Option Reader
  | .listOpen => some ⟨.firstItem, .items [] :: stack⟩
  | .objectOpen => some ⟨.firstName, .members [] :: stack⟩
  | .text content => complete (text content) stack
  | .word letters => (ofWord? letters).bind fun value => complete value stack
  | .listClose | .objectClose | .comma | .colon => none

def step? (reader : Reader) (token : Token) : Option Reader :=
  match reader.place, token, reader.stack with
  | .firstItem, .listClose, .items items :: stack => complete (list items.reverse) stack
  | .firstName, .objectClose, .members members :: stack => complete (object members.reverse) stack
  | .firstName, .text content, .members members :: stack
  | .name, .text content, .members members :: stack =>
    some ⟨.colon, .member members content :: stack⟩
  | .colon, .colon, stack => some ⟨.value, stack⟩
  | .more, .comma, .items items :: stack => some ⟨.value, .items items :: stack⟩
  | .more, .comma, .members members :: stack => some ⟨.name, .members members :: stack⟩
  | .more, .listClose, .items items :: stack => complete (list items.reverse) stack
  | .more, .objectClose, .members members :: stack => complete (object members.reverse) stack
  | .value, token, stack | .firstItem, token, stack => beginValue stack token
  | _, _, _ => none

def result? (reader : Reader) : Option Json :=
  match reader.place with
  | .nothing value => some value
  | _ => none

end Reader

def ofTokens? (tokens : List Token) : Option Json := do
  (← tokens.foldlM Reader.step? ⟨.value, []⟩).result?

def read? (input : Text) : Option Json := do
  ofTokens? (← Token.readAll? input)

-- The member of a name, if there is one. None at all if there are two.
def member? (name : Text) (members : List (Option Text × Json)) : Option (Option Json) :=
  match members.filter (·.1 = some name) with
  | [] => some none
  | [(_, value)] => some (some value)
  | _ => none

end Json

end VoyageLog
