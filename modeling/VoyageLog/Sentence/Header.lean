import VoyageLog.Sentence.Kind

namespace VoyageLog.Sentence

def isDelimiter (c : Char) : Bool := c = ',' || c = '*'

-- The head and the fields after it.
def fields (sentence : Text) : List Text := Text.pieces isDelimiter sentence

def head (sentence : Text) : Text := sentence.takeWhile (!isDelimiter ·)

-- Parametric sentences hold plain fields, encapsulated ones a coded message.
inductive Form
  | parametric
  | encapsulated
deriving DecidableEq

structure Address where
  talker : Text
  code : Text
deriving DecidableEq

structure Header where
  form : Form
  address : Address
deriving DecidableEq

def Form.mark : Form → Char
  | .parametric => '$'
  | .encapsulated => '!'

def Form.ofMark? (mark : Char) : Option Form :=
  if mark = '$' then some .parametric else if mark = '!' then some .encapsulated else none

def isAisTalker (talker : Text) : Bool :=
  talker = ['A', 'I'] || talker = ['A', 'B'] || talker = ['B', 'S']

-- Only AIS equipment sends encapsulated sentences.
def Form.allows (form : Form) (talker : Text) : Bool :=
  match form with
  | .parametric => true
  | .encapsulated => isAisTalker talker

-- The head of a sound sentence ends at a comma, and a star stands somewhere after that.
def hasChecksumMark (sentence : Text) : Bool :=
  match sentence.dropWhile (!isDelimiter ·) with
  | first :: rest => first = ',' && rest.contains '*'
  | [] => false

def Header.read? (sentence : Text) : Option Header :=
  match head sentence with
  | [mark, t₁, t₂, c₁, c₂, c₃] => do
    let form ← Form.ofMark? mark
    if [t₁, t₂, c₁, c₂, c₃].all Char.isUpper && form.allows [t₁, t₂] && hasChecksumMark sentence then
      some ⟨form, [t₁, t₂], [c₁, c₂, c₃]⟩
    else none
  | _ => none

def Header.kind? (header : Header) : Option Kind := Kind.ofCode? header.address.code

def isAscii (c : Char) : Bool := c.toNat < 128

-- Behind the head anything may stand.
def Address.ofParametric? (sentence : Text) : Option Address :=
  match head sentence with
  | ['$', t₁, t₂, c₁, c₂, c₃] =>
    if [t₁, t₂, c₁, c₂, c₃].all isAscii then some ⟨[t₁, t₂], [c₁, c₂, c₃]⟩ else none
  | _ => none

end VoyageLog.Sentence
