import VoyageLog.Text.Basic

namespace VoyageLog.Text.Utf8

def replacement : Char := '\uFFFD'

-- What is known of a character whose later bytes are still to come. The next byte has bounds of its own,
-- which keep out overlong forms, surrogates and values above the last code point.
structure Opening where
  value : Nat
  lowest : UInt8
  highest : UInt8
  following : Nat

inductive Progress
  | between
  | within (opening : Opening)

-- A first byte ends nothing that stands open.
def start (byte : UInt8) : List Char × Progress :=
  let value := byte.toNat
  if byte < 0x80 then ([Char.ofNat value], .between)
  else if byte < 0xC2 then ([replacement], .between)
  else if byte < 0xE0 then ([], .within ⟨value - 0xC0, 0x80, 0xBF, 0⟩)
  else if byte = 0xE0 then ([], .within ⟨0, 0xA0, 0xBF, 1⟩)
  else if byte = 0xED then ([], .within ⟨13, 0x80, 0x9F, 1⟩)
  else if byte < 0xF0 then ([], .within ⟨value - 0xE0, 0x80, 0xBF, 1⟩)
  else if byte = 0xF0 then ([], .within ⟨0, 0x90, 0xBF, 2⟩)
  else if byte < 0xF4 then ([], .within ⟨value - 0xF0, 0x80, 0xBF, 2⟩)
  else if byte = 0xF4 then ([], .within ⟨4, 0x80, 0x8F, 2⟩)
  else ([replacement], .between)

def step : Progress → UInt8 → List Char × Progress
  | .between, byte => start byte
  | .within opening, byte =>
    if opening.lowest ≤ byte && byte ≤ opening.highest then
      let value := opening.value * 64 + (byte.toNat - 0x80)
      match opening.following with
      | 0 => ([Char.ofNat value], .between)
      | more + 1 => ([], .within ⟨value, 0x80, 0xBF, more⟩)
    else
      let (characters, progress) := start byte
      (replacement :: characters, progress)

def decodeFrom : Progress → List UInt8 → Text
  | .between, [] => []
  | .within _, [] => [replacement]
  | progress, byte :: rest =>
    let (characters, next) := step progress byte
    characters ++ decodeFrom next rest

-- Every longest run that begins a character and is not one becomes a single replacement.
def decode (bytes : List UInt8) : Text := decodeFrom .between bytes

def encode (text : Text) : List UInt8 := text.flatMap String.utf8EncodeChar

-- Repair changes bytes that are not well formed, so they do not come back.
def decode? (bytes : List UInt8) : Option Text :=
  let text := decode bytes
  if encode text = bytes then some text else none

end VoyageLog.Text.Utf8
