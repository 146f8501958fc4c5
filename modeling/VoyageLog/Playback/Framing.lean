import VoyageLog.Text.Utf8

namespace VoyageLog.Framing

def lineEnd : List UInt8 := [13, 10]

def frame (record : Text) : List UInt8 := Text.Utf8.encode record ++ lineEnd

structure Writer where
  room : Nat
  written : List UInt8

namespace Writer

def ofRoom (room : Nat) : Writer := ⟨room, []⟩

-- Takes what fits, and tells whether that was all.
def write (writer : Writer) (bytes : List UInt8) : Writer × Bool :=
  (⟨writer.room - bytes.length, writer.written ++ bytes.take writer.room⟩, bytes.length ≤ writer.room)

-- A record that could not be written whole is given up, line end and all.
def emit (writer : Writer) (record : Text) : Writer :=
  match writer.write (Text.Utf8.encode record) with
  | (after, true) => (after.write lineEnd).1
  | (after, false) => after

def emitAll (writer : Writer) (records : List Text) : Writer := records.foldl emit writer

end Writer

end VoyageLog.Framing
