import IntCalc.Log
import IntCalc.Numeral
import IntCalc.Text.Stream

/-!
# Reading the input

The input holds one expression a line and ends at the first line that is a
quit command. `Input.ofText` reads a text whose lines end with newlines.
`Input.ofStream?` reads a stream piece by piece and stops with the piece in
which a quit command ends, so it does not notice what is wrong with a later
one. `Input.ofBytes?` reads a file.
-/

namespace IntCalc.Input

/-- The expression on a line. -/
def expression (line : List Char) : String :=
  String.ofList (Text.trimEnd line)

/-- The expressions of a text, up to the first quit command. -/
def ofText (quit : List String) (text : List Char) : List String :=
  ((Text.lines text).map expression).takeWhile fun l => l ∉ quit

/-- The expressions in the pieces that follow what has been read. -/
def readPieces (quit : List String) (newlines : Newlines) :
    TextStream.Tail → List (List UInt8) → Option (List String)
  | tail, [] =>
    (tail.finish newlines).map fun ls => (ls.map expression).takeWhile fun l => l ∉ quit
  | tail, piece :: pieces => do
    let (ls, tail) ← tail.feed newlines piece
    let texts := ls.map expression
    if texts.any (· ∈ quit) then return texts.takeWhile fun l => l ∉ quit
    return texts ++ (← readPieces quit newlines tail pieces)

/-- The expressions of a stream. There are none if it is no text as far as
it is read. -/
def ofStream? (quit : List String) (stream : TextStream) : Option (List String) :=
  readPieces quit stream.newlines {} stream.pieces

/-- The expressions of a file. -/
def ofBytes? (quit : List String) (bytes : ByteArray) : Option (List String) :=
  ofStream? quit (.ofFile bytes)

/-- The record of opening a file. -/
def openRecord (path : String) : Log.Record :=
  ⟨.info, "data.data_loader", "Loading expressions from " ++ path⟩

/-- The record of having read the input. -/
def loadedRecord (expressions : List String) : Log.Record :=
  ⟨.info, "data.data_loader",
    "Loaded " ++ Numeral.ofInt expressions.length ++ " expressions"⟩

end IntCalc.Input
