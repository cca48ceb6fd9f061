import IntCalc.Text.Lines
import IntCalc.Text.Utf8

/-!
# Text streams

The bytes of a stream arrive in pieces, which may end in the middle of a
line, of a line end or of a character. `TextStream.Tail` is what has been
read of them and belongs to no line yet. `Tail.feed` reads one more piece
and gives the lines that it finishes, and `Tail.finish` gives what is left
when there are no more pieces.
-/

namespace IntCalc

/-- How a stream reads line ends. -/
inductive Newlines
  /-- Every line end is read as a newline. -/
  | universal
  /-- A line ends with a newline only, and a return is a character of it. -/
  | newlineOnly
  deriving DecidableEq, Repr

namespace Newlines

/-- The text with newlines as its line ends. -/
def translate : Newlines → List Char → List Char
  | universal, cs => Text.universalNewlines cs
  | newlineOnly, cs => cs

/-- Takes a return off the end of a text, since a newline that belongs to it
may follow. -/
def hold : Newlines → List Char → List Char × List Char
  | universal, cs => if cs.getLast? = some '\r' then (cs.dropLast, ['\r']) else (cs, [])
  | newlineOnly, cs => (cs, [])

end Newlines

/-- A stream of encoded text, in the pieces in which its bytes arrive. -/
structure TextStream where
  pieces : List (List UInt8)
  newlines : Newlines
  deriving DecidableEq, Repr

namespace TextStream

/-- The bytes of a stream. -/
def bytes (s : TextStream) : List UInt8 :=
  s.pieces.flatten

/-- The most bytes that are read from a file at once. -/
def pieceSize : Nat := 8192

/-- Bytes in pieces of one size, of which the last may be shorter. -/
def cut (size : Nat) (bytes : List UInt8) : List (List UInt8) :=
  (List.range ((bytes.length + size - 1) / size)).map fun k => (bytes.drop (size * k)).take size

/-- The stream of a file. -/
def ofFile (bytes : ByteArray) : TextStream :=
  ⟨cut pieceSize bytes.data.toList, .universal⟩

/-- What has been read of a stream and belongs to no finished line. -/
structure Tail where
  /-- The character that is not finished. -/
  pending : Option Utf8.Pending := none
  /-- A return that may be the first half of a line end. -/
  held : List Char := []
  /-- The line that is not finished. -/
  line : List Char := []
  deriving DecidableEq, Repr

/-- Reads a piece: the lines that it finishes, and what is left. -/
def Tail.feed (newlines : Newlines) (tail : Tail) (piece : List UInt8) :
    Option (List (List Char) × Tail) := do
  let (chars, pending) ← Utf8.decode tail.pending piece
  let (chars, held) := newlines.hold (tail.held ++ chars)
  let text := tail.line ++ newlines.translate chars
  return (Text.lines (Text.finished text), ⟨pending, held, Text.unfinished text⟩)

/-- The lines that are left when the stream ends. It must not end in the
middle of a character. -/
def Tail.finish (newlines : Newlines) (tail : Tail) : Option (List (List Char)) :=
  match tail.pending with
  | none => some (Text.lines (tail.line ++ newlines.translate tail.held))
  | some _ => none

end TextStream

end IntCalc
