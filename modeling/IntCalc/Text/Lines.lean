/-!
# Lines

`lines` splits a text after each newline; a text that ends with one has no
empty last line. `finished` and `unfinished` are the two sides of the last
newline. `universalNewlines` turns the line ends `\r\n` and `\r`
into newlines. `trimEnd` takes returns and newlines off the end of a line.
-/

namespace IntCalc.Text

/-- Puts one character in front of a list of lines. -/
def pushChar (c : Char) (ls : List (List Char)) : List (List Char) :=
  if c = '\n' then [] :: ls
  else
    match ls with
    | [] => [[c]]
    | l :: ls => (c :: l) :: ls

/-- The lines of a text, without the newlines that end them. -/
def lines (cs : List Char) : List (List Char) :=
  cs.foldr pushChar []

/-- The text up to its last newline. -/
def finished (cs : List Char) : List Char :=
  (cs.reverse.dropWhile (· ≠ '\n')).reverse

/-- The text behind its last newline. -/
def unfinished (cs : List Char) : List Char :=
  (cs.reverse.takeWhile (· ≠ '\n')).reverse

/-- One character of a text with other line ends, given the character in
front of it. A newline after a return belongs to the return. -/
def newlineOf (previous c : Char) : Option Char :=
  if c = '\r' then some '\n'
  else if c = '\n' ∧ previous = '\r' then none
  else some c

/-- The text with every line end written as a newline. -/
def universalNewlines (cs : List Char) : List Char :=
  (('\n' :: cs).zip cs).filterMap fun (previous, c) => newlineOf previous c

/-- Returns and newlines. -/
def isLineEnd (c : Char) : Bool :=
  c = '\r' ∨ c = '\n'

/-- The text without the returns and newlines at its end. -/
def trimEnd (cs : List Char) : List Char :=
  (cs.reverse.dropWhile isLineEnd).reverse

/-- A first character goes to the front of the first line. -/
theorem lines_cons (c : Char) (cs : List Char) : lines (c :: cs) = pushChar c (lines cs) :=
  rfl

end IntCalc.Text
