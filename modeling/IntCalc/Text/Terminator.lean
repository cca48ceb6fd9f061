import IntCalc.Text.Lines

/-!
# Line terminators

A line may be ended by a newline, by a return and a newline, or by a return
alone. `Terminator.join` puts lines and their terminators together.
-/

namespace IntCalc.Text

/-- The three ways to end a line. -/
inductive Terminator
  | newline
  | returnNewline
  | loneReturn
  deriving DecidableEq, Repr

namespace Terminator

/-- The characters of a terminator. -/
def chars : Terminator → List Char
  | newline => ['\n']
  | returnNewline => ['\r', '\n']
  | loneReturn => ['\r']

/-- The text of lines with their terminators, and of a last line without one. -/
def join (ls : List (List Char × Terminator)) (last : List Char) : List Char :=
  ls.flatMap (fun l => l.1 ++ l.2.chars) ++ last

end Terminator

/-- No character of the line ends a line. -/
def IsLine (l : List Char) : Prop :=
  ∀ c ∈ l, c ≠ '\r' ∧ c ≠ '\n'

instance (l : List Char) : Decidable (IsLine l) :=
  List.decidableBAll _ l

end IntCalc.Text
