import IntCalc.Parse.Machine

/-!
# The moves of the parser

`trace` lists every state that the machine of `run` goes through, from the
first one on. Its length is the number of moves, and counting its states by
phase tells how many terms are started and how many open expressions are
left.
-/

namespace IntCalc.Parse

/-- The states from `s` on, `s` included. -/
def trace (range : Range) (s : State) : List State :=
  match _h : step range s with
  | .next t => s :: trace range t
  | .finish _ => [s]
termination_by s.measure
decreasing_by exact measure_step_lt _h

/-- Whether a term is started from a state. -/
def State.startsTerm (s : State) : Bool :=
  s.phase = .term

/-- Whether the move from a state leaves the innermost open expression. -/
def State.leaves (s : State) : Bool :=
  match s.phase with
  | .term => false
  | .afterTerm => (operator? s.rest).isNone
  | .failed _ => true

/-- The number of terms started while a text is read. -/
def termsStarted (range : Range) (text : List Char) : Nat :=
  (trace range (.start (skipBlanks text))).countP State.startsTerm

/-- The number of open expressions left while a text is read, the outermost
one included. -/
def levelsLeft (range : Range) (text : List Char) : Nat :=
  (trace range (.start (skipBlanks text))).countP State.leaves

end IntCalc.Parse
