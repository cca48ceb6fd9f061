import IntCalc.Parse.Result
import IntCalc.Rpn.Result
import IntCalc.Text.Quoted

/-!
# Outcomes

An `Outcome` is everything known about one expression: how it was read, its
reverse Polish form and, if it could be read, how it was evaluated. Its
`message` is the line shown for it.
-/

namespace IntCalc

/-- How far an expression got. -/
inductive Stage
  | parse
  | evaluate
  deriving DecidableEq, Repr

/-- The name of a stage. -/
def Stage.name : Stage → String
  | parse => "parse"
  | evaluate => "evaluate"

/-- What became of an expression. -/
structure Outcome where
  expression : String
  parse : ParseResult
  rpn : List Token := []
  eval : Option EvalResult := none
  deriving DecidableEq, Repr

namespace Outcome

/-- The last stage the expression reached. -/
def stage (o : Outcome) : Stage :=
  if o.eval.isSome then .evaluate else .parse

/-- The name of the status of the last stage reached. -/
def statusName (o : Outcome) : String :=
  match o.eval with
  | some r => r.status.name
  | none => o.parse.status.name

/-- The value of the expression, if it has one. -/
def value (o : Outcome) : Option Int :=
  match o.eval with
  | some r => if r.ok then some r.value else none
  | none => none

/-- Whether the expression has a value. -/
def ok (o : Outcome) : Bool :=
  o.value.isSome

/-- The column of a syntax error. -/
def column (o : Outcome) : Option Int :=
  match o.eval with
  | some _ => none
  | none => some o.parse.column

/-- The column of a syntax error as a reader counts it. -/
def shownColumn (o : Outcome) : Option Int :=
  match o.eval with
  | some _ => none
  | none => some o.parse.shownColumn

/-- The line shown for the expression: its value, or what went wrong. -/
def message (o : Outcome) : String :=
  match o.eval with
  | none => o.parse.message
  | some r => if r.ok then Numeral.ofInt r.value else r.status.message

/-- A one-line description. -/
def summary (o : Outcome) : String :=
  "ExpressionOutcome(" ++ Text.quoted o.expression ++ ", stage=" ++ o.stage.name ++
    ", status=" ++ o.statusName ++ ")"

end Outcome

end IntCalc
