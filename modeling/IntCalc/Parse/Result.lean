import IntCalc.Numeral
import IntCalc.Token

/-!
# Results of reading an expression

A `ParseResult` holds the status, the position of the first error and the
tokens read. Positions count characters from zero, and the tokens read
before an error are kept. `ParseResult.message` tells a reader what went
wrong and counts columns from one.
-/

namespace IntCalc

/-- How reading an expression ended. -/
inductive ParseStatus
  | ok
  | unexpectedEnd
  | illFormedInteger
  | missingTerm
  | extraneousSymbol
  | missingClosing
  | integerOutOfRange
  deriving DecidableEq, Repr

namespace ParseStatus

/-- The name of a status. -/
def name : ParseStatus → String
  | ok => "OK"
  | unexpectedEnd => "UNEXPECTED_END_OF_INPUT"
  | illFormedInteger => "ILL_FORMED_INTEGER"
  | missingTerm => "MISSING_TERM"
  | extraneousSymbol => "EXTRANEOUS_SYMBOL"
  | missingClosing => "MISSING_CLOSING_PARENTHESIS"
  | integerOutOfRange => "INTEGER_OUT_OF_RANGE"

/-- Every status. -/
def all : List ParseStatus :=
  [ok, unexpectedEnd, illFormedInteger, missingTerm, extraneousSymbol, missingClosing,
    integerOutOfRange]

/-- The status with a given name. -/
def ofName? (s : String) : Option ParseStatus :=
  all.find? (·.name == s)

end ParseStatus

/-- The result of reading an expression. The column means something only
if the status is not `ok`. -/
structure ParseResult where
  status : ParseStatus
  column : Int
  tokens : List Token
  deriving DecidableEq, Repr

namespace ParseResult

/-- Whether the whole text was read. -/
def ok (r : ParseResult) : Bool :=
  r.status = .ok

theorem ok_iff {r : ParseResult} : r.ok ↔ r.status = .ok :=
  decide_eq_true_iff

/-- The column as a reader counts it. -/
def shownColumn (r : ParseResult) : Int :=
  r.column + 1

/-- What is told about a result that is an error. -/
def message (r : ParseResult) : String :=
  let column := "(" ++ Numeral.ofInt r.shownColumn ++ ")!"
  match r.status with
  | .ok => ">>> Unhandled error found!"
  | .unexpectedEnd => "Unexpected end of input at column " ++ column
  | .illFormedInteger => "Ill formed integer at column " ++ column
  | .missingTerm => "Missing <term> at column " ++ column
  | .extraneousSymbol => "Extraneous symbol after valid expression found at column " ++ column
  | .missingClosing => "Missing closing \")\" at column " ++ column
  | .integerOutOfRange => "Integer constant out of range beginning at column " ++ column

/-- A one-line description. -/
def summary (r : ParseResult) : String :=
  "ParseResult(status=" ++ r.status.name ++ ", column=" ++ Numeral.ofInt r.column ++
    ", tokens=" ++ Numeral.ofInt r.tokens.length ++ ")"

end ParseResult

end IntCalc
