import IntCalc.Numeral

/-!
# Results of evaluation

An `EvalResult` holds a value and a status. The value means something only
if the status is `ok`, but it is kept in every case.
-/

namespace IntCalc

/-- How an evaluation ended. -/
inductive EvalStatus
  | ok
  | divisionByZero
  | numericOverflow
  deriving DecidableEq, Repr

namespace EvalStatus

/-- The name of a status. -/
def name : EvalStatus → String
  | ok => "OK"
  | divisionByZero => "DIVISION_BY_ZERO"
  | numericOverflow => "NUMERIC_OVERFLOW"

/-- Every status. -/
def all : List EvalStatus :=
  [ok, divisionByZero, numericOverflow]

/-- The status with a given name. -/
def ofName? (s : String) : Option EvalStatus :=
  all.find? (·.name == s)

/-- What is told about a status that is an error. -/
def message : EvalStatus → String
  | ok => "Unhandled error found!"
  | divisionByZero => "Division by zero!"
  | numericOverflow => "Numeric overflow error!"

end EvalStatus

/-- The result of evaluating an expression, or of one operation. -/
structure EvalResult where
  value : Int
  status : EvalStatus
  deriving DecidableEq, Repr

namespace EvalResult

/-- Whether the value is the value of the expression. -/
def ok (r : EvalResult) : Bool :=
  r.status = .ok

theorem ok_iff {r : EvalResult} : r.ok ↔ r.status = .ok :=
  decide_eq_true_iff

/-- A one-line description. -/
def summary (r : EvalResult) : String :=
  "EvalResult(value=" ++ Numeral.ofInt r.value ++ ", status=" ++ r.status.name ++ ")"

end EvalResult

end IntCalc
