import IntCalc.Arithmetic
import IntCalc.Rpn.Result
import IntCalc.Text.Quoted
import IntCalc.Token

/-!
# Evaluation of reverse Polish form

A stack machine reads the tokens from left to right. Values are computed in
the working type and compared with the bounded range after every operation.
The first operation whose value is no good decides the status; evaluation
goes on after it, with the value as it is or, for a division by zero, with a
placeholder. The operands of that operation and the final value are written
to the log, so they must not be too long to be written.

`Evaluator.apply` is one operation, `Evaluator.step` reads one token and
`Evaluator.evaluate` a whole list.
-/

namespace IntCalc

/-- Why a list of tokens cannot be evaluated. -/
inductive EvalError
  /-- An operator finds fewer than two values. -/
  | insufficientOperands (symbol : String)
  /-- An operator token names no operator. -/
  | unknownOperator (symbol : String)
  /-- The text of an operand is no integer. -/
  | notAnInteger (text : String)
  /-- The text of an operand has too many digits. -/
  | tooManyDigits (digits : Nat)
  /-- A number that is written to the log has too many digits. -/
  | unwritable
  /-- The token is neither an operand nor an operator. -/
  | unexpectedToken (text : String)
  /-- The tokens leave no value or more than one. -/
  | leftover (values : Nat)
  deriving DecidableEq, Repr

/-- The first `n` characters of a text. -/
def Text.truncate (n : Nat) (s : String) : String :=
  String.ofList (s.toList.take n)

/-- What is said about a number with too many digits. -/
def EvalError.digitLimitText : String :=
  "Exceeds the limit (" ++ Numeral.ofInt Numeral.maxDigits ++ ") for integer string conversion"

/-- What is advised about it. -/
def EvalError.digitLimitAdvice : String :=
  "; use sys.set_int_max_str_digits() to increase the limit"

/-- The error of an operand that is not read. -/
def EvalError.ofNumeral (text : String) : Numeral.NumeralError → EvalError
  | .malformed => notAnInteger text
  | .tooLong digits => tooManyDigits digits

/-- The text of a failed evaluation. -/
def EvalError.message : EvalError → String
  | insufficientOperands symbol => "Insufficient operands for " ++ symbol
  | unknownOperator symbol => Text.quoted symbol
  | notAnInteger text =>
    "invalid literal for int() with base 10: " ++ Text.truncate 200 (Text.quoted text)
  | tooManyDigits digits =>
    digitLimitText ++ ": value has " ++ Numeral.ofInt digits ++ " digits" ++ digitLimitAdvice
  | unwritable => digitLimitText ++ digitLimitAdvice
  | unexpectedToken text => "Unexpected token in postfix: " ++ Text.quoted text
  | leftover values =>
    "Stack has " ++ Numeral.ofInt values ++ " elements after evaluation, expected 1"

/-- An evaluator for a bounded type. -/
structure Evaluator where
  /-- The range in which every value must lie. -/
  range : Range
  /-- The value of a division by zero. -/
  placeholder : Int
  deriving DecidableEq, Repr

/-- An operation whose value is no good. -/
structure Fault where
  status : EvalStatus
  left : Int
  symbol : String
  right : Int
  deriving DecidableEq, Repr

/-- The state of the stack machine between two tokens. -/
structure Values where
  /-- The values, latest first. -/
  stack : List Int := []
  /-- The first operation whose value was no good. -/
  fault : Option Fault := none
  deriving DecidableEq, Repr

/-- The status that the first fault decides. -/
def Values.status (s : Values) : EvalStatus :=
  match s.fault with
  | none => .ok
  | some fault => fault.status

namespace Evaluator

/-- Judges the outcome of an operation: a missing value is a division by
zero, and a value outside the range an overflow. -/
def judge (e : Evaluator) : Option Int → EvalResult
  | none => ⟨e.placeholder, .divisionByZero⟩
  | some value => ⟨value, if e.range.Contains value then .ok else .numericOverflow⟩

/-- One operation. -/
def apply (e : Evaluator) (op : Operator) (a b : Int) : EvalResult :=
  e.judge (op.value? a b)

/-- The operation an operator token names. -/
def execute (e : Evaluator) (symbol : String) (a b : Int) : Except EvalError EvalResult :=
  match Operator.ofSymbol? symbol with
  | none => .error (.unknownOperator symbol)
  | some op => .ok (e.apply op a b)

/-- The first fault, after one more operation. The operands of a new fault
are written down. -/
def noteFault (fault : Option Fault) (symbol : String) (a b : Int) (r : EvalResult) :
    Except EvalError (Option Fault) :=
  match fault with
  | some fault => .ok (some fault)
  | none =>
    if r.ok then .ok none
    else if Numeral.Printable a ∧ Numeral.Printable b then .ok (some ⟨r.status, a, symbol, b⟩)
    else .error .unwritable

/-- Reads one token. -/
def step (e : Evaluator) (s : Values) (t : Token) : Except EvalError Values :=
  match t.kind with
  | .operand =>
    match Numeral.read t.text with
    | .error error => .error (.ofNumeral t.text error)
    | .ok n => .ok { s with stack := n :: s.stack }
  | .operator =>
    match s.stack with
    | b :: a :: stack => do
      let r ← e.execute t.text a b
      let fault ← noteFault s.fault t.text a b r
      return ⟨r.value :: stack, fault⟩
    | _ => .error (.insufficientOperands t.text)
  | _ => .error (.unexpectedToken t.text)

/-- Reads a list of tokens. -/
def run (e : Evaluator) (s : Values) (tokens : List Token) : Except EvalError Values :=
  tokens.foldlM e.step s

/-- The result of a machine that has read every token. The value is written
down. -/
def conclude (s : Values) : Except EvalError EvalResult :=
  match s.stack with
  | [value] =>
    if Numeral.Printable value then .ok ⟨value, s.status⟩ else .error .unwritable
  | stack => .error (.leftover stack.length)

/-- The result of a list of tokens in reverse Polish form. -/
def evaluate (e : Evaluator) (tokens : List Token) : Except EvalError EvalResult :=
  e.run {} tokens >>= conclude

end Evaluator

end IntCalc
