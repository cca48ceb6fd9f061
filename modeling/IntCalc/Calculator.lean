import IntCalc.Log
import IntCalc.Outcome
import IntCalc.Parse.Machine
import IntCalc.Rpn.Conversion
import IntCalc.Rpn.Evaluation
import IntCalc.Settings

/-!
# The calculator

`Calculator.evaluate` takes an expression from its text to its outcome: the
text is read, converted to reverse Polish form and evaluated. A text that
cannot be read has an outcome too. An `EvaluationError` stands for a failure
of the conversion or evaluation themselves, not of the expression.
`Calculator.records` lists the log records of an evaluation.
-/

namespace IntCalc

/-- A failure behind the parser. -/
inductive EvaluationError
  | conversion (error : ConversionError)
  /-- The reverse Polish form does not leave exactly one value. -/
  | malformed (expression : String)
  | evaluation (error : EvalError)
  deriving DecidableEq, Repr

/-- The text of a failure. -/
def EvaluationError.message : EvaluationError → String
  | conversion error => error.message
  | malformed expression => "Malformed postfix for " ++ Text.quoted expression
  | evaluation error => error.message

/-- The placeholder of the settings can be written. -/
theorem Settings.printable_placeholder : Numeral.Printable default.placeholder := by
  decide +kernel

/-- A calculator whose literals and results are bounded by a type. -/
structure Calculator where
  bounded : IntType := Settings.default.bounded
  placeholder : Int := Settings.default.placeholder
  /-- The value of a division by zero can be written to the log. -/
  printable : Numeral.Printable placeholder := by exact Settings.printable_placeholder
  deriving DecidableEq, Repr

namespace Calculator

/-- Reads a text with the calculator's bounds. -/
def parse (c : Calculator) (text : String) : ParseResult :=
  Parse.parse c.bounded.range text

/-- The evaluator with the calculator's bounds. -/
def evaluator (c : Calculator) : Evaluator :=
  ⟨c.bounded.range, c.placeholder⟩

/-- The reverse Polish form of the tokens of an expression. -/
def convert (text : String) (tokens : List Token) : Except EvaluationError (List Token) := do
  let rpn ← (toRpn tokens).mapError .conversion
  if Tokens.wellFormed rpn then return rpn else throw (.malformed text)

/-- The outcome of an expression. -/
def evaluate (c : Calculator) (text : String) : Except EvaluationError Outcome :=
  let parsed := c.parse text
  if parsed.ok then do
    let rpn ← convert text parsed.tokens
    let result ← (c.evaluator.evaluate rpn).mapError .evaluation
    return ⟨text, parsed, rpn, some result⟩
  else return { expression := text, parse := parsed }

/-! ## Log records -/

/-- The record of reading a text. -/
def parseRecord (text : String) (r : ParseResult) : Log.Record :=
  ⟨.debug, "core.parser",
    if r.ok then
      "Parsed " ++ Text.quoted text ++ " into " ++ Numeral.ofInt r.tokens.length ++ " tokens"
    else
      "Parse of " ++ Text.quoted text ++ " failed: " ++ r.status.name ++ " at column " ++
        Numeral.ofInt r.column⟩

/-- The record of a conversion. -/
def conversionRecord (tokens rpn : List Token) : Log.Record :=
  ⟨.debug, "core.converter",
    "Converted " ++ Numeral.ofInt tokens.length ++ " infix tokens into " ++
      Numeral.ofInt rpn.length ++ " postfix tokens"⟩

/-- The record of the first fault of an evaluation. -/
def faultRecord (f : Fault) : Log.Record :=
  ⟨.debug, "core.evaluator",
    f.status.name ++ " at '" ++ Numeral.ofInt f.left ++ " " ++ f.symbol ++ " " ++
      Numeral.ofInt f.right ++ "'"⟩

/-- The record of a finished evaluation. -/
def resultRecord (rpn : List Token) (r : EvalResult) : Log.Record :=
  ⟨.debug, "core.evaluator",
    "Evaluated '" ++ Tokens.rpnText rpn ++ "' -> " ++ Numeral.ofInt r.value ++ " (" ++
      r.status.name ++ ")"⟩

/-- The records of an evaluation of reverse Polish form. -/
def evaluationRecords (e : Evaluator) (rpn : List Token) : List Log.Record :=
  match e.run {} rpn with
  | .error _ => []
  | .ok values =>
    values.fault.toList.map faultRecord ++
      match Evaluator.conclude values with
      | .error _ => []
      | .ok r => [resultRecord rpn r]

/-- The records of taking an expression from its text to its outcome. -/
def records (c : Calculator) (text : String) : List Log.Record :=
  let parsed := c.parse text
  parseRecord text parsed ::
    if parsed.ok then
      match toRpn parsed.tokens with
      | .error _ => []
      | .ok rpn => conversionRecord parsed.tokens rpn :: evaluationRecords c.evaluator rpn
    else []

end Calculator

end IntCalc
