import IntCalc.IntType
import IntCalc.Numeral
import IntCalc.Token

/-!
# The grammar of token lists

An expression is a term or an expression, an operator and a term. A term
is an operand or an expression between brackets. Precedence plays no part
here. `IsExpression` is the grammar and `Canonical` holds the operand texts
that the parser writes: `0`, or digits that do not start with `0` and have
at most one minus sign, with a value strictly inside a range.
-/

namespace IntCalc.Grammar

/-- The phrases of the grammar. -/
inductive Phrase
  | expression
  | term
  deriving DecidableEq, Repr

/-- The token lists of a phrase whose operand texts satisfy `p`. -/
inductive Derives (p : String → Prop) : Phrase → List Token → Prop
  | operand {text : String} : p text → Derives p .term [.operand text]
  | scope {ts : List Token} :
      Derives p .expression ts → Derives p .term (.opening :: ts ++ [.closing])
  | term {ts : List Token} : Derives p .term ts → Derives p .expression ts
  | chain {ts us : List Token} (op : Operator) :
      Derives p .expression ts → Derives p .term us →
      Derives p .expression (ts ++ .ofOperator op :: us)

/-- The token lists of expressions. -/
def IsExpression (p : String → Prop) (ts : List Token) : Prop :=
  Derives p .expression ts

/-- ASCII digits that do not start with `0`. -/
def IsNatural (digits : List Char) : Prop :=
  ∃ c cs, digits = c :: cs ∧ c ≠ '0' ∧ ∀ d ∈ c :: cs, d.isDigit

/-- The operand texts the parser writes. -/
def Canonical (r : Range) (text : String) : Prop :=
  text = "0" ∨
    ∃ digits, IsNatural digits ∧
      (text = String.ofList digits ∧ r.Interior (Numeral.natValue digits) ∨
        text = String.ofList ('-' :: digits) ∧ r.Interior (-(Numeral.natValue digits : Int)))

end IntCalc.Grammar
