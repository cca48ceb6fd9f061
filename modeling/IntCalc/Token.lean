import IntCalc.Operator

/-!
# Tokens

A `Token` is a text together with its `Kind`. Operators and scope brackets
are fixed tokens, operands carry their numeral. Token lists may also hold
tokens of a kind outside the grammar, and operator tokens with a symbol no
operator has: the functions on lists say what they do with those.

`infixText` writes a list of tokens in infix form and `rpnText` in reverse
Polish form. `depth` follows the number of values a stack machine would
hold, and a list is `wellFormed` if it leaves exactly one.
-/

namespace IntCalc

/-- What a token is used for. -/
inductive Kind
  | operand
  | operator
  | opening
  | closing
  | other (name : String)
  deriving DecidableEq, Repr

namespace Kind

/-- The name of a kind. -/
def name : Kind → String
  | operand => "operand"
  | operator => "operator"
  | opening => "opening_scope"
  | closing => "closing_scope"
  | other name => name

/-- The kind with a given name. A name that belongs to no kind of the
grammar is kept. -/
def ofName (s : String) : Kind :=
  if s = "operand" then operand
  else if s = "operator" then operator
  else if s = "opening_scope" then opening
  else if s = "closing_scope" then closing
  else other s

/-- The one-letter mark of a kind, empty outside the grammar. -/
def mark : Kind → String
  | operand => "n"
  | operator => "o"
  | opening => "("
  | closing => ")"
  | other _ => ""

end Kind

/-- A lexical unit: a text and what it is used for. -/
structure Token where
  text : String
  kind : Kind
  deriving DecidableEq, Repr

namespace Token

/-- The operand with the numeral `text`. -/
def operand (text : String) : Token :=
  ⟨text, .operand⟩

/-- The token of an operator. -/
def ofOperator (op : Operator) : Token :=
  ⟨op.symbol, .operator⟩

/-- The token `(`. -/
def opening : Token :=
  ⟨"(", .opening⟩

/-- The token `)`. -/
def closing : Token :=
  ⟨")", .closing⟩

/-- The tokens whose text never varies, in table order. -/
def fixed : List Token :=
  [ofOperator .add, ofOperator .sub, ofOperator .mul, ofOperator .div, ofOperator .mod,
    ofOperator .pow, opening, closing]

/-- The fixed token written as `text`, and otherwise the operand with that text. -/
def ofText (text : String) : Token :=
  (fixed.find? (·.text == text)).getD (operand text)

/-- Whether the token is an operand. -/
def isOperand (t : Token) : Bool :=
  t.kind = .operand

/-- Whether the token is an operator. -/
def isOperator (t : Token) : Bool :=
  t.kind = .operator

/-- Whether the token is an opening bracket. -/
def isOpening (t : Token) : Bool :=
  t.kind = .opening

/-- Whether the token is a closing bracket. -/
def isClosing (t : Token) : Bool :=
  t.kind = .closing

/-- The operator a token names. The token's kind plays no part. -/
def operator? (t : Token) : Option Operator :=
  Operator.ofSymbol? t.text

/-- The precedence of the operator a token names, `0` if it names none. -/
def precedence (t : Token) : Nat :=
  match t.operator? with
  | some op => op.precedence
  | none => 0

/-- Whether the token names a right-associative operator. -/
def rightAssoc (t : Token) : Bool :=
  match t.operator? with
  | some op => op.rightAssoc
  | none => false

/-- Whether a pending operator `top` is applied before `incoming` is read.
At equal precedence it is, unless `incoming` is right-associative. -/
def bindsBefore (top incoming : Token) : Bool :=
  if top.precedence = incoming.precedence ∧ incoming.rightAssoc then false
  else incoming.precedence ≤ top.precedence

/-- One token in infix form. An operator stands between spaces and every
other token touches its neighbours. -/
def infixText (t : Token) : String :=
  if t.isOperator then " " ++ t.text ++ " " else t.text

/-- An operator's token has its precedence. -/
@[simp] theorem precedence_ofOperator (op : Operator) :
    (ofOperator op).precedence = op.precedence := by
  simp [precedence, operator?, ofOperator]

/-- An operator's token groups as the operator does. -/
@[simp] theorem rightAssoc_ofOperator (op : Operator) :
    (ofOperator op).rightAssoc = op.rightAssoc := by
  simp [rightAssoc, operator?, ofOperator]

end Token

namespace Tokens

/-- A list of tokens in infix form. -/
def infixText (tokens : List Token) : String :=
  String.join (tokens.map Token.infixText)

/-- A list of tokens in reverse Polish form, separated by single spaces. -/
def rpnText (tokens : List Token) : String :=
  " ".intercalate (tokens.map Token.text)

/-! ## Stack depth -/

/-- The number of values after one more token. An operand adds a value and
an operator turns two values into one. Any other token, or an operator
with too few values, has no depth. -/
def depthStep (depth : Nat) (t : Token) : Option Nat :=
  match t.kind with
  | .operand => some (depth + 1)
  | .operator => if depth < 2 then none else some (depth - 1)
  | _ => none

/-- The number of values a list leaves on an empty stack. -/
def depth? (tokens : List Token) : Option Nat :=
  tokens.foldlM depthStep 0

/-- The depth as one number, `-1` if there is none. -/
def depth (tokens : List Token) : Int :=
  match depth? tokens with
  | some n => n
  | none => -1

/-- A complete postfix expression leaves exactly one value. -/
def wellFormed (tokens : List Token) : Bool :=
  depth tokens = 1

end Tokens

end IntCalc
