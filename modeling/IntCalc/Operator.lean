/-!
# The six binary operators

`Operator` lists the operators in table order, highest precedence first.
`^` binds tightest and is the only right-associative operator, then come
`*`, `/` and `%`, then `+` and `-`. `ofChar?` and `ofSymbol?` read an
operator back from its written form.
-/

namespace IntCalc

/-- A binary operator on integers. -/
inductive Operator
  | pow
  | mul
  | div
  | mod
  | add
  | sub
  deriving DecidableEq, Repr

namespace Operator

/-- Every operator, in table order. -/
def all : List Operator :=
  [pow, mul, div, mod, add, sub]

/-- The character an operator is written as. -/
def char : Operator → Char
  | pow => '^'
  | mul => '*'
  | div => '/'
  | mod => '%'
  | add => '+'
  | sub => '-'

/-- The written form of an operator. -/
def symbol (op : Operator) : String :=
  String.singleton op.char

/-- The name of the operation an operator performs. -/
def name : Operator → String
  | pow => "pow"
  | mul => "mul"
  | div => "div"
  | mod => "mod"
  | add => "add"
  | sub => "sub"

/-- Binding strength. The larger number binds tighter. -/
def precedence : Operator → Nat
  | pow => 3
  | mul => 2
  | div => 2
  | mod => 2
  | add => 1
  | sub => 1

/-- Whether a chain of the operator groups from the right. -/
def rightAssoc : Operator → Bool
  | pow => true
  | _ => false

/-- The operator written as `c`. -/
def ofChar? (c : Char) : Option Operator :=
  all.find? (·.char == c)

/-- The operator written as the text `s`. -/
def ofSymbol? (s : String) : Option Operator :=
  all.find? (·.symbol == s)

/-- The operator with the name `s`. -/
def ofName? (s : String) : Option Operator :=
  all.find? (·.name == s)

/-- No operator is left out. -/
@[simp] theorem mem_all (op : Operator) : op ∈ all := by
  cases op <;> decide

/-- An operator is read back from its character. -/
@[simp] theorem ofChar?_char (op : Operator) : ofChar? op.char = some op := by
  cases op <;> decide

/-- An operator is read back from its written form. -/
@[simp] theorem ofSymbol?_symbol (op : Operator) : ofSymbol? op.symbol = some op := by
  cases op <;> decide

end Operator

end IntCalc
