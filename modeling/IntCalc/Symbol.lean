import IntCalc.Operator

/-!
# Lexical classes of characters

Every character belongs to exactly one `Symbol`. Expressions are written
with the operators, the two scope brackets, the ten ASCII digits, blanks
and tabs. The NUL character has a class of its own, which no rule of the
grammar uses, and every other character is `invalid`.
-/

namespace IntCalc

/-- The lexical class of a character. Zero is kept apart from the other
digits because no longer literal starts with it. -/
inductive Symbol
  | operator (op : Operator)
  | opening
  | closing
  | zero
  | nonZeroDigit
  | space
  | tab
  | endMark
  | invalid
  deriving DecidableEq, Repr

namespace Symbol

/-- The class of a character. -/
def ofChar (c : Char) : Symbol :=
  if c = '(' then opening
  else if c = ')' then closing
  else if c = ' ' then space
  else if c = '\t' then tab
  else if c = '0' then zero
  else if c = '\x00' then endMark
  else if '1' ≤ c ∧ c ≤ '9' then nonZeroDigit
  else match Operator.ofChar? c with
    | some op => operator op
    | none => invalid

/-- The class of a text. Only a text of exactly one character has one. -/
def ofText (s : String) : Symbol :=
  match s.toList with
  | [c] => ofChar c
  | _ => invalid

/-- The name of a class. -/
def name : Symbol → String
  | operator .add => "PLUS"
  | operator .sub => "MINUS"
  | operator .mod => "MOD"
  | operator .div => "SLASH"
  | operator .mul => "ASTERISK"
  | operator .pow => "CARET"
  | closing => "CLOSING_SCOPE"
  | opening => "OPENING_SCOPE"
  | zero => "ZERO"
  | nonZeroDigit => "NON_ZERO_DIGIT"
  | space => "WS"
  | tab => "TAB"
  | endMark => "EOS"
  | invalid => "INVALID"

/-- Blanks separate tokens and carry no meaning. -/
def isBlank : Symbol → Bool
  | space => true
  | tab => true
  | _ => false

/-- Digits of a literal after its first one. -/
def isDigit : Symbol → Bool
  | zero => true
  | nonZeroDigit => true
  | _ => false

/-- An operator's character is in the operator's class. -/
@[simp] theorem ofChar_char (op : Operator) : ofChar op.char = operator op := by
  cases op <;> decide

end Symbol

end IntCalc
