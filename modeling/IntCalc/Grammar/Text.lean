import IntCalc.Grammar.Tokens

/-!
# The grammar of texts

`Written r phrase text ts` says that a text is a phrase whose tokens are
`ts`. Blanks and tabs may stand between any two tokens, between the minus
signs of a literal and between them and its digits. A literal is `0` or a
run of minus signs and digits that do not start with `0`, and its value lies
strictly inside the range; its token has a minus sign exactly if the run is
odd. `WrittenExpression` allows blanks around the whole.
-/

namespace IntCalc.Grammar

/-- Blanks and tabs. -/
def IsBlanks (w : List Char) : Prop :=
  ∀ c ∈ w, c = ' ' ∨ c = '\t'

@[simp] theorem isBlanks_nil : IsBlanks [] := by
  simp [IsBlanks]

theorem ne_nil_of_not_isBlanks {w : List Char} (h : ¬IsBlanks w) : w ≠ [] := by
  rintro rfl
  exact h isBlanks_nil

/-- A run of `n` minus signs, each followed by any blanks. -/
inductive Minuses : Nat → List Char → Prop
  | none : Minuses 0 []
  | some {n : Nat} {w text : List Char} :
      IsBlanks w → Minuses n text → Minuses (n + 1) ('-' :: w ++ text)

/-- The digits of a literal with the sign of its minus run. -/
def signedText (minuses : Nat) (digits : List Char) : String :=
  String.ofList (if minuses % 2 = 1 then '-' :: digits else digits)

/-- The value of a literal with its minus run. -/
def signedValue (minuses : Nat) (digits : List Char) : Int :=
  if minuses % 2 = 1 then -(Numeral.natValue digits : Int) else Numeral.natValue digits

/-- The texts of literals, each with the text of its token. -/
inductive Literal (r : Range) : List Char → String → Prop
  | zero : Literal r ['0'] "0"
  | signed {n : Nat} {run digits : List Char} :
      Minuses n run → IsNatural digits → r.Interior (signedValue n digits) →
      Literal r (run ++ digits) (signedText n digits)

/-- The texts of phrases, each with its tokens. -/
inductive Written (r : Range) : Phrase → List Char → List Token → Prop
  | literal {text : List Char} {numeral : String} :
      Literal r text numeral → Written r .term text [.operand numeral]
  | scope {v w text : List Char} {ts : List Token} :
      IsBlanks v → IsBlanks w → Written r .expression text ts →
      Written r .term ('(' :: v ++ text ++ w ++ [')']) (.opening :: ts ++ [.closing])
  | term {text : List Char} {ts : List Token} :
      Written r .term text ts → Written r .expression text ts
  | chain {text v w next : List Char} {ts us : List Token} (op : Operator) :
      Written r .expression text ts → IsBlanks v → IsBlanks w → Written r .term next us →
      Written r .expression (text ++ v ++ op.char :: w ++ next) (ts ++ .ofOperator op :: us)

/-- A text is an expression with the tokens `ts`, between any blanks. -/
def WrittenExpression (r : Range) (text : List Char) (ts : List Token) : Prop :=
  ∃ v body w, IsBlanks v ∧ IsBlanks w ∧ text = v ++ body ++ w ∧ Written r .expression body ts

end IntCalc.Grammar
