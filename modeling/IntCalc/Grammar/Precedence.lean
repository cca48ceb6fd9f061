import IntCalc.Expr

/-!
# The grammar with precedence

`Parses level ts e` says that the token list `ts` has the syntax tree `e`
at a precedence level. Sums and differences are at the lowest level and
group from the left, products, quotients and remainders come next and group
from the left, powers bind tightest and group from the right. An operand or
an expression between brackets is an atom.
-/

namespace IntCalc.Grammar

/-- The precedence levels, lowest first. -/
inductive Level
  | sum
  | product
  | power
  | atom
  deriving DecidableEq, Repr

/-- The syntax trees of token lists. -/
inductive Parses : Level → List Token → Expr → Prop
  | operand (text : String) : Parses .atom [.operand text] (.leaf text)
  | scope {ts : List Token} {e : Expr} :
      Parses .sum ts e → Parses .atom (.opening :: ts ++ [.closing]) e
  | ofAtom {ts : List Token} {e : Expr} : Parses .atom ts e → Parses .power ts e
  | ofPower {ts : List Token} {e : Expr} : Parses .power ts e → Parses .product ts e
  | ofProduct {ts : List Token} {e : Expr} : Parses .product ts e → Parses .sum ts e
  | power {ts us : List Token} {l r : Expr} :
      Parses .atom ts l → Parses .power us r →
      Parses .power (ts ++ .ofOperator .pow :: us) (.node .pow l r)
  | product {ts us : List Token} {l r : Expr} (op : Operator) :
      op = .mul ∨ op = .div ∨ op = .mod → Parses .product ts l → Parses .power us r →
      Parses .product (ts ++ .ofOperator op :: us) (.node op l r)
  | sum {ts us : List Token} {l r : Expr} (op : Operator) :
      op = .add ∨ op = .sub → Parses .sum ts l → Parses .product us r →
      Parses .sum (ts ++ .ofOperator op :: us) (.node op l r)

/-- The token list of a whole expression has the syntax tree `e`. -/
def HasTree (ts : List Token) (e : Expr) : Prop :=
  Parses .sum ts e

end IntCalc.Grammar
