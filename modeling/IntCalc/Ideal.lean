import IntCalc.Expr

/-!
# Ideal arithmetic

The operators on unbounded integers. Division truncates toward zero, the
remainder takes the sign of the dividend, and a negative power is the real
power truncated toward zero. `Operator.ideal?` has no value for a zero
divisor and for zero to a negative power. `Expr.ideal?` is the value of a
tree, and `Expr.Within` says that it and every value on the way lie in a
range.
-/

namespace IntCalc

namespace Arithmetic

/-- The power of unbounded integers. For `b < 0` it is `1 / a ^ (-b)`
truncated toward zero. -/
def idealPow? (a b : Int) : Option Int :=
  if 0 ≤ b then some (Int.pow a b.toNat)
  else if a = 0 then none
  else some (Int.tdiv 1 (Int.pow a (-b).toNat))

end Arithmetic

/-- The value of an operator on unbounded integers. -/
def Operator.ideal? : Operator → Int → Int → Option Int
  | .add, a, b => some (a + b)
  | .sub, a, b => some (a - b)
  | .mul, a, b => some (a * b)
  | .div, a, b => if b = 0 then none else some (a.tdiv b)
  | .mod, a, b => if b = 0 then none else some (a.tmod b)
  | .pow, a, b => Arithmetic.idealPow? a b

namespace Expr

/-- The value of a tree in unbounded integers. -/
def ideal? : Expr → Option Int
  | .leaf text => some (leafValue text)
  | .node op left right => do
    let a ← ideal? left
    let b ← ideal? right
    op.ideal? a b

/-- Every subtree has an ideal value, and it lies in the range. -/
def Within (r : Range) (e : Expr) : Prop :=
  ∀ s ∈ e.subtrees, ∃ v, ideal? s = some v ∧ r.Contains v

end Expr

end IntCalc
