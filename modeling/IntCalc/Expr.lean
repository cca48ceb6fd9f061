import IntCalc.Rpn.Evaluation

/-!
# Expression trees

A `Tree` has operand texts at its leaves and something to apply at its
inner nodes; an `Expr` applies operators. `Tree.postorder` lists the tokens
of a tree, operands before what is applied to them, which is its reverse
Polish form. `Expr.eval` evaluates a tree in the same order: the status is
that of the first operation, in postorder, whose value is no good.
-/

namespace IntCalc

/-- A tree of binary operations. -/
inductive Tree (ω : Type)
  | leaf (text : String)
  | node (op : ω) (left right : Tree ω)
  deriving DecidableEq, Repr

namespace Tree

variable {ω : Type}

/-- The tokens of a tree: left subtree, right subtree, then the node. -/
def postorder (token : ω → Token) : Tree ω → List Token
  | leaf text => [.operand text]
  | node op left right => left.postorder token ++ right.postorder token ++ [token op]

/-- The texts of the leaves, from left to right. -/
def leaves : Tree ω → List String
  | leaf text => [text]
  | node _ left right => left.leaves ++ right.leaves

/-- The tree itself and every subtree of it. -/
def subtrees : Tree ω → List (Tree ω)
  | leaf text => [leaf text]
  | node op left right => node op left right :: (left.subtrees ++ right.subtrees)

/-- Every tree has a token. -/
theorem postorder_ne_nil (token : ω → Token) (t : Tree ω) : t.postorder token ≠ [] := by
  cases t <;> simp [postorder]

end Tree

/-- A tree of operators. -/
abbrev Expr :=
  Tree Operator

/-- The first status of two that is an error. -/
def EvalStatus.orElse (first second : EvalStatus) : EvalStatus :=
  if first = .ok then second else first

namespace Expr

/-- The reverse Polish form of an expression. -/
def postorder (e : Expr) : List Token :=
  Tree.postorder Token.ofOperator e

/-- Every leaf is the text of an integer. -/
def Numeric (e : Expr) : Prop :=
  ∀ text ∈ e.leaves, (Numeral.toInt? text).isSome

instance (e : Expr) : Decidable e.Numeric :=
  inferInstanceAs (Decidable (∀ text ∈ _, _))

/-- The value of a leaf. -/
def leafValue (text : String) : Int :=
  (Numeral.toInt? text).getD 0

/-- The result of evaluating a tree. The value of an operation that is no
good is used further. -/
def eval (ev : Evaluator) : Expr → EvalResult
  | .leaf text => ⟨leafValue text, .ok⟩
  | .node op left right =>
    let a := eval ev left
    let b := eval ev right
    let r := ev.apply op a.value b.value
    ⟨r.value, (a.status.orElse b.status).orElse r.status⟩

end Expr

end IntCalc
