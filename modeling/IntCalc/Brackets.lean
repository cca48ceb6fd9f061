import IntCalc.Token

/-!
# Brackets in token lists

`Tokens.unclosed` lists the opening brackets of a token list that no
closing one matches, latest first. They delimit the open levels, of which
the outermost has the number `0`, and `Tokens.Marked` says of a level that
it has an operator that is not inside a closed pair of brackets.
`Tokens.openLevels` follows the open levels token by token and keeps of
each whether it is marked.
-/

namespace IntCalc.Tokens

/-- The unmatched opening brackets after one more token. -/
def unclosedStep (openings : List Token) (t : Token) : List Token :=
  match t.kind with
  | .opening => t :: openings
  | .closing => openings.tail
  | _ => openings

/-- The opening brackets that are not matched, latest first. -/
def unclosed (tokens : List Token) : List Token :=
  tokens.foldl unclosedStep []

/-- A level is marked if it has an operator of its own : one behind as many
unclosed brackets, none of which is closed later. -/
def Marked (tokens : List Token) (level : Nat) : Prop :=
  ∃ before op after, tokens = before ++ op :: after ∧ op.isOperator ∧
    (unclosed before).length = level ∧
    ∀ more, more <+: after → level ≤ (unclosed (before ++ op :: more)).length

/-- Whether a token list ends in an operand or a closing bracket. -/
def endsTerm (tokens : List Token) : Bool :=
  tokens.getLast?.any fun t => t.isOperand || t.isClosing

/-- The open levels after one more token. -/
def levelStep (levels : List Bool) (t : Token) : List Bool :=
  match t.kind with
  | .opening => false :: levels
  | .closing => levels.tail
  | .operator =>
    match levels with
    | [] => []
    | _ :: outer => true :: outer
  | _ => levels

/-- The open levels of a token list, innermost first. A level is marked if
it has an operator of its own. -/
def openLevels (tokens : List Token) : List Bool :=
  tokens.foldl levelStep [false]

end IntCalc.Tokens
