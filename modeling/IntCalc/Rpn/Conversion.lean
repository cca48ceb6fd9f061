import IntCalc.Token

/-!
# From infix form to reverse Polish form

The conversion reads the tokens from left to right. Operands go straight to
the output. Operators and opening brackets wait in a stack of pending
tokens: an operator sends the pending operators that bind before it to the
output, and a closing bracket sends everything down to the nearest opening
bracket. `Conversion.step` reads one token and `toRpn` a whole list.

Lists that are no expression are converted too. Only a token of a kind
outside the grammar, or a closing bracket without an opening one, stops the
conversion, and an opening bracket that is never closed ends up in the
output.
-/

namespace IntCalc

/-- Why a list of tokens has no reverse Polish form. -/
inductive ConversionError
  /-- A closing bracket finds no opening one. -/
  | unmatchedClosing
  /-- The kind of a token is outside the grammar. -/
  | unknownKind (name : String)
  deriving DecidableEq, Repr

/-- The text of a failed conversion. -/
def ConversionError.message : ConversionError → String
  | unmatchedClosing => "pop from empty list"
  | unknownKind name => "Unexpected token type: " ++ name

namespace Conversion

/-- The state between two tokens. -/
structure State where
  /-- The output, latest token first. -/
  output : List Token := []
  /-- The pending operators and opening brackets, latest first. -/
  pending : List Token := []
  deriving DecidableEq, Repr

/-- Sends pending tokens to the output as long as `p` holds. -/
def State.flushWhile (p : Token → Bool) (s : State) : State :=
  ⟨(s.pending.takeWhile p).reverse ++ s.output, s.pending.dropWhile p⟩

/-- A pending operator that is applied before `incoming`. -/
def yieldsTo (incoming top : Token) : Bool :=
  top.isOperator && top.bindsBefore incoming

/-- Reads an operator. -/
def pushOperator (s : State) (t : Token) : State :=
  let flushed := s.flushWhile (yieldsTo t)
  { flushed with pending := t :: flushed.pending }

/-- Reads a closing bracket. -/
def closeScope (s : State) : Except ConversionError State :=
  let flushed := s.flushWhile (!·.isOpening)
  match flushed.pending with
  | [] => .error .unmatchedClosing
  | _ :: pending => .ok { flushed with pending := pending }

/-- Reads one token. -/
def step (s : State) (t : Token) : Except ConversionError State :=
  match t.kind with
  | .operand => .ok { s with output := t :: s.output }
  | .opening => .ok { s with pending := t :: s.pending }
  | .closing => closeScope s
  | .operator => .ok (pushOperator s t)
  | .other name => .error (.unknownKind name)

/-- The output once every pending token has been sent to it, in order. -/
def State.finish (s : State) : List Token :=
  s.output.reverse ++ s.pending

/-- Reads a list of tokens. -/
def run (s : State) (tokens : List Token) : Except ConversionError State :=
  tokens.foldlM step s

end Conversion

/-- The reverse Polish form of a list of tokens. -/
def toRpn (tokens : List Token) : Except ConversionError (List Token) :=
  (Conversion.run {} tokens).map Conversion.State.finish

end IntCalc
