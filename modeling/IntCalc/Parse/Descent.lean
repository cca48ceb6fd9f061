import IntCalc.Parse.Machine

/-!
# Reading by recursive descent

The grammar read by functions that call each other: `expression` reads a
term and then `operators`, which reads operators and the terms that follow
them, and `term` reads a literal or calls `expression` between brackets.
A term that fails at the end of the text after an operator is a missing
term, unless a literal was out of range. `descend` is the whole reading.
-/

namespace IntCalc.Parse

/-- What was read from a text of fewer than `n` characters: the rest of the
text or a failure, and the tokens, latest first. -/
inductive Read (n : Nat)
  | ok (rest : List Char) (tokens : List Token) (shorter : rest.length < n)
  | failed (failure : Failure) (tokens : List Token)

/-- A longer text has the same rest. -/
def Read.widen {m n : Nat} (h : m ≤ n) : Read m → Read n
  | .ok rest tokens shorter => .ok rest tokens (Nat.lt_of_lt_of_le shorter h)
  | .failed failure tokens => .failed failure tokens

/-- A term after an operator fails. -/
def Failure.afterOperator (f : Failure) : Failure :=
  if f.rest = [] ∧ f.status ≠ .integerOutOfRange then ⟨.missingTerm, []⟩ else f

mutual

/-- Reads a term and all operators with their terms. -/
def expression (range : Range) (text : List Char) (tokens : List Token) : Read text.length :=
  match term range text tokens with
  | .failed failure tokens => .failed failure tokens
  | .ok rest tokens shorter => (operators range rest tokens).widen shorter
termination_by (text.length, 1)

/-- Reads operators with their terms, as many as there are. -/
def operators (range : Range) (text : List Char) (tokens : List Token) :
    Read (text.length + 1) :=
  match h : operator? text with
  | none => .ok text tokens (Nat.lt_succ_self _)
  | some (op, rest) =>
    have hrest := length_operator? h
    match term range rest (.ofOperator op :: tokens) with
    | .failed failure tokens => .failed failure.afterOperator tokens
    | .ok rest' tokens shorter =>
      (operators range rest' tokens).widen (by omega)
termination_by (text.length, 2)

/-- Reads a literal, or an expression between brackets. -/
def term (range : Range) (text : List Char) (tokens : List Token) : Read text.length :=
  match h : expect? .opening text with
  | some rest =>
    have hrest := length_expect? h
    match expression range rest (.opening :: tokens) with
    | .failed failure tokens => .failed failure tokens
    | .ok rest' tokens shorter =>
      match hc : expect? .closing rest' with
      | some rest'' =>
        .ok rest'' (.closing :: tokens) (by have := length_expect? hc; omega)
      | none => .failed ⟨.missingClosing, skipBlanks rest'⟩ tokens
  | none =>
    match hi : integer range (skipBlanks text) with
    | .ok (numeral, rest) =>
      .ok rest (.operand numeral :: tokens)
        (Nat.lt_of_lt_of_le (length_integer_ok hi) (length_skipBlanks_le text))
    | .error failure => .failed failure tokens
termination_by (text.length, 0)

end

/-- Reads a text by recursive descent: blanks, one expression, blanks. -/
def descend (range : Range) (text : List Char) : ParseResult :=
  match skipBlanks text with
  | [] => ⟨.unexpectedEnd, columnOf text [], []⟩
  | start =>
    match expression range start [] with
    | .failed failure tokens => ⟨failure.status, columnOf text failure.rest, tokens.reverse⟩
    | .ok rest tokens _ =>
      match skipBlanks rest with
      | [] => ⟨.ok, 0, tokens.reverse⟩
      | rest => ⟨.extraneousSymbol, columnOf text rest, tokens.reverse⟩

end IntCalc.Parse
