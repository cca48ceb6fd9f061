import IntCalc.IntType
import IntCalc.Numeral
import IntCalc.Parse.Result
import IntCalc.Symbol

/-!
# Reading one token

The functions of this file read from the front of the unread text and
return what is left of it. `skipBlanks` drops blanks and tabs, `expect?`
and `operator?` read one character after any blanks, and `integer` reads a
literal: `0`, or a run of minus signs and a number that does not start with
`0`. Blanks may stand between the minus signs and in front of the digits,
but not between digits.
-/

namespace IntCalc.Parse

/-- Drops blanks and tabs. -/
def skipBlanks (text : List Char) : List Char :=
  text.dropWhile fun c => (Symbol.ofChar c).isBlank

/-- Reads a character of the given class after any blanks. -/
def expect? (symbol : Symbol) (text : List Char) : Option (List Char) :=
  match skipBlanks text with
  | [] => none
  | c :: rest => if Symbol.ofChar c = symbol then some rest else none

/-- Reads an operator after any blanks. -/
def operator? (text : List Char) : Option (Operator × List Char) :=
  match skipBlanks text with
  | [] => none
  | c :: rest =>
    match Symbol.ofChar c with
    | .operator op => some (op, rest)
    | _ => none

/-- Reads a run of minus signs and blanks. The sign so far is `negative`
and every minus turns it round. -/
def signs (negative : Bool) : List Char → Bool × List Char
  | [] => (negative, [])
  | c :: rest =>
    match Symbol.ofChar c with
    | .operator .sub => signs (!negative) rest
    | .space | .tab => signs negative rest
    | _ => (negative, c :: rest)

/-- The digits at the front of the text. -/
def leadingDigits (text : List Char) : List Char :=
  text.takeWhile fun c => (Symbol.ofChar c).isDigit

/-- What follows the digits at the front of the text. -/
def afterDigits (text : List Char) : List Char :=
  text.dropWhile fun c => (Symbol.ofChar c).isDigit

/-- The text of a literal. -/
def literalText (negative : Bool) (digits : List Char) : String :=
  String.ofList (if negative then '-' :: digits else digits)

/-- The value of a literal. -/
def literalValue (negative : Bool) (digits : List Char) : Int :=
  if negative then -(Numeral.natValue digits : Int) else Numeral.natValue digits

/-- A failed reading: why, and the unread text at which it is noticed. -/
structure Failure where
  status : ParseStatus
  rest : List Char
  deriving DecidableEq, Repr

/-- Reads a number that does not start with `0`, whose sign is known. The
value must lie strictly inside the range. -/
def natural (range : Range) (negative : Bool) (text : List Char) :
    Except Failure (String × List Char) :=
  match text with
  | [] => .error ⟨.illFormedInteger, []⟩
  | c :: rest =>
    if Symbol.ofChar c = .nonZeroDigit then
      let digits := leadingDigits (c :: rest)
      if range.Interior (literalValue negative digits) then
        .ok (literalText negative digits, afterDigits (c :: rest))
      else .error ⟨.integerOutOfRange, c :: rest⟩
    else .error ⟨.illFormedInteger, c :: rest⟩

/-- Reads a literal from a text that starts with no blank. After `0` the
literal ends, whatever follows. -/
def integer (range : Range) (text : List Char) : Except Failure (String × List Char) :=
  match text with
  | '0' :: rest => .ok ("0", rest)
  | _ =>
    let (negative, rest) := signs false text
    natural range negative rest

/-! ## What is left is shorter -/

/-- Dropping blanks makes no text longer. -/
theorem length_skipBlanks_le (text : List Char) : (skipBlanks text).length ≤ text.length :=
  (List.dropWhile_sublist _).length_le

/-- A character that was read is gone. -/
theorem length_expect? {symbol : Symbol} {text rest : List Char}
    (h : expect? symbol text = some rest) : rest.length < text.length := by
  have hle := length_skipBlanks_le text
  unfold expect? at h
  split at h
  · simp at h
  · next c tail heq =>
    split at h
    · simp only [Option.some.injEq] at h
      subst h
      simp only [heq, List.length_cons] at hle
      omega
    · simp at h

/-- An operator that was read is gone. -/
theorem length_operator? {op : Operator} {text rest : List Char}
    (h : operator? text = some (op, rest)) : rest.length < text.length := by
  have hle := length_skipBlanks_le text
  unfold operator? at h
  split at h
  · simp at h
  · next c tail heq =>
    split at h
    · simp only [Option.some.injEq, Prod.mk.injEq] at h
      obtain ⟨-, rfl⟩ := h
      simp only [heq, List.length_cons] at hle
      omega
    · simp at h

/-- Reading signs makes no text longer. -/
theorem length_signs_le (negative : Bool) (text : List Char) :
    (signs negative text).2.length ≤ text.length := by
  fun_induction signs negative text <;> grind

/-- The first digit at least is gone. -/
theorem length_afterDigits {c : Char} {rest : List Char}
    (h : Symbol.ofChar c = .nonZeroDigit) :
    (afterDigits (c :: rest)).length < (c :: rest).length := by
  have hdrop : (afterDigits rest).length ≤ rest.length := (List.dropWhile_sublist _).length_le
  simp only [afterDigits, List.dropWhile_cons, h, Symbol.isDigit, if_true, List.length_cons]
  exact Nat.lt_succ_of_le hdrop

/-- A number that was read is gone. -/
theorem length_natural_ok {range : Range} {negative : Bool} {text rest : List Char}
    {numeral : String} (h : natural range negative text = .ok (numeral, rest)) :
    rest.length < text.length := by
  unfold natural at h
  split at h
  · simp at h
  · next c tail =>
    split at h
    · next hc =>
      dsimp only at h
      split at h
      · simp only [Except.ok.injEq, Prod.mk.injEq] at h
        exact h.2 ▸ length_afterDigits hc
      · simp at h
    · simp at h

/-- A number that fails leaves its text unread. -/
theorem length_natural_error {range : Range} {negative : Bool} {text : List Char}
    {failure : Failure} (h : natural range negative text = .error failure) :
    failure.rest = text := by
  unfold natural at h
  split at h
  · simp only [Except.error.injEq] at h
    simp [← h]
  · split at h
    · dsimp only at h
      split at h
      · simp at h
      · simp only [Except.error.injEq] at h
        simp [← h]
    · simp only [Except.error.injEq] at h
      simp [← h]

/-- A literal that was read is gone. -/
theorem length_integer_ok {range : Range} {text rest : List Char} {numeral : String}
    (h : integer range text = .ok (numeral, rest)) : rest.length < text.length := by
  unfold integer at h
  split at h
  · simp only [Except.ok.injEq, Prod.mk.injEq] at h
    simp [h.2]
  · have := length_natural_ok h
    have := length_signs_le false text
    omega

/-- A literal that fails makes no text longer. -/
theorem length_integer_error {range : Range} {text : List Char} {failure : Failure}
    (h : integer range text = .error failure) : failure.rest.length ≤ text.length := by
  unfold integer at h
  split at h
  · simp at h
  · rw [length_natural_error h]
    exact length_signs_le false text

end IntCalc.Parse
