import IntCalc.Parse.Cursor
import IntCalc.Proofs.Moves

/-!
# What the readers with a cursor do

The cursor stands where the unread text `rest` begins, at `columnOf text rest`. Each reader
with a cursor then does what the reader of lists does with `rest`, and looks at no character
that is not there (`expect_columnOf`, `operator_columnOf`, `integer_columnOf`). Only behind a
number that is out of range the cursor is further on than the failure says (`reached`).
-/

namespace IntCalc.Parse.Cursor

variable {range : Range} {text rest : List Char} {c : Char}

/-! ## Looking at the text -/

theorem columnOf_cons (h : c :: rest <:+ text) :
    columnOf text (c :: rest) + 1 = columnOf text rest := by
  obtain ⟨front, rfl⟩ := h
  have hsplit : front ++ c :: rest = front ++ [c] ++ rest := by simp
  rw [columnOf_append, hsplit, columnOf_append]
  simp

theorem suffix_of_cons (h : c :: rest <:+ text) : rest <:+ text :=
  (List.suffix_cons c rest).trans h

theorem atEnd_columnOf (h : rest <:+ text) : atEnd text (columnOf text rest) = rest.isEmpty := by
  obtain ⟨front, rfl⟩ := h
  rw [columnOf_append]
  cases rest <;> simp [atEnd]

/-- The character at the cursor is the first of those unread. -/
theorem current_columnOf (h : c :: rest <:+ text) :
    current text (columnOf text (c :: rest)) = .ok (Symbol.ofChar c) := by
  obtain ⟨front, rfl⟩ := h
  rw [columnOf_append]
  simp [current]

theorem peek_nil (p : Symbol → Bool) (text : List Char) :
    peek p text (columnOf text []) = .ok false := by
  simp [peek, atEnd_columnOf List.nil_suffix]

theorem peek_cons (p : Symbol → Bool) (h : c :: rest <:+ text) :
    peek p text (columnOf text (c :: rest)) = .ok (p (Symbol.ofChar c)) := by
  simp [peek, atEnd_columnOf h, current_columnOf h, Except.map]

theorem skipWhile_of_false {p : Symbol → Bool} {pos : Nat} (h : peek p text pos = .ok false) :
    skipWhile p text pos = .ok pos := by
  rw [skipWhile]
  split <;> simp_all

theorem skipWhile_of_true {p : Symbol → Bool} {pos : Nat} (h : peek p text pos = .ok true) :
    skipWhile p text pos = skipWhile p text (pos + 1) := by
  rw [skipWhile]
  split <;> simp_all

theorem skipWhile_columnOf (p : Symbol → Bool) (h : rest <:+ text) :
    skipWhile p text (columnOf text rest) =
      .ok (columnOf text (rest.dropWhile fun c => p (Symbol.ofChar c))) := by
  induction rest with
  | nil => exact skipWhile_of_false (peek_nil p text)
  | cons c rest ih =>
    have hpeek := peek_cons p h
    cases hp : p (Symbol.ofChar c) with
    | false =>
      rw [skipWhile_of_false (hp ▸ hpeek), List.dropWhile_cons, if_neg (by simp [hp])]
    | true =>
      rw [skipWhile_of_true (hp ▸ hpeek), columnOf_cons h, ih (suffix_of_cons h),
        List.dropWhile_cons, if_pos hp]

theorem skipBlanks_columnOf (h : rest <:+ text) :
    skipBlanks text (columnOf text rest) = .ok (columnOf text (Parse.skipBlanks rest)) :=
  skipWhile_columnOf Symbol.isBlank h

/-! ## Single characters -/

/-- What is left of a text if a character of the class is read at its front. -/
def next? (symbol : Symbol) : List Char → Option (List Char)
  | [] => none
  | c :: rest => if Symbol.ofChar c = symbol then some rest else none

theorem exists_of_next? {symbol : Symbol} (h : next? symbol text = some rest) :
    ∃ c, text = c :: rest ∧ Symbol.ofChar c = symbol := by
  cases text with
  | nil => cases h
  | cons c text =>
    obtain ⟨hc, heq⟩ := Option.ite_none_right_eq_some.1 h
    cases heq
    exact ⟨c, rfl, hc⟩

/-- The cursor once a character is read, or where it was looked for. -/
def landing (text : List Char) (found : Option (List Char)) (rest : List Char) : Bool × Nat :=
  match found with
  | some rest' => (true, columnOf text rest')
  | none => (false, columnOf text rest)

theorem accept_columnOf (symbol : Symbol) (h : rest <:+ text) :
    accept symbol text (columnOf text rest) = .ok (landing text (next? symbol rest) rest) := by
  cases rest with
  | nil =>
    rw [accept, peek_nil]
    rfl
  | cons c rest =>
    rw [accept, peek_cons _ h]
    by_cases hc : Symbol.ofChar c = symbol
    · rw [decide_eq_true hc, columnOf_cons h, next?, if_pos hc]
      rfl
    · rw [decide_eq_false hc, next?, if_neg hc]
      rfl

theorem expect?_eq_next? (symbol : Symbol) (text : List Char) :
    expect? symbol text = next? symbol (Parse.skipBlanks text) := by
  unfold expect? next?
  cases Parse.skipBlanks text <;> rfl

theorem expect_columnOf (symbol : Symbol) (h : rest <:+ text) :
    expect symbol text (columnOf text rest) =
      .ok (landing text (expect? symbol rest) (Parse.skipBlanks rest)) := by
  rw [expect, skipBlanks_columnOf h, expect?_eq_next?]
  exact accept_columnOf symbol ((suffix_skipBlanks rest).trans h)

theorem expect?_skipBlanks (symbol : Symbol) (text : List Char) :
    expect? symbol (Parse.skipBlanks text) = expect? symbol text := by
  rw [expect?_eq_next?, expect?_eq_next?, skipBlanks_skipBlanks]

/-! ## Operators -/

theorem expect?_operator_eq_some_iff {op : Operator} :
    expect? (.operator op) text = some rest ↔ operator? text = some (op, rest) := by
  rw [operator?_eq_some_iff,
    expect?_eq_some_iff (fun _ => Symbol.ofChar_eq_operator_iff) (not_isBlank_operator op)]

/-- The cursor once an operator is read, or where it was looked for. -/
def landingOperator (text : List Char) (found : Option (Operator × List Char))
    (rest : List Char) : Option Operator × Nat :=
  match found with
  | some (op, rest') => (some op, columnOf text rest')
  | none => (none, columnOf text rest)

/-- Behind blanks an operator is read if it is among those tried. -/
theorem anyOperator_columnOf (ops : List Operator) (hskip : Parse.skipBlanks rest = rest)
    (h : rest <:+ text) :
    anyOperator text ops (columnOf text rest) =
      .ok (landingOperator text ((operator? rest).filter fun found => found.1 ∈ ops) rest) := by
  induction ops with
  | nil => cases hop : operator? rest <;> simp [anyOperator, landingOperator, pure_eq_ok]
  | cons op ops ih =>
    rw [anyOperator, expect_columnOf _ h, hskip]
    cases hexpect : expect? (.operator op) rest with
    | some rest' =>
      rw [expect?_operator_eq_some_iff.1 hexpect]
      simp [landing, landingOperator, Option.filter, pure_eq_ok]
    | none =>
      -- The operator in front, if any, is another one.
      have hother : ∀ found ∈ operator? rest, found.1 ≠ op := by
        rintro ⟨op', rest'⟩ hop rfl
        simp [expect?_operator_eq_some_iff.2 hop] at hexpect
      simp only [landing, ok_bind, Bool.false_eq_true, if_false]
      rw [ih]
      cases hop : operator? rest with
      | none => rfl
      | some found => simp [Option.filter, hother found hop]

theorem operator_columnOf (h : rest <:+ text) :
    operator text (columnOf text rest) =
      .ok (landingOperator text (operator? rest) (Parse.skipBlanks rest)) := by
  have hskip : operator text (columnOf text rest) =
      operator text (columnOf text (Parse.skipBlanks rest)) := by
    simp only [operator, Operator.all, anyOperator]
    rw [expect_columnOf _ h, expect_columnOf _ ((suffix_skipBlanks rest).trans h),
      expect?_skipBlanks, skipBlanks_skipBlanks]
  have hop : operator? (Parse.skipBlanks rest) = operator? rest := by
    simp [operator?, skipBlanks_skipBlanks]
  have hall : ((operator? rest).filter fun found => found.1 ∈ Operator.all) = operator? rest := by
    cases operator? rest <;> simp [Option.filter]
  rw [hskip, operator, anyOperator_columnOf _ (skipBlanks_skipBlanks rest)
    ((suffix_skipBlanks rest).trans h), hop, hall]

/-! ## Literals -/

theorem signs_of_true {negative : Bool} {pos next : Nat}
    (h : expect (.operator .sub) text pos = .ok (true, next)) :
    signs text negative pos = signs text (!negative) next := by
  rw [signs]
  split <;> simp_all

theorem signs_of_false {negative : Bool} {pos next : Nat}
    (h : expect (.operator .sub) text pos = .ok (false, next)) :
    signs text negative pos = .ok (negative, next) := by
  rw [signs]
  split <;> simp_all

theorem signs_of_expect?_some {negative : Bool}
    (h : expect? (.operator .sub) text = some rest) :
    Parse.signs negative text = Parse.signs (!negative) rest := by
  obtain ⟨w, hw, rfl⟩ := operator?_eq_some_iff.1 (expect?_operator_eq_some_iff.1 h)
  rw [signs_append_blanks hw]
  simp [Parse.signs]

theorem signs_of_expect?_none {negative : Bool} (h : expect? (.operator .sub) text = none) :
    Parse.signs negative text = (negative, Parse.skipBlanks text) := by
  obtain ⟨w, hw, htext⟩ := exists_eq_append_skipBlanks text
  rw [expect?_eq_next?] at h
  conv_lhs => rw [htext, signs_append_blanks hw]
  cases hskip : Parse.skipBlanks text with
  | nil => rfl
  | cons c rest =>
    refine signs_cons (not_isBlank_of_skipBlanks hskip) ?_
    rintro rfl
    simp [hskip, next?, show Symbol.ofChar '-' = .operator .sub from rfl] at h

theorem signs_columnOf (negative : Bool) (h : rest <:+ text) :
    signs text negative (columnOf text rest) =
      .ok ((Parse.signs negative rest).1, columnOf text (Parse.signs negative rest).2) := by
  -- A minus sign may have blanks in front, so more than one character can go at once.
  induction hn : rest.length using Nat.strongRecOn generalizing negative rest with
  | ind n ih =>
    have hexpect := expect_columnOf (.operator .sub) h
    cases hminus : expect? (.operator .sub) rest with
    | some rest' =>
      have hsuffix : rest' <:+ text := (consumed_expect? rfl hminus).suffix.trans h
      rw [hminus] at hexpect
      rw [signs_of_true hexpect, ih _ (hn ▸ length_expect? hminus) _ hsuffix rfl,
        signs_of_expect?_some hminus]
    | none =>
      rw [hminus] at hexpect
      rw [signs_of_false hexpect, signs_of_expect?_none hminus]

/-- What the cursor has passed when a reading fails. A number out of range is read to its
end. -/
def reached (status : ParseStatus) (rest : List Char) : List Char :=
  if status = .integerOutOfRange then afterDigits rest else rest

/-- The cursor once a literal is read, or where reading it failed. -/
def landingLiteral (text : List Char) :
    Except Failure (String × List Char) → Except Halt String × Nat
  | .ok (numeral, rest) => (.ok numeral, columnOf text rest)
  | .error failure =>
    (.error ⟨failure.status, columnOf text failure.rest⟩,
      columnOf text (reached failure.status failure.rest))

/-- What stands between two places of the cursor. -/
theorem extract_columnOf {front : List Char} (h : front ++ rest <:+ text) :
    text.extract (columnOf text (front ++ rest)) (columnOf text rest) = front := by
  obtain ⟨before, rfl⟩ := h
  have hstop : columnOf (before ++ (front ++ rest)) rest = (before ++ front).length := by
    rw [← List.append_assoc, columnOf_append]
  rw [columnOf_append, hstop]
  simp

theorem natural_columnOf (negative : Bool) (h : rest <:+ text) :
    natural range text negative (columnOf text rest) =
      .ok (landingLiteral text (Parse.natural range negative rest)) := by
  rw [natural, accept_columnOf _ h]
  cases rest with
  | nil => rfl
  | cons c rest =>
    by_cases hc : Symbol.ofChar c = .nonZeroDigit
    · have hafter : afterDigits (c :: rest) = afterDigits rest := by
        simp [afterDigits, hc, Symbol.isDigit]
      have hskip : skipWhile Symbol.isDigit text (columnOf text rest) =
          .ok (columnOf text (afterDigits (c :: rest))) :=
        hafter ▸ skipWhile_columnOf Symbol.isDigit (suffix_of_cons h)
      have hextract : text.extract (columnOf text (c :: rest))
          (columnOf text (afterDigits (c :: rest))) = leadingDigits (c :: rest) := by
        have hsplit := leadingDigits_append_afterDigits (c :: rest)
        have hcut := extract_columnOf (hsplit.symm ▸ h)
        rwa [hsplit] at hcut
      simp only [next?, hc, if_true, landing, ok_bind, hskip, hextract, Parse.natural]
      split
      · rfl
      · rfl
    · simp [next?, hc, landing, bind, Except.bind, pure, Except.pure, Parse.natural,
        landingLiteral, reached]

theorem integer_columnOf (h : rest <:+ text) :
    integer range text (columnOf text rest) =
      .ok (landingLiteral text (Parse.integer range rest)) := by
  rw [integer, accept_columnOf _ h]
  cases hzero : next? .zero rest with
  | some rest' =>
    obtain ⟨c, rfl, hc⟩ := exists_of_next? hzero
    obtain rfl : c = '0' := Symbol.ofChar_eq_zero_iff.1 hc
    rfl
  | none =>
    have hhead : rest.head? ≠ some '0' := by
      intro hhead
      obtain ⟨tail, rfl⟩ := List.head?_eq_some_iff.1 hhead
      cases hzero
    simp only [landing, ok_bind, Bool.false_eq_true, if_false]
    rw [signs_columnOf _ h, integer_eq_natural hhead]
    exact natural_columnOf _ ((suffix_signs false rest).trans h)

end IntCalc.Parse.Cursor
