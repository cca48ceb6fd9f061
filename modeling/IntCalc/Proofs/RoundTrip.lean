import IntCalc.Proofs.Acceptance
import IntCalc.Proofs.Operands

/-!
# Tokens are read back from their infix form

The infix form of an expression of canonical operands is an expression in the grammar
of texts, with the same tokens (`written_infixText`) : a minus sign in front of digits
belongs to the operand, since a binary minus stands between spaces.

So the infix form is read back, and as the tokens of every accepted text are such an
expression, these are the only token lists that are read back (`parse_infixText_iff`).
-/

namespace IntCalc

open Grammar

variable {range : Range} {phrase : Phrase} {text : String} {ts us : List Token}

/-! ## Infix forms -/

namespace Tokens

theorem toList_infixText_append :
    (infixText (ts ++ us)).toList = (infixText ts).toList ++ (infixText us).toList := by
  simp [infixText]

theorem toList_infixText_cons (t : Token) :
    (infixText (t :: ts)).toList = t.infixText.toList ++ (infixText ts).toList := by
  simp [infixText]

theorem infixText_operand (text : String) : infixText [.operand text] = text := by
  simp [infixText, Token.infixText, Token.isOperator, Token.operand]

/-- Brackets touch what stands between them. -/
theorem toList_infixText_scope (ts : List Token) :
    (infixText (.opening :: ts ++ [.closing])).toList = '(' :: (infixText ts).toList ++ [')'] := by
  rw [toList_infixText_append, toList_infixText_cons]
  rfl

/-- Operators stand between spaces. -/
theorem toList_infixText_operator (op : Operator) (ts us : List Token) :
    (infixText (ts ++ .ofOperator op :: us)).toList =
      (infixText ts).toList ++ [' ', op.char, ' '] ++ (infixText us).toList := by
  have htoken : (Token.ofOperator op).infixText.toList = [' ', op.char, ' '] := by
    cases op <;> decide
  rw [toList_infixText_append, toList_infixText_cons, htoken, List.append_assoc]

end Tokens

/-! ## Infix forms are phrases -/

/-- The text of a canonical operand is a literal with that text. -/
theorem literal_of_canonical (h : Canonical range text) : Literal range text.toList text := by
  rcases h with rfl | ⟨digits, hdigits, ⟨rfl, hrange⟩ | ⟨rfl, hrange⟩⟩
  · exact .zero
  · rw [String.toList_ofList]
    exact .signed .none hdigits hrange
  · have hrun : Minuses 1 ['-'] := .some isBlanks_nil .none
    rw [String.toList_ofList]
    exact .signed hrun hdigits hrange

/-- The infix form of a phrase of canonical operands is a phrase with the same tokens. -/
theorem written_infixText (h : Derives (Canonical range) phrase ts) :
    Written range phrase (Tokens.infixText ts).toList ts := by
  have hspace : IsBlanks [' '] := by simp [IsBlanks]
  induction h with
  | operand hp =>
    rw [Tokens.infixText_operand]
    exact .literal (literal_of_canonical hp)
  | scope _ ih =>
    rw [Tokens.toList_infixText_scope]
    simpa using Written.scope isBlanks_nil isBlanks_nil ih
  | term _ ih => exact .term ih
  | chain op _ _ ihe iht =>
    rw [Tokens.toList_infixText_operator]
    simpa using Written.chain op ihe hspace hspace iht

/-! ## Round trips -/

theorem parse_infixText (h : IsExpression (Canonical range) ts) :
    Parse.parse range (Tokens.infixText ts) = ⟨.ok, 0, ts⟩ := by
  refine Parse.parse_of_writtenExpression
    ⟨[], _, [], isBlanks_nil, isBlanks_nil, ?_, written_infixText h⟩
  simp

/-- The tokens of an accepted text are an expression of canonical operands. -/
theorem exists_isExpression (h : (Parse.parse range text).ok) :
    ∃ ts, Parse.parse range text = ⟨.ok, 0, ts⟩ ∧ IsExpression (Canonical range) ts := by
  obtain ⟨ts, hts⟩ := Parse.exists_writtenExpression h
  obtain ⟨_, _, _, _, _, _, hwritten⟩ := id hts
  exact ⟨ts, Parse.parse_of_writtenExpression hts, derives_of_written hwritten⟩

/-- The token lists that are read back from their infix form are the expressions of
canonical operands. The tokens of every accepted text are one, so writing and reading
them again gives the same result. -/
theorem parse_infixText_iff (range : Range) :
    (∀ ts, Parse.parse range (Tokens.infixText ts) = ⟨.ok, 0, ts⟩ ↔
      IsExpression (Canonical range) ts) ∧
      ∀ text, (Parse.parse range text).ok →
        IsExpression (Canonical range) (Parse.parse range text).tokens ∧
          Parse.parse range (Tokens.infixText (Parse.parse range text).tokens) =
            Parse.parse range text := by
  refine ⟨fun ts => ⟨fun h => ?_, parse_infixText⟩, fun text h => ?_⟩
  · obtain ⟨us, hus, hexpr⟩ :=
      exists_isExpression (show (Parse.parse range (Tokens.infixText ts)).ok by rw [h]; rfl)
    cases h.symm.trans hus
    exact hexpr
  · obtain ⟨ts, hts, hexpr⟩ := exists_isExpression h
    rw [hts]
    exact ⟨hexpr, parse_infixText hexpr⟩

/-- A binary minus, a minus run and a minus sign behind a bracket are kept apart. -/
example : Tokens.infixText (Parse.parse IntType.int16.range "-5--7*(---3)").tokens =
    "-5 - -7 * (-3)" := by
  decide +kernel

end IntCalc
