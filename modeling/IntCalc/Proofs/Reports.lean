import IntCalc.Proofs.ErrorColumn
import IntCalc.Proofs.Overflow
import IntCalc.Proofs.Pipeline
import IntCalc.Proofs.Tables

/-!
# Reports of outcomes

The column of a syntax error lies in the text or just behind it
(`Calculator.shownColumn_outcome`) and a value lies in the bounds of the calculator
(`Calculator.contains_value_outcome`). So a report can be made on texts whose lengths have at
most 53 bits, unless the calculator has values of 64 bits (`Calculator.exists_ofOutcomes`).
-/

namespace IntCalc

open Grammar

variable {c : Calculator} {text : String} {e : Expr} {ev : Evaluator} {n : Int}

/-! ## Numbers of outcomes -/

/-- A good value lies in the range of the evaluator. -/
theorem Expr.contains_of_eval_eq_ok
    (hleaves : ∀ text ∈ e.leaves, ev.range.Contains (leafValue text))
    (h : eval ev e = ⟨n, .ok⟩) : ev.range.Contains n := by
  cases e with
  | leaf text =>
    obtain ⟨rfl, -⟩ := EvalResult.mk.inj h
    exact hleaves text (List.mem_singleton_self _)
  | node op l r =>
    obtain ⟨a, b, -, -, hop⟩ := eval_node_eq_ok_iff.1 h
    exact (Evaluator.judge_eq_ok_iff.1 hop).2

/-- An outcome has a value if its evaluation was good. -/
theorem Outcome.eval_of_value {o : Outcome} (h : o.value = some n) : o.eval = some ⟨n, .ok⟩ := by
  unfold value at h
  split at h
  · next r heval =>
    split at h
    · next hok => rw [heval, EvalResult.eq_of_ok (Option.some.inj h) (EvalResult.ok_iff.1 hok)]
    · cases h
  · cases h

namespace Calculator

/-- The value of a text lies in the bounds. -/
theorem contains_value_outcome (h : (c.outcome text).value = some n) :
    c.bounded.range.Contains n := by
  by_cases hok : (c.parse text).ok
  · obtain ⟨e, he, hleaves⟩ := exists_canonical_tree hok
    have hcontains : ∀ text ∈ e.leaves, c.bounded.range.Contains (Expr.leafValue text) :=
      fun text ht => (contains_of_canonical (hleaves text ht)).2
    have houtcome := outcome_eq_of_evaluate
      (evaluate_of_ok hok he (Expr.numeric_of_canonical c.bounded.interiorPrintable hleaves))
    have hvalue : some (e.eval c.evaluator) = some ⟨n, .ok⟩ := by
      rw [← Outcome.eval_of_value h, houtcome]
    exact Expr.contains_of_eval_eq_ok hcontains (Option.some.inj hvalue)
  · simp [outcome_of_not_ok hok, Outcome.value] at h

/-- The column that is shown is that of a character, or of the end. -/
theorem shownColumn_outcome (h : (c.outcome text).shownColumn = some n) :
    1 ≤ n ∧ n ≤ text.length + 1 := by
  by_cases hok : (c.parse text).ok
  · obtain ⟨rpn, result, -, -, -, ho⟩ := exists_outcome_of_ok hok
    simp [ho, Outcome.shownColumn] at h
  · have hstatus : (Parse.parseChars c.bounded.range text.toList).status ≠ .ok :=
      mt ParseResult.ok_iff.2 hok
    obtain ⟨front, rest, htext, hcolumn, -⟩ :=
      Parse.exists_stopsBehind (Parse.interior_one c.bounded) hstatus
    have hlength : text.length = front.length + rest.length := by
      rw [← String.length_toList, htext, List.length_append]
    have hshown : (front.length : Int) + 1 = n := by
      rw [outcome_of_not_ok hok] at h
      rw [← hcolumn]
      exact Option.some.inj h
    omega

end Calculator

/-! ## Reports -/

/-- A type of fewer than 64 bits has small values only. -/
theorem IntType.natAbs_lt_of_contains {t : IntType} (ht : t.bits < 64) (h : t.range.Contains n) :
    n.natAbs < 9007199254740992 := by
  obtain ⟨hlo, hhi⟩ := h
  cases t <;> simp only [range, bits] at * <;> omega

namespace Calculator

/-- The value of a text is small. -/
theorem small_value (hbits : c.bounded.bits < 64) (text : String) :
    SmallNumber (c.outcome text).value :=
  fun _ h => IntType.natAbs_lt_of_contains hbits (contains_value_outcome h)

/-- The column of a text is small if the text is not too long. -/
theorem small_shownColumn (hlength : text.length + 1 < 9007199254740992) :
    SmallNumber (c.outcome text).shownColumn := by
  intro n hn
  have hcolumn := shownColumn_outcome hn
  omega

/-- A report on texts can be made if none is too long. -/
theorem exists_ofOutcomes {library : TableLibrary} (hlibrary : library.Tables)
    (hbits : c.bounded.bits < 64) {texts : List String}
    (h : ∀ text ∈ texts, text.length + 1 < 9007199254740992) :
    ∃ rows, Report.ofOutcomes library (texts.map c.outcome) = .ok rows := by
  refine hlibrary.exists_table fun row hrow => ?_
  obtain ⟨o, ho, rfl⟩ := List.mem_map.1 hrow
  obtain ⟨text, htext, rfl⟩ := List.mem_map.1 ho
  exact ⟨small_shownColumn (h text htext), small_value hbits text⟩

end Calculator

end IntCalc
