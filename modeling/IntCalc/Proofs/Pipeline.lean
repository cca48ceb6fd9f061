import IntCalc.Calculator
import IntCalc.Proofs.Depth
import IntCalc.Proofs.RoundTrip
import IntCalc.Proofs.Shunting

/-!
# Every text has an outcome

The tokens of an accepted text have a syntax tree whose leaves are canonical operands
(`exists_canonical_tree`). Its postorder is their reverse Polish form, it leaves one value
(`Tree.wellFormed_postorder`), and it can be evaluated. So nothing behind the parser
fails : `Calculator.outcome` is the outcome of every text (`Calculator.evaluate_eq_ok`),
and a text that is not accepted has one without a reverse Polish form or a result.
-/

namespace IntCalc

open Grammar

variable {range : Range} {c : Calculator} {text : String} {e : Expr}

/-- The tokens of an accepted text have a syntax tree, and its leaves are canonical. -/
theorem exists_canonical_tree (h : (Parse.parse range text).ok) :
    ∃ e, HasTree (Parse.parse range text).tokens e ∧
      ∀ text ∈ e.leaves, Canonical range text := by
  obtain ⟨ts, hts, hexpr⟩ := exists_isExpression h
  obtain ⟨e, he⟩ := exists_parses hexpr
  rw [hts]
  exact ⟨e, he, fun text ht => of_operand_mem hexpr (operand_mem_of_mem_leaves he ht)⟩

namespace Calculator

/-- The tokens of an accepted text have a syntax tree, and its leaves are numerals. -/
theorem exists_tree (h : (c.parse text).ok) : ∃ e, HasTree (c.parse text).tokens e ∧ e.Numeric := by
  obtain ⟨e, he, hleaves⟩ := exists_canonical_tree h
  exact ⟨e, he, Expr.numeric_of_canonical c.bounded.interiorPrintable hleaves⟩

theorem evaluate_postorder (c : Calculator) (h : e.Numeric) :
    c.evaluator.evaluate e.postorder = .ok (e.eval c.evaluator) :=
  Evaluator.evaluate_postorder_eq_ok c.printable h

/-- An accepted text is evaluated as its syntax tree. -/
theorem evaluate_of_ok (h : (c.parse text).ok) (he : HasTree (c.parse text).tokens e)
    (hnumeric : e.Numeric) :
    c.evaluate text = .ok ⟨text, c.parse text, e.postorder, some (e.eval c.evaluator)⟩ := by
  have hform : Tokens.wellFormed e.postorder = true := Tree.wellFormed_postorder (fun _ => rfl) e
  have hconvert : convert text (c.parse text).tokens = .ok e.postorder := by
    rw [convert, toRpn_of_hasTree he]
    show (if _ then _ else _) = _
    rw [if_pos hform]
    rfl
  rw [evaluate, if_pos h, hconvert]
  show ((c.evaluator.evaluate e.postorder).mapError _ >>= _) = _
  rw [c.evaluate_postorder hnumeric]
  rfl

theorem evaluate_of_not_ok (h : ¬(c.parse text).ok) :
    c.evaluate text = .ok ⟨text, c.parse text, [], none⟩ := by
  rw [evaluate, if_neg h]
  rfl

/-- The outcome of a text. -/
def outcome (c : Calculator) (text : String) : Outcome :=
  (c.evaluate text).toOption.getD { expression := text, parse := c.parse text }

/-- Every text has an outcome. -/
theorem evaluate_eq_ok (c : Calculator) (text : String) :
    c.evaluate text = .ok (c.outcome text) := by
  have hok : ∃ o, c.evaluate text = .ok o := by
    by_cases h : (c.parse text).ok
    · obtain ⟨e, he, hnumeric⟩ := exists_tree h
      exact ⟨_, evaluate_of_ok h he hnumeric⟩
    · exact ⟨_, evaluate_of_not_ok h⟩
  obtain ⟨o, ho⟩ := hok
  rw [outcome, ho]
  rfl

theorem outcome_eq_of_evaluate {o : Outcome} (h : c.evaluate text = .ok o) : c.outcome text = o :=
  Except.ok.inj ((c.evaluate_eq_ok text).symm.trans h)

/-- What is not accepted goes no further. -/
theorem outcome_of_not_ok (h : ¬(c.parse text).ok) :
    c.outcome text = ⟨text, c.parse text, [], none⟩ :=
  outcome_eq_of_evaluate (evaluate_of_not_ok h)

/-- What is accepted is converted and evaluated. -/
theorem exists_outcome_of_ok (h : (c.parse text).ok) :
    ∃ rpn result, toRpn (c.parse text).tokens = .ok rpn ∧ Tokens.wellFormed rpn ∧
      c.evaluator.evaluate rpn = .ok result ∧
      c.outcome text = ⟨text, c.parse text, rpn, some result⟩ := by
  obtain ⟨e, he, hnumeric⟩ := exists_tree h
  exact ⟨e.postorder, e.eval c.evaluator, toRpn_of_hasTree he, e.wellFormed_postorder fun _ => rfl,
    c.evaluate_postorder hnumeric, outcome_eq_of_evaluate (evaluate_of_ok h he hnumeric)⟩

end Calculator

end IntCalc
