import IntCalc.Proofs.Acceptance
import IntCalc.Proofs.Pipeline

/-!
# No overflow goes unnoticed

Values are computed in the working type and a value that is no good is used further, yet
in a range strictly inside the working range a tree is good exactly if every subtree has
its ideal value in the range (`Expr.eval_eq_ok_iff`) : what leaves the range is noted at
once, and before the first fault every value is the ideal one.

The types narrower than the working type lie strictly inside it. For them the result of an
accepted text is therefore good exactly if ideal arithmetic stays within the bounds of the
calculator, and is then the ideal one (`Calculator.result_ok_iff`).
-/

namespace IntCalc

open Grammar

variable {ev : Evaluator} {range : Range} {text : String} {op : Operator} {e l r : Expr} {v : Int}

theorem EvalResult.eq_of_ok {result : EvalResult} (hvalue : result.value = v)
    (hstatus : result.status = .ok) : result = ⟨v, .ok⟩ := by
  rw [← hvalue, ← hstatus]

namespace Expr

/-! ## Ideal values of nodes -/

theorem ideal?_node_eq_some_iff :
    ideal? (.node op l r) = some v ↔
      ∃ a b, ideal? l = some a ∧ ideal? r = some b ∧ op.ideal? a b = some v := by
  simp [ideal?, Option.bind_eq_some_iff]

theorem within_leaf_iff : Within range (.leaf text) ↔ range.Contains (leafValue text) := by
  simp [Within, Tree.subtrees, ideal?]

/-- A node lies within a range if its value does and both its operands do. -/
theorem within_node_iff :
    Within range (.node op l r) ↔
      (∃ v, ideal? (.node op l r) = some v ∧ range.Contains v) ∧ Within range l ∧
        Within range r := by
  simp [Within, Tree.subtrees, or_imp, forall_and]

theorem Within.exists_value (h : e.Within range) : ∃ v, e.ideal? = some v ∧ range.Contains v :=
  h e (by cases e <;> simp [Tree.subtrees])

/-! ## Good results -/

/-- A node is good if both operands and the operation are. -/
theorem eval_node_eq_ok_iff :
    eval ev (.node op l r) = ⟨v, .ok⟩ ↔
      ∃ a b, eval ev l = ⟨a, .ok⟩ ∧ eval ev r = ⟨b, .ok⟩ ∧ ev.apply op a b = ⟨v, .ok⟩ := by
  simp only [eval, EvalResult.mk.injEq, EvalStatus.orElse_eq_ok_iff]
  constructor
  · rintro ⟨hv, ⟨hl, hr⟩, hop⟩
    exact ⟨_, _, EvalResult.eq_of_ok rfl hl, EvalResult.eq_of_ok rfl hr, EvalResult.eq_of_ok hv hop⟩
  · rintro ⟨a, b, hl, hr, hop⟩
    simp [hl, hr, hop]

/-- A tree whose leaves lie in the range is good exactly if it lies within the range, and
its value is then the ideal one. -/
theorem eval_eq_ok_iff (hrange : ev.range.StrictlyInside workingRange)
    (hleaves : ∀ text ∈ e.leaves, ev.range.Contains (leafValue text)) :
    eval ev e = ⟨v, .ok⟩ ↔ ideal? e = some v ∧ e.Within ev.range := by
  induction e generalizing v with
  | leaf text =>
    have hcontains := hleaves text (List.mem_singleton_self _)
    simp [eval, ideal?, within_leaf_iff, hcontains]
  | node op l r ihl ihr =>
    have hl := fun {a} => ihl (v := a) fun text ht => hleaves text (List.mem_append_left _ ht)
    have hr := fun {a} => ihr (v := a) fun text ht => hleaves text (List.mem_append_right _ ht)
    simp only [eval_node_eq_ok_iff, hl, hr, Evaluator.apply_eq_ok_iff hrange, within_node_iff]
    constructor
    · rintro ⟨a, b, ⟨ha, hwl⟩, ⟨hb, hwr⟩, hop, hv⟩
      have hideal := ideal?_node_eq_some_iff.2 ⟨a, b, ha, hb, hop⟩
      exact ⟨hideal, ⟨v, hideal, hv⟩, hwl, hwr⟩
    · rintro ⟨hideal, ⟨w, hw, hcontains⟩, hwl, hwr⟩
      obtain rfl := Option.some.inj (hideal.symm.trans hw)
      obtain ⟨a, b, ha, hb, hop⟩ := ideal?_node_eq_some_iff.1 hideal
      exact ⟨a, b, ⟨ha, hwl⟩, ⟨hb, hwr⟩, hop, hcontains⟩

theorem status_eval_eq_ok_iff (hrange : ev.range.StrictlyInside workingRange)
    (hleaves : ∀ text ∈ e.leaves, ev.range.Contains (leafValue text)) :
    (eval ev e).status = .ok ↔ e.Within ev.range := by
  refine ⟨fun h => ?_, fun h => ?_⟩
  · exact ((eval_eq_ok_iff hrange hleaves).1 (EvalResult.eq_of_ok rfl h)).2
  · obtain ⟨v, hv, -⟩ := h.exists_value
    rw [(eval_eq_ok_iff hrange hleaves).2 ⟨hv, h⟩]

/-- A good value is the ideal one and lies in the range. -/
theorem ideal?_eq_of_status_eval (hrange : ev.range.StrictlyInside workingRange)
    (hleaves : ∀ text ∈ e.leaves, ev.range.Contains (leafValue text))
    (h : (eval ev e).status = .ok) :
    e.ideal? = some (eval ev e).value ∧ ev.range.Contains (eval ev e).value := by
  obtain ⟨hideal, hwithin⟩ := (eval_eq_ok_iff hrange hleaves).1 (EvalResult.eq_of_ok rfl h)
  obtain ⟨v, hv, hcontains⟩ := hwithin.exists_value
  rw [Option.some.inj (hideal.symm.trans hv)]
  exact ⟨hv, hcontains⟩

end Expr

/-! ## Accepted texts -/

/-- Zero is a value of every type. -/
theorem IntType.contains_zero (t : IntType) : t.range.Contains 0 := by
  cases t <;> decide

/-- A canonical operand is the numeral of a value of the type. -/
theorem contains_of_canonical {t : IntType} (h : Canonical t.range text) :
    (Numeral.toInt? text).isSome ∧ t.range.Contains (Expr.leafValue text) := by
  obtain ⟨n, hn, hzero | hinterior⟩ := toInt?_of_canonical t.interiorPrintable h
  · simp [Expr.leafValue, hn, hzero, t.contains_zero]
  · simp [Expr.leafValue, hn, hinterior.contains]

namespace Calculator

/-- For bounds strictly inside the working range, the result of an accepted text is good
exactly if every subtree of its syntax tree has an ideal value within the bounds. A good
result is the ideal value of the tree and lies within the bounds. -/
theorem result_ok_iff (c : Calculator) (hrange : c.bounded.range.StrictlyInside workingRange)
    (h : (c.parse text).ok) :
    ∃ e, HasTree (c.parse text).tokens e ∧ (∀ e', HasTree (c.parse text).tokens e' → e' = e) ∧
      ∃ rpn result, toRpn (c.parse text).tokens = .ok rpn ∧
        c.evaluator.evaluate rpn = .ok result ∧
        (result.status = .ok ↔ e.Within c.bounded.range) ∧
        (result.status = .ok →
          e.ideal? = some result.value ∧ c.bounded.range.Contains result.value) := by
  obtain ⟨ts, hts⟩ := Parse.exists_writtenExpression h
  have htokens : (c.parse text).tokens = ts := by
    rw [parse, Parse.parse_of_writtenExpression hts]
  obtain ⟨_, _, _, _, _, _, hwritten⟩ := hts
  obtain ⟨e, he⟩ := exists_parses (derives_of_written hwritten)
  have hleaves : ∀ text ∈ e.leaves,
      (Numeral.toInt? text).isSome ∧ c.bounded.range.Contains (Expr.leafValue text) :=
    fun text ht => contains_of_canonical (canonical_of_mem_leaves hwritten he ht)
  have hnumeric : e.Numeric := fun text ht => (hleaves text ht).1
  have hcontains := fun text ht => (hleaves text ht).2
  rw [htokens]
  exact ⟨e, he, fun e' he' => hasTree_unique he he', e.postorder, e.eval c.evaluator,
    toRpn_of_hasTree he, c.evaluate_postorder hnumeric,
    Expr.status_eval_eq_ok_iff hrange hcontains, Expr.ideal?_eq_of_status_eval hrange hcontains⟩

/-- The product in `200*200/200` is no value of `int16`, although the quotient is one. -/
theorem result_ok_iff_int16 :
    let c : Calculator := { bounded := .int16 }
    c.bounded.range.StrictlyInside workingRange ∧ (c.parse "200*200/200").ok ∧
      ∃ e, HasTree (c.parse "200*200/200").tokens e ∧
        (∀ e', HasTree (c.parse "200*200/200").tokens e' → e' = e) ∧
        ∃ rpn result, toRpn (c.parse "200*200/200").tokens = .ok rpn ∧
          c.evaluator.evaluate rpn = .ok result ∧
          (result.status = .ok ↔ e.Within c.bounded.range) ∧
          (result.status = .ok →
            e.ideal? = some result.value ∧ c.bounded.range.Contains result.value) := by
  intro c
  have hrange : c.bounded.range.StrictlyInside workingRange := by decide
  have hok : (c.parse "200*200/200").ok := by decide +kernel
  exact ⟨hrange, hok, result_ok_iff c hrange hok⟩

end Calculator

end IntCalc
