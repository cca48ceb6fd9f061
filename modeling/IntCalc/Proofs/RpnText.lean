import IntCalc.Proofs.Pipeline

/-!
# Tokens are read back from their reverse Polish text

The reverse Polish text is cut at its spaces, and a word is the fixed token with this text or
else an operand (`Tokens.ofRpnText`). A list is read back if no text in it has a space and every
token is told by its text (`Token.Legible`). The operands of an accepted text are, since each
has a digit and no fixed token has one : a minus sign alone is the operator, in front of digits
it belongs to the operand.

So the reverse Polish text of an accepted text determines its reverse Polish form, and with it
the syntax tree and the result (`rpnText_eq_iff`).
-/

namespace IntCalc

open Grammar

variable {range : Range} {text text' : String} {c : Char} {t : Token} {ts us : List Token}
  {e : Expr}

/-! ## Operands -/

namespace Grammar

/-- A canonical operand has a digit. -/
theorem Canonical.exists_isDigit (h : Canonical range text) : ∃ c ∈ text.toList, c.isDigit := by
  rcases h with rfl | ⟨digits, ⟨d, ds, rfl, -, hall⟩, ⟨rfl, -⟩ | ⟨rfl, -⟩⟩
  · exact ⟨'0', by decide, by decide⟩
  · exact ⟨d, by simp, hall d (by simp)⟩
  · exact ⟨d, by simp, hall d (by simp)⟩

/-- Besides digits it can have a minus sign only. -/
theorem Canonical.eq_minus_or_isDigit (h : Canonical range text) (hc : c ∈ text.toList) :
    c = '-' ∨ c.isDigit := by
  rcases h with rfl | ⟨digits, ⟨d, ds, rfl, -, hall⟩, ⟨rfl, -⟩ | ⟨rfl, -⟩⟩
  · rw [List.mem_singleton.1 hc]
    decide
  · rw [String.toList_ofList] at hc
    exact Or.inr (hall c hc)
  · rw [String.toList_ofList] at hc
    exact (List.mem_cons.1 hc).imp_right (hall c)

end Grammar

/-! ## Tokens that are told by their texts -/

namespace Token

/-- The token has no space in its text and is told by it. -/
def Legible (t : Token) : Prop :=
  ' ' ∉ t.text.toList ∧ ofText t.text = t

theorem legible_ofOperator (op : Operator) : (ofOperator op).Legible := by
  cases op <;> exact ⟨by decide, by decide⟩

/-- No fixed token has a digit in its text. -/
theorem isDigit_eq_false_of_mem_fixed (ht : t ∈ fixed) (hc : c ∈ t.text.toList) :
    c.isDigit = false := by
  have hall : fixed.all (fun t => t.text.toList.all fun c => !c.isDigit) = true := by decide
  have htext := List.all_eq_true.1 (List.all_eq_true.1 hall t ht) c hc
  simpa using htext

theorem ofText_eq_operand (h : ∃ c ∈ text.toList, c.isDigit) : ofText text = operand text := by
  obtain ⟨c, hc, hdigit⟩ := h
  have hnone : fixed.find? (·.text == text) = none := by
    refine List.find?_eq_none.2 fun t ht heq => ?_
    rw [← eq_of_beq heq] at hc
    exact absurd hdigit (Bool.eq_false_iff.1 (isDigit_eq_false_of_mem_fixed ht hc))
  rw [ofText, hnone]
  rfl

theorem legible_operand (h : Canonical range text) : (operand text).Legible := by
  refine ⟨fun hspace => ?_, ofText_eq_operand h.exists_isDigit⟩
  exact absurd (h.eq_minus_or_isDigit hspace) (by decide)

end Token

/-- The tokens of a tree are its leaves and operators. -/
theorem Expr.legible_of_mem_postorder (h : ∀ text ∈ e.leaves, Canonical range text)
    (ht : t ∈ e.postorder) : t.Legible := by
  induction e with
  | leaf text =>
    rw [List.mem_singleton.1 ht]
    exact Token.legible_operand (h text (List.mem_singleton_self text))
  | node op l r ihl ihr =>
    obtain ⟨hl, hr⟩ := List.forall_mem_append.1 h
    rcases List.mem_append.1 ht with ht | ht
    · exact (List.mem_append.1 ht).elim (ihl hl) (ihr hr)
    · rw [List.mem_singleton.1 ht]
      exact Token.legible_ofOperator op

/-! ## Reading the text -/

namespace Tokens

/-- The tokens of a reverse Polish text. -/
def ofRpnText (text : String) : List Token :=
  (text.toList.splitOn ' ').map fun word => .ofText (String.ofList word)

/-- A list that is not empty is read back from its text if its tokens are told by theirs. -/
theorem ofRpnText_rpnText (hts : ∀ t ∈ ts, t.Legible) (hne : ts ≠ []) :
    ofRpnText (rpnText ts) = ts := by
  have hsplit : (rpnText ts).toList.splitOn ' ' = ts.map fun t => t.text.toList := by
    rw [rpnText, String.toList_intercalate, List.map_map]
    refine List.splitOn_intercalate ' ' (fun word hword => ?_) (by simpa using hne)
    obtain ⟨t, ht, rfl⟩ := List.mem_map.1 hword
    exact (hts t ht).1
  rw [ofRpnText, hsplit, List.map_map]
  refine (List.map_congr_left fun t ht => ?_).trans (List.map_id ts)
  simpa using (hts t ht).2

/-- Such lists are equal if their texts are. -/
theorem eq_of_rpnText_eq (hts : ∀ t ∈ ts, t.Legible) (hus : ∀ t ∈ us, t.Legible) (hne : ts ≠ [])
    (hne' : us ≠ []) (h : rpnText ts = rpnText us) : ts = us := by
  rw [← ofRpnText_rpnText hts hne, h, ofRpnText_rpnText hus hne']

end Tokens

/-! ## Accepted texts -/

/-- An accepted text has one syntax tree, whose leaves are canonical and whose tokens are told
by their texts. -/
theorem exists_legible_tree (h : (Parse.parse range text).ok) :
    ∃ e, (∀ f, HasTree (Parse.parse range text).tokens f ↔ f = e) ∧
      toRpn (Parse.parse range text).tokens = .ok e.postorder ∧
      (∀ text ∈ e.leaves, Canonical range text) ∧ ∀ t ∈ e.postorder, t.Legible := by
  obtain ⟨e, he, hleaves⟩ := exists_canonical_tree h
  refine ⟨e, fun f => ⟨hasTree_unique he, ?_⟩, toRpn_of_hasTree he, hleaves,
    fun t => Expr.legible_of_mem_postorder hleaves⟩
  rintro rfl
  exact he

/-- Two accepted texts have the same reverse Polish text exactly if they have the same reverse
Polish form, and that exactly if they have the same syntax tree. They have one tree each. If
the reverse Polish texts are the same, every evaluation ends for both in the same way. Both
have results, as long as the placeholder and the values strictly inside the range can be
written, and then value and status are the same. -/
theorem rpnText_eq_iff (h : (Parse.parse range text).ok) (h' : (Parse.parse range text').ok) :
    ∃ e e' rpn rpn',
      (∀ f, HasTree (Parse.parse range text).tokens f ↔ f = e) ∧
      (∀ f, HasTree (Parse.parse range text').tokens f ↔ f = e') ∧
      toRpn (Parse.parse range text).tokens = .ok rpn ∧
      toRpn (Parse.parse range text').tokens = .ok rpn' ∧
      (Tokens.rpnText rpn = Tokens.rpnText rpn' ↔ rpn = rpn') ∧
      (rpn = rpn' ↔ e = e') ∧
      ∀ ev : Evaluator,
        (Tokens.rpnText rpn = Tokens.rpnText rpn' → ev.evaluate rpn = ev.evaluate rpn') ∧
        (range.InteriorPrintable → Numeral.Printable ev.placeholder → ∃ result result',
          ev.evaluate rpn = .ok result ∧ ev.evaluate rpn' = .ok result' ∧
          (Tokens.rpnText rpn = Tokens.rpnText rpn' →
            result.value = result'.value ∧ result.status = result'.status)) := by
  obtain ⟨e, htree, hrpn, hleaves, hlegible⟩ := exists_legible_tree h
  obtain ⟨e', htree', hrpn', hleaves', hlegible'⟩ := exists_legible_tree h'
  have hform : Tokens.rpnText e.postorder = Tokens.rpnText e'.postorder →
      e.postorder = e'.postorder :=
    Tokens.eq_of_rpnText_eq hlegible hlegible' (e.postorder_ne_nil _) (e'.postorder_ne_nil _)
  refine ⟨e, e', e.postorder, e'.postorder, htree, htree', hrpn, hrpn',
    ⟨hform, congrArg Tokens.rpnText⟩, Expr.postorder_injective.eq_iff, fun ev =>
    ⟨fun heq => by rw [hform heq], fun hrange hplaceholder => ?_⟩⟩
  refine ⟨e.eval ev, e'.eval ev,
    Evaluator.evaluate_postorder_eq_ok hplaceholder (Expr.numeric_of_canonical hrange hleaves),
    Evaluator.evaluate_postorder_eq_ok hplaceholder (Expr.numeric_of_canonical hrange hleaves'),
    fun heq => ?_⟩
  rw [Expr.postorder_injective (hform heq)]
  exact ⟨rfl, rfl⟩

/-- The minus signs of two texts that say the same. -/
theorem rpnText_eq_iff_minus :
    (Parse.parse IntType.int16.range "2--3*1").ok ∧
      (Parse.parse IntType.int16.range "2 - ((---3)*1)").ok ∧
      ∃ e e' rpn rpn',
        (∀ f, HasTree (Parse.parse IntType.int16.range "2--3*1").tokens f ↔ f = e) ∧
        (∀ f, HasTree (Parse.parse IntType.int16.range "2 - ((---3)*1)").tokens f ↔ f = e') ∧
        toRpn (Parse.parse IntType.int16.range "2--3*1").tokens = .ok rpn ∧
        toRpn (Parse.parse IntType.int16.range "2 - ((---3)*1)").tokens = .ok rpn' ∧
        Tokens.rpnText rpn = "2 -3 1 * -" ∧ Tokens.rpnText rpn' = "2 -3 1 * -" ∧
        rpn = rpn' ∧ e = e' := by
  have h : (Parse.parse IntType.int16.range "2--3*1").ok := by decide +kernel
  have h' : (Parse.parse IntType.int16.range "2 - ((---3)*1)").ok := by decide +kernel
  obtain ⟨e, e', rpn, rpn', htree, htree', hrpn, hrpn', htext, hform, -⟩ := rpnText_eq_iff h h'
  have hshown : toRpn (Parse.parse IntType.int16.range "2--3*1").tokens =
      .ok [.operand "2", .operand "-3", .operand "1", .ofOperator .mul, .ofOperator .sub] := by
    decide +kernel
  have hshown' : toRpn (Parse.parse IntType.int16.range "2 - ((---3)*1)").tokens =
      .ok [.operand "2", .operand "-3", .operand "1", .ofOperator .mul, .ofOperator .sub] := by
    decide +kernel
  obtain rfl := Except.ok.inj (hrpn.symm.trans hshown)
  obtain rfl := Except.ok.inj (hrpn'.symm.trans hshown')
  exact ⟨h, h', e, e', _, _, htree, htree', hrpn, hrpn', by decide +kernel, by decide +kernel,
    htext.1 rfl, hform.1 rfl⟩

end IntCalc
