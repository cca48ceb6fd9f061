import IntCalc.Proofs.Descent
import IntCalc.Proofs.Literal

/-!
# The texts that are accepted

A reading that succeeds has read a phrase of the grammar of texts and emitted its
tokens (`Reads.accepts`), and every phrase is read to its end, with any blanks in
front and any rest behind that starts with no digit (`reads_of_written`). A text is
therefore accepted exactly if it is an expression between blanks, and its tokens are
those of its derivation (`parse_ok_iff`).
-/

namespace IntCalc.Parse

open Grammar

variable {range : Range} {part : Part} {phrase : Phrase} {text rest body w : List Char}
  {ts : List Token} {r : Except Failure (List Char)}

/-! ## What is read is in the grammar -/

/-- What was read in front of `rest` is in the grammar and has the tokens `ts`. Operators
with their terms go on with any expression. -/
def Part.Accepts (range : Range) (text rest : List Char) (ts : List Token) : Part → Prop
  | .expression => ∃ w body, IsBlanks w ∧ text = w ++ body ++ rest ∧
      Written range .expression body ts
  | .term => ∃ w body, IsBlanks w ∧ text = w ++ body ++ rest ∧ Written range .term body ts
  | .operators => ∃ tail, text = tail ++ rest ∧
      ∀ body us, Written range .expression body us →
        Written range .expression (body ++ tail) (us ++ ts)

/-- A reading that succeeds has read a phrase of the grammar. -/
theorem Reads.accepts (h : Reads range part text ts (.ok rest)) :
    part.Accepts range text rest ts := by
  generalize hr : Except.ok rest = r at h
  induction h generalizing rest with
  | expression _ _ iht iho =>
    obtain ⟨w, body, hw, rfl, hbody⟩ := iht rfl
    obtain ⟨tail, rfl, htail⟩ := iho hr
    exact ⟨w, body ++ tail, hw, by simp, htail _ _ (.term hbody)⟩
  | operatorsEnd =>
    cases hr
    exact ⟨[], rfl, fun body us hbody => by simpa using hbody⟩
  | @operator text _ _ op ts us _ hop _ _ iht iho =>
    obtain ⟨v, hv, rfl⟩ := operator?_eq_some_iff.1 hop
    obtain ⟨w, next, hw, rfl, hnext⟩ := iht rfl
    obtain ⟨tail, rfl, htail⟩ := iho hr
    refine ⟨v ++ op.char :: w ++ next ++ tail, by simp, fun body vs hbody => ?_⟩
    simpa using htail _ _ (.chain op hbody hv hw hnext)
  | scope hopen _ hclose ih =>
    cases hr
    obtain ⟨v, hv, rfl⟩ := expect?_opening_eq_some_iff.1 hopen
    obtain ⟨w, body, hw, rfl, hbody⟩ := ih rfl
    obtain ⟨w', hw', rfl⟩ := expect?_closing_eq_some_iff.1 hclose
    refine ⟨v, '(' :: w ++ body ++ w' ++ [')'], hv, by simp, ?_⟩
    exact .scope hw hw' hbody
  | @literal text rest' numeral _ hint =>
    cases hr
    obtain ⟨w, hw, htext⟩ := exists_eq_append_skipBlanks text
    obtain ⟨body, hbody, hliteral⟩ := literal_of_integer_ok (skipBlanks_skipBlanks text) hint
    exact ⟨w, body, hw, by simpa [hbody] using htext, .literal hliteral⟩
  | expressionFailed | operatorFailed | scopeUnclosed | scopeFailed | literalFailed => cases hr

/-! ## What is in the grammar is read -/

/-- A literal starts with a digit or a minus sign. -/
theorem head_of_literal {numeral : String} (h : Literal range body numeral) :
    ∃ c cs, body = c :: cs ∧ ¬IsBlank c ∧ c ≠ '(' := by
  cases h with
  | zero => exact ⟨'0', [], rfl, by simp [IsBlank], by simp⟩
  | signed hrun hdigits _ =>
    cases hrun with
    | some => exact ⟨'-', _, rfl, by simp [IsBlank], by simp⟩
    | none =>
      obtain ⟨c, cs, rfl, -, hall⟩ := hdigits
      have hc : c.isDigit = true := hall c (by simp)
      refine ⟨c, cs, rfl, ?_, ?_⟩
      · rintro (rfl | rfl) <;> simp at hc
      · rintro rfl
        simp at hc

/-- A literal is read as a term. -/
theorem reads_of_literal {numeral : String} (h : Literal range body numeral) (hw : IsBlanks w)
    (hrest : NoDigit rest) :
    Reads range .term (w ++ body ++ rest) [.operand numeral] (.ok rest) := by
  have hint := integer_of_literal h hrest
  obtain ⟨c, cs, rfl, hblank, hc⟩ := head_of_literal h
  rw [List.append_assoc]
  refine .literal ?_ ?_
  · rw [expect?_append hw, List.cons_append, expect?_cons hblank, if_neg]
    exact mt Symbol.ofChar_eq_opening_iff.1 hc
  · rwa [skipBlanks_append hw, List.cons_append, skipBlanks_cons hblank]

/-- Operators end in front of a closing bracket. -/
theorem reads_operators_closing (hw : IsBlanks w) :
    Reads range .operators (w ++ ')' :: rest) [] (.ok (w ++ ')' :: rest)) := by
  refine .operatorsEnd ?_
  rw [operator?_append hw, operator?, skipBlanks_cons (by simp [IsBlank])]
  rfl

theorem noDigit_operator {op : Operator} : NoDigit (op.char :: rest) :=
  noDigit_cons (by cases op <;> rfl)

/-- Every phrase is read to its end, and behind an expression its operators are read. -/
theorem reads_of_written (h : Written range phrase body ts) (hw : IsBlanks w)
    (hrest : NoDigit rest) :
    match phrase with
    | .term => Reads range .term (w ++ body ++ rest) ts (.ok rest)
    | .expression => ∀ us r, Reads range .operators rest us r →
        Reads range .expression (w ++ body ++ rest) (ts ++ us) r := by
  induction h generalizing w rest with
  | literal h => exact reads_of_literal h hw hrest
  | @scope v w' body ts hv hw' _ ih =>
    have hclosing : NoDigit (w' ++ ')' :: rest) := noDigit_append hw' (noDigit_cons rfl)
    have hbody : Reads range .expression (v ++ body ++ (w' ++ ')' :: rest)) ts
        (.ok (w' ++ ')' :: rest)) := by
      simpa using ih hv hclosing [] _ (reads_operators_closing hw')
    have hopen : expect? .opening (w ++ ('(' :: v ++ body ++ w' ++ [')']) ++ rest) =
        some (v ++ body ++ (w' ++ ')' :: rest)) :=
      expect?_opening_eq_some_iff.2 ⟨w, hw, by simp⟩
    exact .scope hopen hbody (expect?_closing_eq_some_iff.2 ⟨w', hw', rfl⟩)
  | term _ ih =>
    intro us r hus
    exact .expression (ih hw hrest) hus
  | @chain body v w' next ts us op _ hv hw' _ ihe iht =>
    intro vs r hvs
    have hop : operator? (v ++ op.char :: (w' ++ next ++ rest)) = some (op, w' ++ next ++ rest) :=
      operator?_eq_some_iff.2 ⟨v, hv, rfl⟩
    have hoperators := Reads.operator hop (iht hw' hrest) hvs
    simpa using ihe hw (noDigit_append hv noDigit_operator) _ _ hoperators

/-! ## Acceptance -/

/-- Blanks in front of a term play no part. -/
theorem Reads.term_skipBlanks (h : Reads range .term text ts r) :
    Reads range .term (skipBlanks text) ts r := by
  have hexpect : ∀ symbol, expect? symbol (skipBlanks text) = expect? symbol text := by
    simp [expect?, skipBlanks_skipBlanks]
  cases h with
  | scope hopen h hclose => exact .scope ((hexpect _).trans hopen) h hclose
  | scopeUnclosed hopen h hclose => exact .scopeUnclosed ((hexpect _).trans hopen) h hclose
  | scopeFailed hopen h => exact .scopeFailed ((hexpect _).trans hopen) h
  | literal hopen hint =>
    exact .literal ((hexpect _).trans hopen) ((skipBlanks_skipBlanks text).symm ▸ hint)
  | literalFailed hopen hint =>
    exact .literalFailed ((hexpect _).trans hopen) ((skipBlanks_skipBlanks text).symm ▸ hint)

theorem Reads.expression_skipBlanks (h : Reads range .expression text ts r) :
    Reads range .expression (skipBlanks text) ts r := by
  cases h with
  | expression ht ho => exact .expression ht.term_skipBlanks ho
  | expressionFailed ht => exact .expressionFailed ht.term_skipBlanks

theorem parseChars_of_expression (hne : ¬IsBlanks text) (h : Reads range .expression text ts r) :
    parseChars range text = conclude text ts r :=
  parseChars_of_reads (mt skipBlanks_eq_nil_iff.1 hne) h.expression_skipBlanks

theorem parseChars_of_isBlanks (h : IsBlanks text) :
    parseChars range text = ⟨.unexpectedEnd, text.length, []⟩ := by
  simp [parseChars, skipBlanks_eq_nil_iff.2 h, columnOf]

/-- A text that is read to its end is accepted with the tokens it emits. -/
theorem parseChars_of_reads_ok (h : Reads range .expression text ts (.ok rest))
    (hrest : IsBlanks rest) : parseChars range text = ⟨.ok, 0, ts⟩ := by
  have hskip := h.expression_skipBlanks
  have hne : skipBlanks text ≠ [] := by
    intro hnil
    have hlt := hskip.length_lt
    simp [hnil, Part.slack] at hlt
  rw [parseChars_of_reads hne hskip, conclude, skipBlanks_eq_nil_iff.2 hrest]

/-- A text that is accepted is read to its end. -/
theorem exists_reads_of_ok (h : (parseChars range text).status = .ok) :
    ∃ ts rest, Reads range .expression text ts (.ok rest) ∧ IsBlanks rest := by
  obtain ⟨ts, r, hr⟩ := exists_reads range .expression text
  by_cases hne : skipBlanks text = []
  · simp [parseChars, hne] at h
  rw [parseChars_of_reads hne hr.expression_skipBlanks] at h
  cases r with
  | error f => exact absurd h hr.status_ne_ok
  | ok rest =>
    refine ⟨ts, rest, hr, skipBlanks_eq_nil_iff.1 ?_⟩
    cases hrest : skipBlanks rest with
    | nil => rfl
    | cons c cs => simp [conclude, hrest] at h

/-- An expression between blanks is read to its end. -/
theorem writtenExpression_iff :
    WrittenExpression range text ts ↔
      ∃ rest, Reads range .expression text ts (.ok rest) ∧ IsBlanks rest := by
  constructor
  · rintro ⟨v, body, w, hv, hw, rfl, hbody⟩
    have hend : Reads range .operators w [] (.ok w) :=
      .operatorsEnd (by rw [operator?, skipBlanks_eq_nil_iff.2 hw])
    have hno : NoDigit w := by simpa using noDigit_append hw noDigit_nil
    have hread := reads_of_written hbody hv hno [] _ hend
    exact ⟨w, by simpa using hread, hw⟩
  · rintro ⟨rest, hread, hrest⟩
    obtain ⟨w, body, hw, htext, hbody⟩ := hread.accepts
    exact ⟨w, body, rest, hw, hrest, htext, hbody⟩

/-- An expression between blanks is accepted with its tokens. -/
theorem parse_of_writtenExpression {text : String}
    (h : WrittenExpression range text.toList ts) : parse range text = ⟨.ok, 0, ts⟩ := by
  obtain ⟨rest, hread, hrest⟩ := writtenExpression_iff.1 h
  exact parseChars_of_reads_ok hread hrest

/-- A text that is accepted is an expression between blanks. -/
theorem exists_writtenExpression {text : String} (h : (parse range text).ok) :
    ∃ ts, WrittenExpression range text.toList ts := by
  obtain ⟨ts, rest, hread, hrest⟩ := exists_reads_of_ok (ParseResult.ok_iff.1 h)
  exact ⟨ts, writtenExpression_iff.2 ⟨rest, hread, hrest⟩⟩

/-- A text is accepted exactly if it is an expression between blanks. Its column is then
`0` and its tokens are those of the expression. -/
theorem parse_ok_iff (range : Range) (text : String) :
    ((parse range text).ok ↔ ∃ ts, WrittenExpression range text.toList ts) ∧
      ∀ ts, parse range text = ⟨.ok, 0, ts⟩ ↔ WrittenExpression range text.toList ts := by
  refine ⟨⟨exists_writtenExpression, ?_⟩, fun ts => ⟨fun h => ?_, parse_of_writtenExpression⟩⟩
  · rintro ⟨ts, h⟩
    rw [parse_of_writtenExpression h]
    rfl
  · obtain ⟨us, hus⟩ := exists_writtenExpression (show (parse range text).ok by rw [h]; rfl)
    have heq := (parse_of_writtenExpression hus).symm.trans h
    cases heq
    exact hus

end IntCalc.Parse
