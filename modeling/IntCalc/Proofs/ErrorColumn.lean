import IntCalc.Proofs.Lookahead

/-!
# Where a text goes wrong

What is read before a failure can always be completed to an expression, whose tokens
begin with those that were emitted (`Reads.exists_completion`) : brackets are closed, and
a minus run of either parity gets a literal. The character at which a reading fails
settles it, so no accepted text goes on with that character.

The column of a text that is not accepted is therefore where its longest part ends that
some accepted text starts with, unless a literal is out of range (`parse_error_column`).
-/

namespace IntCalc.Parse

open Grammar

variable {range : Range} {part : Part} {text rest : List Char} {ts : List Token}
  {r : Except Failure (List Char)} {f : Failure}

/-! ## Completions -/

theorem minuses_concat {n : Nat} {run : List Char} (h : Minuses n run) :
    Minuses (n + 1) (run ++ ['-']) := by
  induction h with
  | none => exact .some isBlanks_nil .none
  | some hw _ ih => simpa using Minuses.some hw ih

/-- A minus run can be followed by `1`, or by `-1` if it is odd. -/
theorem exists_literal_of_minuses (hrange : range.Interior 1) {n : Nat} {run : List Char}
    (h : Minuses n run) : ∃ more numeral, Literal range (run ++ more) numeral := by
  have hone : IsNatural ['1'] := ⟨'1', [], rfl, by simp, by simp⟩
  rcases Nat.mod_two_eq_zero_or_one n with hn | hn
  · refine ⟨['1'], _, .signed h hone ?_⟩
    rw [signedValue, if_neg (by omega)]
    exact hrange
  · have hvalue : range.Interior (signedValue (n + 1) ['1']) := by
      rw [signedValue, if_neg (by omega)]
      exact hrange
    refine ⟨['-', '1'], signedText (n + 1) ['1'], ?_⟩
    simpa using Literal.signed (minuses_concat h) hone hvalue

/-- What is read before a failure can be completed. -/
theorem Reads.exists_completion (hrange : range.Interior 1)
    (h : Reads range part text ts (.error f)) :
    ∃ front more us, text = front ++ f.rest ∧
      part.Accepts range (front ++ more) [] (ts ++ us) := by
  generalize hr : Except.error f = r at h
  induction h generalizing f with
  | expression ht _ _ iho =>
    obtain ⟨w, body, hw, rfl, hbody⟩ := ht.accepts
    obtain ⟨front, more, us, rfl, tail, htail, hwritten⟩ := iho hr
    refine ⟨w ++ body ++ front, more, us, by simp, w, body ++ tail, hw, by simpa using htail, ?_⟩
    simpa using hwritten _ _ (.term hbody)
  | expressionFailed _ iht =>
    obtain ⟨front, more, us, rfl, w, body, hw, hsplit, hbody⟩ := iht hr
    exact ⟨front, more, us, rfl, w, body, hw, hsplit, .term hbody⟩
  | @operator _ _ _ op _ _ _ hop ht _ _ iho =>
    obtain ⟨v, hv, rfl⟩ := operator?_eq_some_iff.1 hop
    obtain ⟨w, next, hw, rfl, hnext⟩ := ht.accepts
    obtain ⟨front, more, us, rfl, tail, htail, hwritten⟩ := iho hr
    refine ⟨v ++ op.char :: w ++ next ++ front, more, us, by simp,
      v ++ op.char :: w ++ next ++ tail, by simpa using htail, fun body vs hbody => ?_⟩
    simpa using hwritten _ _ (.chain op hbody hv hw hnext)
  | @operatorFailed _ _ op _ g hop _ iht =>
    cases hr
    obtain ⟨v, hv, rfl⟩ := operator?_eq_some_iff.1 hop
    obtain ⟨front, more, us, rfl, w, next, hw, hsplit, hnext⟩ := iht rfl
    refine ⟨v ++ op.char :: front, more, us, by simp [g.rest_afterOperator],
      v ++ op.char :: w ++ next, by simpa using hsplit, fun body vs hbody => ?_⟩
    simpa using Written.chain op hbody hv hw hnext
  | @scopeUnclosed _ _ rest' _ hopen he hclose _ =>
    cases hr
    obtain ⟨v, hv, rfl⟩ := expect?_opening_eq_some_iff.1 hopen
    obtain ⟨w, body, hw, rfl, hbody⟩ := he.accepts
    obtain ⟨w', hw', hsplit⟩ := exists_eq_append_skipBlanks rest'
    refine ⟨v ++ '(' :: w ++ body ++ w', [')'], [.closing], ?_,
      v, '(' :: w ++ body ++ w' ++ [')'], hv, by simp, .scope hw hw' hbody⟩
    rw [hsplit, skipBlanks_append hw', skipBlanks_skipBlanks]
    simp
  | scopeFailed hopen _ ih =>
    cases hr
    obtain ⟨v, hv, rfl⟩ := expect?_opening_eq_some_iff.1 hopen
    obtain ⟨front, more, us, rfl, w, body, hw, hsplit, hbody⟩ := ih rfl
    refine ⟨v ++ '(' :: front, more ++ [')'], us ++ [.closing], by simp,
      v, '(' :: w ++ body ++ [')'], hv, ?_, ?_⟩
    · simpa using congrArg (v ++ '(' :: · ++ [')']) hsplit
    · simpa using Written.scope hw isBlanks_nil hbody
  | @literalFailed text _ _ hint =>
    cases hr
    obtain ⟨w, hw, htext⟩ := exists_eq_append_skipBlanks text
    obtain ⟨n, run, hrun, hrest, -⟩ :=
      exists_minuses_of_integer_error (skipBlanks_skipBlanks text) hint
    obtain ⟨more, numeral, hliteral⟩ := exists_literal_of_minuses hrange hrun
    refine ⟨w ++ run, more, [.operand numeral], ?_, w, run ++ more, hw, by simp, .literal hliteral⟩
    rw [List.append_assoc, ← hrest]
    exact htext
  | operatorsEnd | scope | literal => cases hr

/-! ## The failing character -/

/-- No reading fails at a blank. -/
theorem Reads.not_isBlank {c : Char} {cs : List Char} (h : Reads range part text ts (.error f))
    (hrest : f.rest = c :: cs) : ¬IsBlank c := by
  rcases h.failure_cases with ⟨text', hint⟩ | ⟨rest', rfl⟩ | rfl
  · obtain ⟨-, -, -, -, -, hsigns, -⟩ :=
      exists_minuses_of_integer_error (skipBlanks_skipBlanks text') hint
    exact (head_of_signs (hsigns.trans hrest)).1
  · exact not_isBlank_of_skipBlanks hrest
  · cases hrest

theorem isDigit_of_natural_error {negative : Bool} {c : Char} {cs : List Char}
    (h : natural range negative (c :: cs) = .error f) (hstatus : f.status = .integerOutOfRange) :
    c.isDigit = true := by
  by_contra hc
  have hclass : Symbol.ofChar c ≠ .nonZeroDigit :=
    fun heq => hc (Symbol.ofChar_eq_nonZeroDigit_iff.1 heq).1
  simp only [natural, if_neg hclass] at h
  cases h
  cases hstatus

/-- A literal out of range is noticed at its first digit. -/
theorem Reads.isDigit_of_outOfRange {c : Char} {cs : List Char}
    (h : Reads range part text ts (.error f)) (hstatus : f.status = .integerOutOfRange)
    (hrest : f.rest = c :: cs) : c.isDigit = true := by
  rcases h.failure_cases with ⟨text', hint⟩ | ⟨rest', rfl⟩ | rfl
  · obtain ⟨n, -, -, -, -, -, hnat⟩ :=
      exists_minuses_of_integer_error (skipBlanks_skipBlanks text') hint
    exact isDigit_of_natural_error (hrest ▸ hnat) hstatus
  · cases hstatus
  · cases hstatus

/-! ## Columns -/

/-- A reading that fails gives the same result with another text behind the part that
settles it. -/
theorem Reads.parseChars_of_error {front look tail : List Char} (hrange : range.Interior 1)
    (h : Reads range .expression (front ++ (look ++ tail)) ts (.error f))
    (hrest : f.rest = look ++ tail) (hsettles : Settles look (.error f)) (tail' : List Char) :
    parseChars range (front ++ (look ++ tail')) = ⟨f.status, front.length, ts⟩ := by
  obtain ⟨front', htext, hreads⟩ := h.stays hrange hrest hsettles
  obtain rfl : front = front' := List.append_cancel_right htext
  have hne : ¬IsBlanks (front ++ (look ++ tail')) := fun hall =>
    hsettles.not_blank fun c hc => hall c (by simp [hc])
  have hread : Reads range .expression (front ++ (look ++ tail')) ts
      (.error ⟨f.status, look ++ tail'⟩) := hreads tail'
  rw [parseChars_of_expression hne hread, conclude, columnOf_append]

/-- So does a reading that leaves a symbol too many, behind this symbol. -/
theorem Reads.parseChars_of_ok {front w cs : List Char} {c : Char} (hrange : range.Interior 1)
    (h : Reads range .expression (front ++ (w ++ c :: cs)) ts (.ok (w ++ c :: cs)))
    (hw : IsBlanks w) (hc : ¬IsBlank c) (tail : List Char) :
    parseChars range (front ++ (w ++ c :: tail)) = ⟨.extraneousSymbol, (front ++ w).length, ts⟩ := by
  have hlook : ¬IsBlanks [c] := fun hall => hc (hall c (by simp))
  have hunread : unread (.ok (w ++ c :: cs)) = w ++ [c] ++ cs := by simp [unread]
  obtain ⟨front', htext, hreads⟩ := h.stays hrange hunread (settles_ok hlook w)
  obtain rfl : front = front' := List.append_cancel_right (htext.trans (by simp))
  have hread : Reads range .expression (front ++ (w ++ c :: tail)) ts (.ok (w ++ c :: tail)) := by
    simpa using hreads tail
  have hne : ¬IsBlanks (front ++ (w ++ c :: tail)) := fun hall => hc (hall c (by simp))
  have hcolumn : columnOf (front ++ (w ++ c :: tail)) (c :: tail) = (front ++ w).length := by
    rw [← List.append_assoc, columnOf_append]
  rw [parseChars_of_expression hne hread]
  simp only [conclude, skipBlanks_append hw, skipBlanks_cons hc, hcolumn]

/-- What a reading that succeeds leaves behind blanks is a symbol too many. -/
theorem Reads.exists_extraneous (hne : ¬IsBlanks text)
    (h : Reads range .expression text ts (.ok rest)) (hok : (parseChars range text).status ≠ .ok) :
    ∃ w c cs, IsBlanks w ∧ ¬IsBlank c ∧ rest = w ++ c :: cs := by
  obtain ⟨w, hw, hrest⟩ := exists_eq_append_skipBlanks rest
  cases hskip : skipBlanks rest with
  | nil => simp [parseChars_of_expression hne h, conclude, hskip] at hok
  | cons c cs => exact ⟨w, c, cs, hw, not_isBlank_of_skipBlanks hskip, hskip ▸ hrest⟩

/-- A text of blanks can be completed by a literal. -/
theorem exists_writtenExpression_of_isBlanks (hrange : range.Interior 1) (h : IsBlanks text) :
    ∃ more us, WrittenExpression range (text ++ more) us := by
  obtain ⟨more, numeral, hliteral⟩ := exists_literal_of_minuses hrange .none
  exact ⟨more, _, text, more, [], h, isBlanks_nil, by simp, .term (.literal hliteral)⟩

/-- The character at which a text goes wrong is no blank, and it is a digit if a literal is
out of range. -/
def Stops (status : ParseStatus) (c : Char) : Prop :=
  ¬IsBlank c ∧ (status = .integerOutOfRange → c.isDigit)

/-- A text that is not accepted is split at its column. -/
theorem exists_split (hrange : range.Interior 1) (h : (parseChars range text).status ≠ .ok) :
    ∃ front rest, text = front ++ rest ∧ (parseChars range text).column = front.length ∧
      (∀ c cs, rest = c :: cs → Stops (parseChars range text).status c) ∧
      ∃ more us, WrittenExpression range (front ++ more) ((parseChars range text).tokens ++ us) := by
  by_cases hblank : IsBlanks text
  · rw [parseChars_of_isBlanks hblank]
    exact ⟨text, [], by simp, rfl, by simp, exists_writtenExpression_of_isBlanks hrange hblank⟩
  obtain ⟨ts, r, hread⟩ := exists_reads range .expression text
  cases r with
  | error f =>
    obtain ⟨front, more, us, htext, w, body, hw, hsplit, hbody⟩ := hread.exists_completion hrange
    rw [parseChars_of_expression hblank hread]
    refine ⟨front, f.rest, htext, ?_, fun c cs hrest => ⟨hread.not_isBlank hrest, fun hstatus => ?_⟩,
      more, us, w, body, [], hw, isBlanks_nil, hsplit, hbody⟩
    · simp [conclude, htext, columnOf_append]
    · exact hread.isDigit_of_outOfRange hstatus hrest
  | ok rest =>
    obtain ⟨w, c, cs, hw, hc, rfl⟩ := hread.exists_extraneous hblank h
    obtain ⟨v, body, hv, rfl, hbody⟩ := hread.accepts
    rw [hread.parseChars_of_ok hrange hw hc]
    refine ⟨v ++ body ++ w, c :: cs, by simp, rfl, fun d ds hd => ?_, [], [], v, body, w, hv, hw, ?_⟩
    · cases hd
      exact ⟨hc, by simp⟩
    · simpa using hbody

/-- A text that is not accepted has the same result with another text behind the part that
settles its error. -/
theorem parseChars_replace {front look tail : List Char} (hrange : range.Interior 1)
    (h : (parseChars range text).status ≠ .ok) (htext : text = front ++ (look ++ tail))
    (hcolumn : (parseChars range text).column = front.length) (hlook : ¬IsBlanks look)
    (hdigits : (parseChars range text).status = .integerOutOfRange →
      leadingDigits (look ++ tail) <+: look) (tail' : List Char) :
    parseChars range (front ++ (look ++ tail')) = parseChars range text := by
  have hne : ¬IsBlanks text := fun hall => hlook fun c hc => hall c (by simp [htext, hc])
  obtain ⟨ts, r, hread⟩ := exists_reads range .expression text
  cases r with
  | error f =>
    have hsame : parseChars range text = conclude text ts (.error f) :=
      parseChars_of_expression hne hread
    rw [hsame] at hcolumn hdigits ⊢
    obtain ⟨front', -, -, hsplit, -⟩ := hread.exists_completion hrange
    have hlength : (front'.length : Int) = front.length := by
      simpa [conclude, hsplit, columnOf_append] using hcolumn
    obtain ⟨rfl, hrest⟩ :=
      List.append_inj (hsplit.symm.trans htext) (Int.natCast_inj.1 hlength)
    have hsettles : Settles look (.error f) :=
      ⟨hlook, fun g hg hstatus => by cases hg; exact hrest ▸ hdigits hstatus⟩
    have hread' : Reads range .expression (front' ++ (look ++ tail)) ts (.error f) := htext ▸ hread
    rw [hread'.parseChars_of_error hrange hrest hsettles, conclude, hsplit, columnOf_append]
  | ok rest =>
    obtain ⟨w, c, cs, hw, hc, rfl⟩ := hread.exists_extraneous hne h
    obtain ⟨v, body, -, rfl, -⟩ := hread.accepts
    have hsame := hread.parseChars_of_ok hrange hw hc
    rw [hsame] at hcolumn
    have hsplit : v ++ body ++ w ++ c :: cs = front ++ (look ++ tail) := by
      simpa using htext
    obtain ⟨rfl, hcut⟩ := List.append_inj hsplit (Int.natCast_inj.1 hcolumn)
    obtain ⟨d, look', rfl⟩ := List.exists_cons_of_ne_nil (ne_nil_of_not_isBlanks hlook)
    obtain rfl : c = d := (List.cons.inj hcut).1
    rw [hsame, ← hsame (look' ++ tail')]
    simp

/-- The text `front` can be completed to an accepted one whose tokens begin with `ts`, and
no accepted text goes on as `rest` does, unless a literal is out of range. -/
structure StopsBehind (range : Range) (front rest : List Char) (ts : List Token)
    (status : ParseStatus) : Prop where
  completes : ∃ more us, WrittenExpression range (front ++ more) (ts ++ us)
  refuses : status ≠ .integerOutOfRange → ∀ c cs, rest = c :: cs →
    ∀ tail, (parseChars range (front ++ c :: tail)).status ≠ .ok

/-- A text that is not accepted stops behind its column. -/
theorem exists_stopsBehind (hrange : range.Interior 1) (h : (parseChars range text).status ≠ .ok) :
    ∃ front rest, text = front ++ rest ∧ (parseChars range text).column = front.length ∧
      StopsBehind range front rest (parseChars range text).tokens
        (parseChars range text).status := by
  obtain ⟨front, rest, htext, hcolumn, hrefused, hcompletes⟩ := exists_split hrange h
  refine ⟨front, rest, htext, hcolumn, hcompletes, fun hinside c cs hrest tail => ?_⟩
  have hlook : ¬IsBlanks [c] := fun hall => (hrefused c cs hrest).1 (hall c (by simp))
  have hsame : parseChars range (front ++ ([c] ++ tail)) = parseChars range text :=
    parseChars_replace hrange h (by rw [htext, hrest]; rfl) hcolumn hlook
      (fun hout => absurd hout hinside) tail
  have hcons : front ++ c :: tail = front ++ ([c] ++ tail) := rfl
  rw [hcons, hsame]
  exact h

/-- The characters of a text in front of a column. -/
def inFront (text : String) (column : Int) : String :=
  String.ofList (text.toList.take column.toNat)

theorem inFront_length {text : String} {front rest : List Char} (h : text.toList = front ++ rest) :
    inFront text front.length = String.ofList front := by
  simp [inFront, h]

theorem interior_one (t : IntType) : t.range.Interior 1 := by
  cases t <;> decide

/-- The column of a text that is not accepted lies in it. What stands in front of the column
can be completed to an accepted text, whose tokens begin with those emitted for this one.
Unless a literal is out of range, no accepted text goes on with the character at the
column. -/
theorem parse_error_column (t : IntType) (text : String) (h : ¬(parse t.range text).ok) :
    let r := parse t.range text
    0 ≤ r.column ∧ r.column ≤ text.length ∧
    (∃ s, (parse t.range (inFront text r.column ++ s)).ok ∧
      r.tokens <+: (parse t.range (inFront text r.column ++ s)).tokens) ∧
    (r.column < text.length → r.status ≠ .integerOutOfRange →
      ∀ s, ¬(parse t.range (inFront text (r.column + 1) ++ s)).ok) := by
  intro r
  have hstatus : (parseChars t.range text.toList).status ≠ .ok := fun hok => h (decide_eq_true hok)
  obtain ⟨front, rest, htext, hcolumn, hstops⟩ := exists_stopsBehind (interior_one t) hstatus
  replace hcolumn : r.column = front.length := hcolumn
  have hlength : text.length = front.length + rest.length := by
    rw [← String.length_toList, htext, List.length_append]
  refine ⟨by omega, by omega, ?_, fun hlt hinside s => ?_⟩
  · obtain ⟨more, us, hwritten⟩ := hstops.completes
    have haccepted : parse t.range (inFront text r.column ++ String.ofList more) =
        ⟨.ok, 0, r.tokens ++ us⟩ := by
      rw [hcolumn, inFront_length htext]
      refine parse_of_writtenExpression ?_
      rw [String.toList_append, String.toList_ofList, String.toList_ofList]
      exact hwritten
    refine ⟨String.ofList more, ?_, ?_⟩ <;> rw [haccepted]
    · rfl
    · exact List.prefix_append _ _
  · obtain ⟨c, cs, rfl⟩ := List.exists_cons_of_length_pos (show 0 < rest.length by omega)
    have hfront : inFront text (r.column + 1) = String.ofList (front ++ [c]) := by
      have hcut := inFront_length (show text.toList = front ++ [c] ++ cs by simpa using htext)
      rw [hcolumn, ← hcut]
      simp
    have hrefused := hstops.refuses hinside c cs rfl s.toList
    intro hok
    rw [hfront] at hok
    refine hrefused (of_decide_eq_true ?_)
    simpa [parse, ParseResult.ok] using hok

/-- The second closing bracket is refused behind `(1-2)`, and so is whatever follows it. -/
theorem parse_error_column_bracket :
    ¬(parse IntType.int16.range "(1-2))*3").ok ∧
      (parse IntType.int16.range "(1-2))*3").column = 5 ∧
      ∀ s, ¬(parse IntType.int16.range (inFront "(1-2))*3" 6 ++ s)).ok := by
  have hfailed : parse IntType.int16.range "(1-2))*3" = ⟨.extraneousSymbol, 5,
      [.opening, .operand "1", .ofOperator .sub, .operand "2", .closing]⟩ := by
    decide +kernel
  have h : ¬(parse IntType.int16.range "(1-2))*3").ok := by
    rw [hfailed]
    decide
  obtain ⟨-, -, -, hrefused⟩ := parse_error_column .int16 "(1-2))*3" h
  rw [hfailed] at hrefused
  exact ⟨h, by rw [hfailed], hrefused (by decide) (by decide)⟩

end IntCalc.Parse
