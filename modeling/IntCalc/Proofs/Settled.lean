import IntCalc.Proofs.ErrorColumn

/-!
# Errors are settled by the text up to them

The error of a text that goes wrong in front of its end is settled by the characters up
to `errorEnd` : the one at the column, or all digits of a literal that is out of range.
Whatever stands behind them, the text has the same status, column and tokens
(`parse_error_settled`).
-/

namespace IntCalc.Parse

variable {range : Range} {rest : List Char} {c : Char} {status : ParseStatus}

/-- The column behind the characters that settle the error of a text : the one at the
column of the error, or the digits from there on if a literal is out of range. -/
def errorEnd (text : String) (r : ParseResult) : Int :=
  if r.status = .integerOutOfRange then
    r.column + ((text.toList.drop r.column.toNat).takeWhile Char.isDigit).length
  else r.column + 1

/-- The characters that settle an error, at the front of the text from its column on. -/
def errorLook (status : ParseStatus) (rest : List Char) : List Char :=
  if status = .integerOutOfRange then rest.takeWhile Char.isDigit else rest.take 1

theorem errorLook_prefix (status : ParseStatus) (rest : List Char) :
    errorLook status rest <+: rest := by
  unfold errorLook
  split
  · exact List.takeWhile_prefix _
  · exact List.take_prefix _ _

/-- They are not blank. -/
theorem not_isBlanks_errorLook {cs : List Char} (h : Stops status c) :
    ¬Grammar.IsBlanks (errorLook status (c :: cs)) := by
  have hmem : c ∈ errorLook status (c :: cs) := by
    unfold errorLook
    split
    · next hout => simp [h.2 hout]
    · simp
  exact fun hall => h.1 (hall c hmem)

theorem leadingDigits_eq (text : List Char) : leadingDigits text = text.takeWhile Char.isDigit := by
  simp only [leadingDigits, Symbol.isDigit_ofChar]

/-- The characters behind them play no part. -/
theorem parseChars_settled {text front cs : List Char} (hrange : range.Interior 1)
    (h : (parseChars range text).status ≠ .ok) (htext : text = front ++ c :: cs)
    (hcolumn : (parseChars range text).column = front.length)
    (hstops : Stops (parseChars range text).status c) (tail : List Char) :
    parseChars range (front ++ errorLook (parseChars range text).status (c :: cs) ++ tail) =
      parseChars range text := by
  obtain ⟨behind, hlook⟩ := errorLook_prefix (parseChars range text).status (c :: cs)
  rw [List.append_assoc]
  refine parseChars_replace hrange h (hlook.symm ▸ htext) hcolumn (not_isBlanks_errorLook hstops)
    (fun hout => ?_) tail
  have hdigits : leadingDigits (c :: cs) = errorLook (parseChars range text).status (c :: cs) := by
    rw [leadingDigits_eq, errorLook, if_pos hout]
  simp only [hlook, hdigits, List.prefix_rfl]

theorem errorEnd_eq {text : String} {r : ParseResult} {front : List Char}
    (htext : text.toList = front ++ c :: rest) (hcolumn : r.column = front.length) :
    errorEnd text r = (front ++ errorLook r.status (c :: rest)).length := by
  have hdrop : text.toList.drop front.length = c :: rest := by simp [htext]
  unfold errorEnd errorLook
  rw [hcolumn, Int.toNat_natCast, hdrop]
  split <;> simp

/-- A text that is not accepted, with a column in front of its end, has the same result
whatever stands behind the part that settles its error. -/
theorem parse_error_settled (t : IntType) (text : String) (h : ¬(parse t.range text).ok)
    (hcolumn : (parse t.range text).column < text.length) (s : String) :
    parse t.range (inFront text (errorEnd text (parse t.range text)) ++ s) = parse t.range text := by
  have hstatus : (parseChars t.range text.toList).status ≠ .ok := fun hok => h (decide_eq_true hok)
  obtain ⟨front, rest, htext, hfront, hstops, -⟩ := exists_split (interior_one t) hstatus
  have hlength : text.length = front.length + rest.length := by
    rw [← String.length_toList, htext, List.length_append]
  simp only [parse] at hcolumn ⊢
  rw [hfront] at hcolumn
  obtain ⟨c, cs, rfl⟩ := List.exists_cons_of_length_pos (show 0 < rest.length by omega)
  have hsettled := parseChars_settled (interior_one t) hstatus htext hfront (hstops c cs rfl) s.toList
  obtain ⟨tail, hlook⟩ := errorLook_prefix (parseChars t.range text.toList).status (c :: cs)
  rw [errorEnd_eq htext hfront]
  rw [← hlook, ← List.append_assoc] at htext
  rw [inFront_length htext, String.toList_append, String.toList_ofList]
  exact hsettled

/-- More digits and brackets behind the literal `40000` leave it out of range. -/
theorem parse_error_settled_digits :
    ¬(parse IntType.int16.range "(1-40000)*2").ok ∧
      (parse IntType.int16.range "(1-40000)*2").column < "(1-40000)*2".length ∧
      ∀ s, parse IntType.int16.range ("(1-40000" ++ s) =
        ⟨.integerOutOfRange, 3, [.opening, .operand "1", .ofOperator .sub]⟩ := by
  have hfailed : parse IntType.int16.range "(1-40000)*2" =
      ⟨.integerOutOfRange, 3, [.opening, .operand "1", .ofOperator .sub]⟩ := by
    decide +kernel
  have h : ¬(parse IntType.int16.range "(1-40000)*2").ok := by
    rw [hfailed]
    decide
  have hcolumn : (parse IntType.int16.range "(1-40000)*2").column < "(1-40000)*2".length := by
    rw [hfailed]
    decide
  have hsettled := parse_error_settled .int16 "(1-40000)*2" h hcolumn
  have hend : inFront "(1-40000)*2" (errorEnd "(1-40000)*2"
      ⟨.integerOutOfRange, 3, [.opening, .operand "1", .ofOperator .sub]⟩) = "(1-40000" := by
    decide +kernel
  rw [hfailed, hend] at hsettled
  exact ⟨h, hcolumn, hsettled⟩

end IntCalc.Parse
