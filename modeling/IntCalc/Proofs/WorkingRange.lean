import IntCalc.Proofs.Depth

/-!
# Values stay in the working range

An operation whose left operand lies in the working range has its value there, the good
and the bad ones alike : most values are saturated, a remainder is no larger than its
dividend, and a division by zero has the placeholder. So if the operands and the placeholder
lie in the working range, everything that is ever on the stack of the machine does, and its
result too (`Evaluator.evaluate_within`).
-/

namespace IntCalc

variable {range : Range} {ev : Evaluator} {s : Values} {ts : List Token}

/-! ## The machine -/

/-- An operand that is a numeral has its value in the range. -/
def Token.ValueIn (range : Range) (t : Token) : Prop :=
  t.kind = .operand → ∀ n ∈ Numeral.toInt? t.text, range.Contains n

instance (range : Range) (t : Token) : Decidable (t.ValueIn range) :=
  inferInstanceAs (Decidable (_ → _))

namespace Evaluator

/-- Every list of tokens leaves the stack in the working range. -/
theorem contains_of_run (hplaceholder : workingRange.Contains ev.placeholder)
    (hts : ∀ t ∈ ts, t.ValueIn workingRange) (h : ev.run {} ts = .ok s) :
    ∀ v ∈ s.stack, workingRange.Contains v :=
  forall_run (fun op _ b ha => contains_apply hplaceholder op ha b) hts (List.forall_mem_nil _) h

theorem contains_of_conclude {r : EvalResult} (hs : ∀ v ∈ s.stack, range.Contains v)
    (h : conclude s = .ok r) : range.Contains r.value := by
  unfold conclude at h
  split at h
  · next value hstack =>
    split at h
    · cases h
      exact hs value (by simp [hstack])
    · cases h
  · cases h

/-- As long as the machine reads tokens, all values on its stack lie in the working range, if
those of the operands and the placeholder do, and so does the result, whatever the range for
good values and whatever the status. A well-formed list of numerals and known operators is
read to its end and has a result. -/
theorem evaluate_within (ev : Evaluator) (hplaceholder : workingRange.Contains ev.placeholder)
    (hts : ∀ t ∈ ts, t.ValueIn workingRange) :
    (∀ before after s, ts = before ++ after → ev.run {} before = .ok s →
      ∀ v ∈ s.stack, workingRange.Contains v) ∧
    (∀ r, ev.evaluate ts = .ok r → workingRange.Contains r.value) ∧
    (Tokens.wellFormed ts = true → (∀ t ∈ ts, t.Meaningful) →
      (∀ before after, ts = before ++ after → ∃ s, ev.run {} before = .ok s) ∧
        ∃ r, ev.evaluate ts = .ok r) := by
  refine ⟨?_, fun r hr => ?_, fun hform hmeaningful => ⟨?_, ?_⟩⟩
  · rintro before after s rfl hrun
    exact contains_of_run hplaceholder (fun t ht => hts t (List.mem_append_left _ ht)) hrun
  · obtain ⟨s, hrun, hs⟩ := bind_eq_ok_iff.1 hr
    exact contains_of_conclude (contains_of_run hplaceholder hts hrun) hs
  · rintro before after rfl
    obtain ⟨s', hrun, -⟩ :=
      exists_run ev Values.writable_empty hmeaningful (Tokens.wellFormed_iff.1 hform)
    obtain ⟨s, hbefore, -⟩ := foldlM_append_eq_ok_iff.1 hrun
    exact ⟨s, hbefore⟩
  · exact exists_evaluate_eq_ok (IntType.printable_of_contains (t := workingType) hplaceholder)
      hmeaningful (Tokens.wellFormed_iff.1 hform)

/-- The digits of the first operand are grouped. The product is saturated, the division by zero
has the smallest value as its placeholder, and the remainder of that value stays negative. -/
theorem evaluate_within_remainder :
    let ev : Evaluator := ⟨IntType.uint64.range, workingRange.lo⟩
    let ts : List Token := [.operand "9_223_372_036_854_775_807", .operand "2", .ofOperator .mul,
      .operand "0", .ofOperator .div, .operand "-7", .ofOperator .mod]
    workingRange.Contains ev.placeholder ∧ (∀ t ∈ ts, t.ValueIn workingRange) ∧
      Tokens.wellFormed ts = true ∧ (∀ t ∈ ts, t.Meaningful) ∧
      ∃ r, ev.evaluate ts = .ok r ∧ workingRange.Contains r.value := by
  intro ev ts
  have hplaceholder : workingRange.Contains ev.placeholder := by decide
  have hts : ∀ t ∈ ts, t.ValueIn workingRange := by decide +kernel
  have hmeaningful : ∀ t ∈ ts, t.Meaningful := by decide +kernel
  obtain ⟨-, hresult, hexists⟩ := evaluate_within ev hplaceholder hts
  obtain ⟨-, r, hr⟩ := hexists (by decide) hmeaningful
  exact ⟨hplaceholder, hts, by decide, hmeaningful, r, hr, hresult r hr⟩

end Evaluator

end IntCalc
