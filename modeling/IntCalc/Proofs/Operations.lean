import IntCalc.Proofs.Numerals
import IntCalc.Proofs.Saturation

/-!
# One operation

What an operation gives is described by ideal arithmetic (`Evaluator.apply_eq`) : the
placeholder for a division by zero, and else the value of the working type (`Operator.wide`).
That value lies in the working range or is the remainder of the left operand
(`Operator.contains_wide_or_eq_tmod`). So an operation stays in the working range
(`Evaluator.contains_apply`), and its value is short enough to be written if that of its left
operand is (`Evaluator.printable_apply`), the good and the bad ones alike.
-/

namespace IntCalc

variable {range : Range} {ev : Evaluator} {op : Operator} {a b : Int}

/-! ## Values of the working type -/

/-- The value of an operator in the working type, for any divisor but zero. Without an
ideal value it is the largest one, and a remainder, which is no larger than its dividend,
is not saturated. -/
def Operator.wide (op : Operator) (a b : Int) : Int :=
  match op.ideal? a b with
  | none => workingRange.hi
  | some v => if op = .mod then v else Arithmetic.saturate v

/-- With a negative exponent a power is saturated already. -/
theorem Arithmetic.saturate_tdiv_one (n : Int) : saturate (Int.tdiv 1 n) = Int.tdiv 1 n := by
  refine saturate_of_contains ?_
  have hle : (Int.tdiv 1 n).natAbs ≤ 1 := by
    rw [Int.natAbs_tdiv]
    exact Nat.div_le_self 1 _
  have hlo : workingRange.lo = -9223372036854775808 := rfl
  have hhi : workingRange.hi = 9223372036854775807 := rfl
  constructor <;> omega

/-- Unless it divides by zero, an operator has its value in the working type. -/
theorem Operator.value?_eq_wide (h : ¬((op = .div ∨ op = .mod) ∧ b = 0)) :
    op.value? a b = some (op.wide a b) := by
  cases op with
  | add | sub | mul => rfl
  | div =>
    have hb : b ≠ 0 := by simpa using h
    simp [value?, Arithmetic.div?_eq, wide, ideal?, hb]
  | mod =>
    have hb : b ≠ 0 := by simpa using h
    simp [value?, Arithmetic.mod?_eq, wide, ideal?, hb]
  | pow =>
    rw [value?, Option.some.injEq]
    simp only [wide, ideal?, Arithmetic.idealPow?]
    split
    · next hnone =>
      split at hnone
      · cases hnone
      · next hb =>
        split at hnone
        · next ha =>
          rw [ha]
          exact Arithmetic.pow_zero_of_neg (Int.not_le.1 hb)
        · cases hnone
    · next v hsome =>
      split at hsome
      · next hb =>
        cases hsome
        exact Arithmetic.pow_of_nonneg a hb
      · next hb =>
        split at hsome
        · cases hsome
        · next ha =>
          cases hsome
          rw [Arithmetic.pow_of_neg ha (Int.not_le.1 hb)]
          exact (Arithmetic.saturate_tdiv_one _).symm

namespace Evaluator

/-- What an operation gives : the placeholder for a division by zero, and else the value in
the working type, which is bad outside the range. -/
theorem apply_eq (ev : Evaluator) (op : Operator) (a b : Int) :
    ev.apply op a b =
      if (op = .div ∨ op = .mod) ∧ b = 0 then ⟨ev.placeholder, .divisionByZero⟩
      else ⟨op.wide a b, if ev.range.Contains (op.wide a b) then .ok else .numericOverflow⟩ := by
  split
  · next h => rw [apply, Operator.value?_eq_none_iff.2 h, judge]
  · next h => rw [apply, Operator.value?_eq_wide h, judge]

end Evaluator

/-! ## How large they are -/

/-- Only a remainder is not saturated. -/
theorem Operator.contains_wide_or_eq_tmod (op : Operator) (a b : Int) :
    workingRange.Contains (op.wide a b) ∨ op.wide a b = a.tmod b := by
  unfold wide
  split
  · exact Or.inl (by decide)
  · next v hv =>
    split
    · next hop =>
      subst hop
      simp only [ideal?] at hv
      split at hv
      · cases hv
      · exact Or.inr (Option.some.inj hv).symm
    · exact Or.inl (Range.contains_clamp (by decide) v)

theorem Arithmetic.natAbs_tmod_le (a b : Int) : (a.tmod b).natAbs ≤ a.natAbs := by
  rw [Int.natAbs_tmod]
  exact Nat.mod_le _ _

/-- A remainder lies between zero and its dividend. -/
theorem Range.Contains.tmod (hlo : range.lo ≤ 0) (hhi : 0 ≤ range.hi) (ha : range.Contains a)
    (b : Int) : range.Contains (a.tmod b) := by
  obtain ⟨hlo', hhi'⟩ := ha
  have hle := Arithmetic.natAbs_tmod_le a b
  rcases Int.le_total 0 a with h | h
  · have hnonneg : 0 ≤ a.tmod b := Int.tmod_nonneg b h
    constructor <;> omega
  · have hnonpos : 0 ≤ (-a).tmod b := Int.tmod_nonneg b (Int.neg_nonneg_of_nonpos h)
    rw [Int.neg_tmod] at hnonpos
    constructor <;> omega

theorem Operator.contains_wide (op : Operator) (ha : workingRange.Contains a) (b : Int) :
    workingRange.Contains (op.wide a b) := by
  rcases op.contains_wide_or_eq_tmod a b with h | h
  · exact h
  · rw [h]
    exact ha.tmod (by decide) (by decide) b

theorem Operator.printable_wide (op : Operator) (ha : Numeral.Printable a) (b : Int) :
    Numeral.Printable (op.wide a b) := by
  rcases op.contains_wide_or_eq_tmod a b with h | h
  · exact IntType.printable_of_contains (t := workingType) h
  · rw [h]
    exact ha.of_natAbs_le (Arithmetic.natAbs_tmod_le a b)

namespace Evaluator

/-- The value of an operation lies in the working range, even if the operation is bad. -/
theorem contains_apply (hplaceholder : workingRange.Contains ev.placeholder) (op : Operator)
    (ha : workingRange.Contains a) (b : Int) : workingRange.Contains (ev.apply op a b).value := by
  rw [apply_eq]
  split
  · exact hplaceholder
  · exact op.contains_wide ha b

/-- The value of an operation can be written if that of its left operand can, unless it is a
placeholder that cannot. -/
theorem printable_apply (op : Operator) (ha : Numeral.Printable a) (b : Int)
    (h : (ev.apply op a b).status = .divisionByZero → Numeral.Printable ev.placeholder) :
    Numeral.Printable (ev.apply op a b).value := by
  rw [apply_eq] at h ⊢
  split
  · next hzero =>
    rw [if_pos hzero] at h
    exact h rfl
  · exact op.printable_wide ha b

end Evaluator

end IntCalc
