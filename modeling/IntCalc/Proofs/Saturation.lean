import IntCalc.Ideal
import Mathlib.Algebra.Order.Ring.Basic
import Mathlib.Algebra.Order.Ring.Int
import Mathlib.Algebra.Ring.Int.Parity

/-!
# Saturated values and ideal values

The power is the saturated mathematical power, although it is computed for small
exponents only (`pow_of_nonneg`), and with a negative exponent it is the ideal power
(`pow_of_neg`). Every operator that has an ideal value has that value or the saturated
one (`Operator.exists_value?`), and one that has none is a division by zero or too large
for any range inside the working range (`Operator.value?_of_ideal?_eq_none`).

An operation is therefore good in a range strictly inside the working range exactly if
its ideal value lies in it, and has that value (`Evaluator.apply_eq_ok_iff`).
-/

namespace IntCalc

namespace Arithmetic

variable {a b n : Int}

/-! ## Saturation -/

theorem saturate_of_lt (h : workingRange.hi < n) : saturate n = workingRange.hi := by
  simp [saturate, Range.clamp, h]

theorem saturate_of_gt (h : n < workingRange.lo) : saturate n = workingRange.lo := by
  have hle : workingRange.lo ≤ workingRange.hi := by decide
  have hlt : ¬workingRange.hi < n := by omega
  simp [saturate, Range.clamp, h, hlt]

theorem saturate_of_contains (h : workingRange.Contains n) : saturate n = n :=
  Range.clamp_eq_self h

/-! ## Powers -/

theorem natAbs_pow_le (ha : 2 ≤ a.natAbs) {k m : Nat} (h : k ≤ m) : 2 ^ k ≤ (a ^ m).natAbs := by
  rw [Int.natAbs_pow]
  calc 2 ^ k
    _ ≤ 2 ^ m := Nat.pow_le_pow_right (by decide) h
    _ ≤ a.natAbs ^ m := Nat.pow_le_pow_left ha m

/-- The power of `-1` depends on the parity only. -/
theorem neg_one_pow (k : Nat) : (-1 : Int) ^ k = if k % 2 = 0 then 1 else -1 := by
  split
  · next h => exact (Nat.even_iff.2 h).neg_one_pow
  · next h => exact (Nat.odd_iff.2 (by omega)).neg_one_pow

/-- From the width of the working type on, the exponent takes a power out of the working
range, on the side that the sign of the power tells. -/
theorem saturate_pow_of_le (ha : 2 ≤ a.natAbs) {m : Nat} (hm : workingType.bits ≤ m) :
    saturate (a ^ m) = if a < 0 ∧ m % 2 = 1 then workingRange.lo else workingRange.hi := by
  have hbig : 2 ^ 64 ≤ (a ^ m).natAbs := natAbs_pow_le ha hm
  have hlo : workingRange.lo = -9223372036854775808 := rfl
  have hhi : workingRange.hi = 9223372036854775807 := rfl
  split
  · next h =>
    have hneg : a ^ m < 0 := (Nat.odd_iff.2 h.2).pow_neg h.1
    exact saturate_of_gt (by omega)
  · next h =>
    have hnonneg : 0 ≤ a ^ m := by
      rcases Nat.even_or_odd m with hm | hm
      · exact hm.pow_nonneg a
      · have hodd := Nat.odd_iff.1 hm
        exact pow_nonneg (by omega) m
    exact saturate_of_lt (by omega)

/-- The power is the saturated mathematical power. -/
theorem pow_of_nonneg (a : Int) (hb : 0 ≤ b) : pow a b = saturate (a ^ b.toNat) := by
  obtain ⟨m, rfl⟩ := Int.eq_ofNat_of_zero_le hb
  have hone : saturate 1 = 1 := by decide
  have hneg : saturate (-1) = -1 := by decide
  have hzero : saturate 0 = 0 := by decide
  simp only [pow, if_neg (Int.not_lt.2 hb), Int.toNat_natCast, powNonneg]
  split
  · next h =>
    subst h
    cases m <;> simp [hone, hzero]
  · split
    · next h => simp [h, hone]
    · split
      · next h =>
        rw [h, neg_one_pow]
        split <;> simp [hone, hneg]
      · split
        · next hm => exact (saturate_pow_of_le (by omega) hm).symm
        · rfl

/-- With a negative exponent it is the real power truncated toward zero. -/
theorem pow_of_neg (ha : a ≠ 0) (hb : b < 0) :
    pow a b = Int.tdiv 1 (a ^ (-b).toNat) := by
  simp only [pow, if_pos hb, powNeg, if_neg ha]
  split
  · next h => simp [h]
  · split
    · next h =>
      have hparity : b % 2 = 0 ↔ (-b).toNat % 2 = 0 := by omega
      simp only [h, neg_one_pow, hparity]
      split <;> rfl
    · have hbig : 2 ^ 1 ≤ (a ^ (-b).toNat).natAbs := natAbs_pow_le (by omega) (by omega)
      have hdiv : (Int.tdiv 1 (a ^ (-b).toNat)).natAbs = 0 := by
        rw [Int.natAbs_tdiv]
        exact Nat.div_eq_of_lt hbig
      exact (Int.natAbs_eq_zero.1 hdiv).symm

theorem pow_zero_of_neg (hb : b < 0) : pow 0 b = workingRange.hi := by
  simp [pow, hb, powNeg]

end Arithmetic

/-! ## Operators -/

open Arithmetic

variable {op : Operator} {a b v : Int}

namespace Operator

/-- An operator with an ideal value has that value or the saturated one. -/
theorem exists_value? (h : op.ideal? a b = some v) :
    ∃ w, op.value? a b = some w ∧ (w = v ∨ w = saturate v) := by
  cases op with
  | add | sub | mul =>
    cases h
    exact ⟨_, rfl, Or.inr rfl⟩
  | div =>
    by_cases hb : b = 0
    · simp [ideal?, hb] at h
    · simp only [ideal?, hb, if_false] at h
      cases h
      exact ⟨_, by simp [value?, div?_eq, hb], Or.inr rfl⟩
  | mod =>
    by_cases hb : b = 0
    · simp [ideal?, hb] at h
    · simp only [ideal?, hb, if_false] at h
      cases h
      exact ⟨_, by simp [value?, mod?_eq, hb], Or.inl rfl⟩
  | pow =>
    refine ⟨_, rfl, ?_⟩
    simp only [ideal?, idealPow?] at h
    split at h
    · next hb =>
      cases h
      exact Or.inr (pow_of_nonneg a hb)
    · next hb =>
      split at h
      · simp at h
      · next ha =>
        cases h
        exact Or.inl (pow_of_neg ha (Int.not_le.1 hb))

/-- An operator without an ideal value divides by zero or has the largest value. -/
theorem value?_of_ideal?_eq_none (h : op.ideal? a b = none) :
    op.value? a b = none ∨ op.value? a b = some workingRange.hi := by
  cases op with
  | add | sub | mul => simp [ideal?] at h
  | div =>
    by_cases hb : b = 0
    · exact Or.inl (value?_eq_none_iff.2 (by simp [hb]))
    · simp [ideal?, hb] at h
  | mod =>
    by_cases hb : b = 0
    · exact Or.inl (value?_eq_none_iff.2 (by simp [hb]))
    · simp [ideal?, hb] at h
  | pow =>
    simp only [ideal?, idealPow?] at h
    split at h
    · simp at h
    · next hb =>
      split at h
      · next ha =>
        subst ha
        exact Or.inr (by simp [value?, pow_zero_of_neg (Int.not_le.1 hb)])
      · simp at h

end Operator

/-- The range lies inside another one and shares no end with it. -/
def Range.StrictlyInside (r s : Range) : Prop :=
  s.lo < r.lo ∧ r.hi < s.hi

instance (r s : Range) : Decidable (r.StrictlyInside s) :=
  inferInstanceAs (Decidable (_ ∧ _))

/-- A saturated value strictly inside the working range was not saturated. -/
theorem Arithmetic.saturate_eq_self {n : Int} (h : workingRange.Interior (saturate n)) :
    saturate n = n := by
  have h1 := h.1
  have h2 := h.2
  unfold saturate Range.clamp at *
  split at * <;> omega

namespace Evaluator

variable {ev : Evaluator}

/-- An operation is good if it has a value in the range. -/
theorem judge_eq_ok_iff {value : Option Int} :
    ev.judge value = ⟨v, .ok⟩ ↔ value = some v ∧ ev.range.Contains v := by
  cases value with
  | none => simp [judge]
  | some w =>
    simp only [judge, EvalResult.mk.injEq, Option.some.injEq]
    refine and_congr_right fun hw => ?_
    subst hw
    split <;> simp_all

/-- In a range strictly inside the working range an operation is good exactly if its ideal
value lies in the range, and then it has that value. -/
theorem apply_eq_ok_iff (hrange : ev.range.StrictlyInside workingRange) :
    ev.apply op a b = ⟨v, .ok⟩ ↔ op.ideal? a b = some v ∧ ev.range.Contains v := by
  rw [apply, judge_eq_ok_iff]
  refine and_congr_left fun hv => ?_
  have hinterior : workingRange.Interior v :=
    ⟨Int.lt_of_lt_of_le hrange.1 hv.1, Int.lt_of_le_of_lt hv.2 hrange.2⟩
  cases hideal : op.ideal? a b with
  | none =>
    rcases Operator.value?_of_ideal?_eq_none hideal with h | h
    · simp [h]
    · have hne : workingRange.hi ≠ v := (Int.ne_of_lt hinterior.2).symm
      simp [h, hne]
  | some u =>
    obtain ⟨w, hw, hwu⟩ := Operator.exists_value? hideal
    rw [hw, Option.some.injEq, Option.some.injEq]
    rcases hwu with rfl | rfl
    · exact Iff.rfl
    · refine ⟨fun h => ?_, fun h => ?_⟩
      · rw [← h] at hinterior ⊢
        exact (saturate_eq_self hinterior).symm
      · rw [h]
        exact saturate_of_contains hinterior.contains

end Evaluator

end IntCalc
