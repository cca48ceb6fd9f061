import IntCalc.Proofs.Saturation
import Mathlib.Algebra.Order.Archimedean.Real.Basic
import Mathlib.Algebra.Order.Floor.Ring

/-!
# Truncated real values

`Arithmetic.truncate` drops what a real number has behind the point. The truncated quotient
of two integers is the quotient of the working arithmetic (`Arithmetic.truncate_div`), and a
power with a negative exponent is the truncated real power (`Arithmetic.pow_eq_truncate`).
So the power is exact for all integers, up to saturation
(`Arithmetic.pow_eq_saturate_or_truncate`).

The truncated quotient is also the only integer that leaves the remainder of the working
arithmetic, and in the working range it is not saturated, but for one pair of operands
(`Arithmetic.div?_mod?_eq_truncate`).
-/

namespace IntCalc.Arithmetic

/-- The integer part of a real number, truncated toward zero. -/
noncomputable def truncate (x : ℝ) : ℤ :=
  if x < 0 then ⌈x⌉ else ⌊x⌋

theorem truncate_of_nonneg {x : ℝ} (h : 0 ≤ x) : truncate x = ⌊x⌋ :=
  if_neg (not_lt.2 h)

theorem truncate_of_nonpos {x : ℝ} (h : x ≤ 0) : truncate x = ⌈x⌉ := by
  rcases h.lt_or_eq with h | rfl
  · exact if_pos h
  · simp [truncate]

theorem truncate_neg (x : ℝ) : truncate (-x) = -truncate x := by
  rcases le_total 0 x with h | h
  · rw [truncate_of_nonneg h, truncate_of_nonpos (neg_nonpos.2 h), Int.ceil_neg]
  · rw [truncate_of_nonpos h, truncate_of_nonneg (neg_nonneg.2 h), Int.floor_neg]

/-- The quotient truncated toward zero. -/
theorem truncate_div (a b : ℤ) : truncate ((a : ℝ) / b) = a.tdiv b := by
  have hnat : ∀ m n : ℕ, truncate ((m : ℝ) / n) = (m : ℤ).tdiv n := fun m n => by
    rw [truncate_of_nonneg (by positivity), Int.floor_div_natCast, Int.floor_natCast,
      Int.tdiv_eq_ediv_of_nonneg (Int.natCast_nonneg m)]
  -- Both quotients change their sign with either operand.
  obtain ⟨m, rfl | rfl⟩ := a.eq_nat_or_neg <;> obtain ⟨n, rfl | rfl⟩ := b.eq_nat_or_neg <;>
    simp [neg_div, div_neg, truncate_neg, hnat]

variable {a b : ℤ}

/-! ## Powers -/

/-- With a negative exponent the power is the real power truncated toward zero. -/
theorem pow_eq_truncate (ha : a ≠ 0) (hb : b < 0) : pow a b = truncate ((a : ℝ) ^ b) := by
  obtain ⟨k, rfl⟩ : ∃ k : ℕ, b = -(k : ℤ) := ⟨(-b).toNat, by omega⟩
  have hreal : (a : ℝ) ^ (-(k : ℤ)) = ((1 : ℤ) : ℝ) / ((a ^ k : ℤ) : ℝ) := by
    rw [zpow_neg, zpow_natCast, Int.cast_one, one_div, Int.cast_pow]
  rw [pow_of_neg ha hb, hreal, truncate_div, neg_neg, Int.toNat_natCast]

/-- From the width of the working type on, sign and parity tell the power. -/
theorem pow_of_bits_le (ha : 2 ≤ |a|) (hb : (workingType.bits : ℤ) ≤ b) :
    pow a b = if a < 0 ∧ b % 2 = 1 then workingRange.lo else workingRange.hi := by
  have hnonneg : 0 ≤ b := le_trans (Int.natCast_nonneg _) hb
  have hbits : workingType.bits ≤ b.toNat := by omega
  have hparity : b.toNat % 2 = 1 ↔ b % 2 = 1 := by omega
  rw [Int.abs_eq_natAbs] at ha
  rw [pow_of_nonneg a hnonneg, saturate_pow_of_le (by omega) hbits]
  simp only [hparity]

/-- The power of any two integers. With an exponent that is not negative it is the
saturated mathematical power, which sign and parity tell as soon as the exponent is 64 and
the base neither `0` nor `1` nor `-1`. With a negative exponent it is the real power truncated
toward zero, and the largest value of the working type for the base `0`. -/
theorem pow_eq_saturate_or_truncate (a b : ℤ) :
    (0 ≤ b → pow a b = saturate (a ^ b.toNat)) ∧ pow 0 0 = 1 ∧
      (2 ≤ |a| → 64 ≤ b →
        pow a b = if a < 0 ∧ b % 2 = 1 then workingRange.lo else workingRange.hi) ∧
      (b < 0 → a ≠ 0 → pow a b = truncate ((a : ℝ) ^ b)) ∧
      (b < 0 → a = 0 → pow a b = workingRange.hi) :=
  ⟨pow_of_nonneg a, rfl, pow_of_bits_le, fun hb ha => pow_eq_truncate ha hb,
    fun hb ha => ha ▸ pow_zero_of_neg hb⟩

/-! ## Division and remainder -/

/-- The truncated quotient is the only one that leaves the remainder. -/
theorem eq_mul_add_tmod_iff (hb : b ≠ 0) {q : ℤ} : a = b * q + a.tmod b ↔ q = a.tdiv b := by
  have hlaw := Int.mul_tdiv_add_tmod a b
  constructor
  · intro h
    have hmul : b * q = b * a.tdiv b := by omega
    exact Int.eq_of_mul_eq_mul_left hb hmul
  · intro h
    rw [h, hlaw]

theorem abs_tmod_lt (a : ℤ) (hb : b ≠ 0) : |a.tmod b| < |b| := by
  rw [Int.abs_eq_natAbs, Int.abs_eq_natAbs, Int.natAbs_tmod]
  exact_mod_cast Nat.mod_lt _ (Int.natAbs_pos.2 hb)

theorem tmod_eq_zero_or_sign_eq (a b : ℤ) : a.tmod b = 0 ∨ (a.tmod b).sign = a.sign := by
  have hsign := Int.sign_tmod a b
  split at hsign
  · exact Or.inl (Int.sign_eq_zero_iff_zero.1 hsign)
  · exact Or.inr hsign

/-- One quotient of values of the working range is too large for it. -/
theorem contains_tdiv_iff (ha : workingRange.Contains a) (hb : b ≠ 0) :
    workingRange.Contains (a.tdiv b) ↔ ¬(a = workingRange.lo ∧ b = -1) := by
  constructor
  · rintro h ⟨rfl, rfl⟩
    revert h
    decide
  · intro hpair
    have hlo : workingRange.lo = -9223372036854775808 := rfl
    have hhi : workingRange.hi = 9223372036854775807 := rfl
    simp only [Range.Contains, hlo, hhi] at *
    rcases (by omega : b = 1 ∨ b = -1 ∨ 2 ≤ b.natAbs) with rfl | rfl | hlarge
    · rwa [Int.tdiv_one]
    · rw [Int.tdiv_neg, Int.tdiv_one]
      omega
    · have hhalf : (a.tdiv b).natAbs ≤ a.natAbs / 2 := by
        rw [Int.natAbs_tdiv]
        exact Nat.div_le_div_left hlarge (by decide)
      omega

theorem saturate_eq_self_iff {n : ℤ} : saturate n = n ↔ workingRange.Contains n :=
  ⟨fun h => h ▸ Range.contains_clamp (by decide) n, saturate_of_contains⟩

/-- Division and remainder of any two integers. Behind both is the real quotient truncated
toward zero, which is the only integer that leaves the remainder and which the division
saturates. The remainder is smaller than the divisor, and it is zero or has the sign of the
dividend. For a dividend of the working range they give the dividend back, unless it is the
smallest value and divided by `-1`. There is neither for the divisor zero. -/
theorem div?_mod?_eq_truncate (a b : ℤ) :
    (b ≠ 0 → ∃ q m, div? a b = some (saturate q) ∧ mod? a b = some m ∧
      q = truncate ((a : ℝ) / b) ∧ (∀ p, a = b * p + m ↔ p = q) ∧ |m| < |b| ∧
      (m = 0 ∨ m.sign = a.sign) ∧
      (workingRange.Contains a →
        (saturate q * b + m = a ↔ ¬(a = workingRange.lo ∧ b = -1)))) ∧
    (b = 0 → div? a b = none ∧ mod? a b = none) := by
  refine ⟨fun hb => ⟨a.tdiv b, a.tmod b, (div?_eq a b).trans (if_neg hb),
    (mod?_eq a b).trans (if_neg hb), (truncate_div a b).symm,
    fun p => eq_mul_add_tmod_iff hb, abs_tmod_lt a hb, tmod_eq_zero_or_sign_eq a b,
    fun ha => ?_⟩, fun hb => ⟨if_pos hb, if_pos hb⟩⟩
  calc saturate (a.tdiv b) * b + a.tmod b = a
    _ ↔ a = b * saturate (a.tdiv b) + a.tmod b := by rw [eq_comm, mul_comm]
    _ ↔ saturate (a.tdiv b) = a.tdiv b := eq_mul_add_tmod_iff hb
    _ ↔ workingRange.Contains (a.tdiv b) := saturate_eq_self_iff
    _ ↔ ¬(a = workingRange.lo ∧ b = -1) := contains_tdiv_iff ha hb

/-- The smallest value divided by `-1` is one too large, and is not given back. -/
theorem div?_mod?_eq_truncate_least :
    workingRange.Contains workingRange.lo ∧ ∃ q m, div? workingRange.lo (-1) = some (saturate q) ∧
      mod? workingRange.lo (-1) = some m ∧ saturate q * -1 + m ≠ workingRange.lo := by
  have hlo : workingRange.Contains workingRange.lo := by decide
  obtain ⟨q, m, hq, hm, -, -, -, -, hback⟩ :=
    (div?_mod?_eq_truncate workingRange.lo (-1)).1 (by decide)
  exact ⟨hlo, q, m, hq, hm, fun h => (hback hlo).1 h ⟨rfl, rfl⟩⟩

end IntCalc.Arithmetic
