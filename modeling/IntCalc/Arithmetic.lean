import IntCalc.IntType
import IntCalc.Operator

/-!
# Saturating arithmetic

The six operations on integers. Results that leave the working range are
moved to its nearer end, never wrapped around. Division truncates toward
zero (`quotient_eq_tdiv`) and the remainder takes the sign of the dividend
(`remainder_eq_tmod`); neither is defined for a zero divisor. A power with a
negative exponent is the real power truncated toward zero, and zero to a
negative power counts as too large.

`Operator.value?` applies an operator and is `none` exactly for a division
or remainder by zero.
-/

namespace IntCalc

/-- The type in which values are computed. -/
def workingType : IntType :=
  .int64

/-- The range of the working type. -/
def workingRange : Range :=
  workingType.range

namespace Arithmetic

/-- Moves a value into the working range. -/
def saturate (n : Int) : Int :=
  workingRange.clamp n

/-- The saturated sum. -/
def add (a b : Int) : Int :=
  saturate (a + b)

/-- The saturated difference. -/
def sub (a b : Int) : Int :=
  saturate (a - b)

/-- The saturated product. -/
def mul (a b : Int) : Int :=
  saturate (a * b)

/-- The quotient of the magnitudes, negative if the signs differ. -/
def quotient (a b : Int) : Int :=
  let magnitude : Int := a.natAbs / b.natAbs
  if decide (a < 0) ≠ decide (b < 0) then -magnitude else magnitude

/-- The remainder of the magnitudes, with the sign of the dividend. -/
def remainder (a b : Int) : Int :=
  let magnitude : Int := a.natAbs % b.natAbs
  if a < 0 then -magnitude else magnitude

/-- The quotient, unless the divisor is zero. -/
def div? (a b : Int) : Option Int :=
  if b = 0 then none else some (saturate (quotient a b))

/-- The remainder, unless the divisor is zero. It is not saturated. -/
def mod? (a b : Int) : Option Int :=
  if b = 0 then none else some (remainder a b)

/-- A power with a negative exponent. -/
def powNeg (a b : Int) : Int :=
  if a = 0 then workingRange.hi
  else if a = 1 then 1
  else if a = -1 then (if b % 2 = 0 then 1 else -1)
  else 0

/-- A power with the exponent `b ≥ 0`. From 64 on the exponent takes every
base but `0`, `1` and `-1` out of the working range, so the power itself is
computed only below that. -/
def powNonneg (a : Int) (b : Nat) : Int :=
  if a = 0 then (if b = 0 then 1 else 0)
  else if a = 1 then 1
  else if a = -1 then (if b % 2 = 0 then 1 else -1)
  else if workingType.bits ≤ b then
    (if a < 0 ∧ b % 2 = 1 then workingRange.lo else workingRange.hi)
  else saturate (Int.pow a b)

/-- The integer power. -/
def pow (a b : Int) : Int :=
  if b < 0 then powNeg a b else powNonneg a b.toNat

/-- The magnitude of a number. -/
theorem natAbs_eq_ite (a : Int) : (a.natAbs : Int) = if a < 0 then -a else a := by
  split <;> omega

/-- The quotient is truncated toward zero. -/
theorem quotient_eq_tdiv (a b : Int) : quotient a b = a.tdiv b := by
  have hdiv : (a.natAbs : Int) / b.natAbs = (a.natAbs : Int).tdiv b.natAbs :=
    (Int.tdiv_eq_ediv_of_nonneg (Int.natCast_nonneg _)).symm
  simp only [quotient, hdiv]
  simp only [natAbs_eq_ite]
  by_cases ha : a < 0 <;> by_cases hb : b < 0 <;> simp [ha, hb]

/-- The remainder is that of the truncated quotient. -/
theorem remainder_eq_tmod (a b : Int) : remainder a b = a.tmod b := by
  have hmod : (a.natAbs : Int) % b.natAbs = (a.natAbs : Int).tmod b.natAbs :=
    (Int.tmod_eq_emod_of_nonneg (Int.natCast_nonneg _)).symm
  simp only [remainder, hmod]
  simp only [natAbs_eq_ite]
  by_cases ha : a < 0 <;> by_cases hb : b < 0 <;> simp [ha, hb]

theorem div?_eq (a b : Int) : div? a b = if b = 0 then none else some (saturate (a.tdiv b)) := by
  rw [div?, quotient_eq_tdiv]

theorem mod?_eq (a b : Int) : mod? a b = if b = 0 then none else some (a.tmod b) := by
  rw [mod?, remainder_eq_tmod]

end Arithmetic

/-- The value of an operator on two operands, `none` if it divides by zero. -/
def Operator.value? : Operator → Int → Int → Option Int
  | .add, a, b => some (Arithmetic.add a b)
  | .sub, a, b => some (Arithmetic.sub a b)
  | .mul, a, b => some (Arithmetic.mul a b)
  | .div, a, b => Arithmetic.div? a b
  | .mod, a, b => Arithmetic.mod? a b
  | .pow, a, b => some (Arithmetic.pow a b)

/-- Only a zero divisor leaves an operator without a value. -/
theorem Operator.value?_eq_none_iff {op : Operator} {a b : Int} :
    op.value? a b = none ↔ (op = .div ∨ op = .mod) ∧ b = 0 := by
  cases op <;> simp [value?, Arithmetic.div?, Arithmetic.mod?]

end IntCalc
