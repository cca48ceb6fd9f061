/-!
# Rounding to binary64

A binary64 number has 53 significant bits. `Binary64.round` takes an integer
to the nearest integer of that kind, and of two equally near ones to the one
with an even significand. `round_eq_self` says that integers of at most 53
bits stay as they are.
-/

namespace IntCalc.Binary64

/-- The distance between the neighbours of a magnitude. -/
def spacing (m : Nat) : Nat :=
  Nat.pow 2 (Nat.log2 m - 52)

/-- The nearest magnitude with 53 significant bits. -/
def roundNat (m : Nat) : Nat :=
  let u := spacing m
  let q := m / u
  let r := m % u
  if 2 * r < u ∨ (2 * r = u ∧ q % 2 = 0) then u * q else u * (q + 1)

/-- The nearest integer with 53 significant bits. -/
def round (n : Int) : Int :=
  if n < 0 then -(roundNat n.natAbs : Int) else roundNat n.natAbs

/-- The highest bit of a magnitude of at most 53 bits. -/
theorem log2_le_of_lt {m : Nat} (h : m < 9007199254740992) : Nat.log2 m ≤ 52 := by
  by_cases h0 : m = 0
  · subst h0
    decide
  · exact Nat.le_of_lt_succ ((Nat.log2_lt h0).2 (by omega))

/-- Up to 53 bits the neighbours are the neighbouring integers. -/
theorem spacing_eq_one {m : Nat} (h : m < 9007199254740992) : spacing m = 1 := by
  simp [spacing, Nat.sub_eq_zero_of_le (log2_le_of_lt h)]

/-- A magnitude of at most 53 bits stays as it is. -/
theorem roundNat_eq_self {m : Nat} (h : m < 9007199254740992) : roundNat m = m := by
  simp [roundNat, spacing_eq_one h, Nat.mod_one]

/-- An integer of at most 53 bits stays as it is. -/
theorem round_eq_self {n : Int} (h : n.natAbs < 9007199254740992) : round n = n := by
  unfold round
  rw [roundNat_eq_self h]
  split <;> omega

end IntCalc.Binary64
