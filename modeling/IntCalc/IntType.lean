/-!
# Integer types and ranges

`IntType` lists the eight fixed-width integer types. Arithmetic is done in
unbounded integers; a type only contributes its `Range`. A result must lie
in the closed range (`Range.Contains`), a literal strictly inside it
(`Range.Interior`).
-/

namespace IntCalc

/-- The integers from `lo` to `hi`. -/
structure Range where
  lo : Int
  hi : Int
  deriving DecidableEq, Repr

namespace Range

/-- The value lies in the range, ends included. -/
def Contains (r : Range) (n : Int) : Prop :=
  r.lo ≤ n ∧ n ≤ r.hi

instance (r : Range) (n : Int) : Decidable (r.Contains n) :=
  inferInstanceAs (Decidable (_ ∧ _))

/-- The value lies in the range and is neither of its ends. -/
def Interior (r : Range) (n : Int) : Prop :=
  r.lo < n ∧ n < r.hi

instance (r : Range) (n : Int) : Decidable (r.Interior n) :=
  inferInstanceAs (Decidable (_ ∧ _))

/-- The range lies in another one, ends included. -/
def Inside (r s : Range) : Prop :=
  s.lo ≤ r.lo ∧ r.hi ≤ s.hi

instance (r s : Range) : Decidable (r.Inside s) :=
  inferInstanceAs (Decidable (_ ∧ _))

/-- The value of the range nearest to `n`. -/
def clamp (r : Range) (n : Int) : Int :=
  if r.hi < n then r.hi else if n < r.lo then r.lo else n

/-- What lies strictly inside a range lies in it. -/
theorem Interior.contains {r : Range} {n : Int} (h : r.Interior n) : r.Contains n :=
  ⟨Int.le_of_lt h.1, Int.le_of_lt h.2⟩

theorem Contains.wider {r s : Range} {n : Int} (h : r.Contains n) (hrange : r.Inside s) :
    s.Contains n :=
  ⟨Int.le_trans hrange.1 h.1, Int.le_trans h.2 hrange.2⟩

theorem Interior.wider {r s : Range} {n : Int} (h : r.Interior n) (hrange : r.Inside s) :
    s.Interior n :=
  ⟨Int.lt_of_le_of_lt hrange.1 h.1, Int.lt_of_lt_of_le h.2 hrange.2⟩

/-- A value of the range stays where it is. -/
theorem clamp_eq_self {r : Range} {n : Int} (h : r.Contains n) : r.clamp n = n := by
  unfold clamp
  have h1 := h.1
  have h2 := h.2
  split
  · omega
  · split <;> omega

/-- A clamped value lies in the range. -/
theorem contains_clamp {r : Range} (h : r.lo ≤ r.hi) (n : Int) : r.Contains (r.clamp n) := by
  unfold clamp Contains
  split
  · exact ⟨h, Int.le_refl _⟩
  · split
    · exact ⟨Int.le_refl _, h⟩
    · omega

end Range

/-- A fixed-width integer type. -/
inductive IntType
  | int8
  | int16
  | int32
  | int64
  | uint8
  | uint16
  | uint32
  | uint64
  deriving DecidableEq, Repr

namespace IntType

/-- The width of the type. -/
def bits : IntType → Nat
  | int8 | uint8 => 8
  | int16 | uint16 => 16
  | int32 | uint32 => 32
  | int64 | uint64 => 64

/-- Whether the type holds negative values. -/
def signed : IntType → Bool
  | int8 | int16 | int32 | int64 => true
  | uint8 | uint16 | uint32 | uint64 => false

/-- The values of the type. A signed type of `n` bits starts at the negative
of `2 ^ (n - 1)` and ends just below `2 ^ (n - 1)`; an unsigned type starts
at `0` and ends just below `2 ^ n`. -/
def range : IntType → Range
  | int8 => ⟨-128, 127⟩
  | int16 => ⟨-32768, 32767⟩
  | int32 => ⟨-2147483648, 2147483647⟩
  | int64 => ⟨-9223372036854775808, 9223372036854775807⟩
  | uint8 => ⟨0, 255⟩
  | uint16 => ⟨0, 65535⟩
  | uint32 => ⟨0, 4294967295⟩
  | uint64 => ⟨0, 18446744073709551615⟩

/-- The name of the type. -/
def name : IntType → String
  | int8 => "int8"
  | int16 => "int16"
  | int32 => "int32"
  | int64 => "int64"
  | uint8 => "uint8"
  | uint16 => "uint16"
  | uint32 => "uint32"
  | uint64 => "uint64"

/-- Every type, signed types first. -/
def all : List IntType :=
  [int8, int16, int32, int64, uint8, uint16, uint32, uint64]

/-- The type with a given name. -/
def ofName? (s : String) : Option IntType :=
  all.find? (·.name == s)

end IntType

end IntCalc
