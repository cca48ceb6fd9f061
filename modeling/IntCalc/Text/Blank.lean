/-!
# Blank characters

The characters that may surround a numeral: the ASCII blanks, the next-line
and no-break characters, and the space separators, line separator and
paragraph separator of Unicode.
-/

namespace IntCalc.Text

/-- The code points of blank characters, as inclusive intervals. -/
def blankIntervals : List (Nat × Nat) :=
  [(0x09, 0x0d), (0x20, 0x20), (0x85, 0x85), (0xa0, 0xa0), (0x1680, 0x1680), (0x2000, 0x200a),
    (0x2028, 0x2029), (0x202f, 0x202f), (0x205f, 0x205f), (0x3000, 0x3000)]

/-- Whether a character is blank. -/
def isBlank (c : Char) : Bool :=
  blankIntervals.any fun (lo, hi) => lo ≤ c.toNat ∧ c.toNat ≤ hi

end IntCalc.Text
