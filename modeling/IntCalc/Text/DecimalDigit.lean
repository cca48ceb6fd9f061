/-!
# Decimal digits of every script

Unicode has several runs of ten decimal digits, one after another from zero
to nine. `decimalValue?` finds the value of a digit in its run and
`isDecimalDigit` recognises the digits; those of ASCII are the first run.
-/

namespace IntCalc.Text

/-- The code points of the zeros, each of which starts a run of ten digits. -/
def decimalZeros : List Nat :=
  [0x30, 0x660, 0x6f0, 0x7c0, 0x966, 0x9e6, 0xa66, 0xae6, 0xb66, 0xbe6, 0xc66, 0xce6, 0xd66,
    0xde6, 0xe50, 0xed0, 0xf20, 0x1040, 0x1090, 0x17e0, 0x1810, 0x1946, 0x19d0, 0x1a80, 0x1a90,
    0x1b50, 0x1bb0, 0x1c40, 0x1c50, 0xa620, 0xa8d0, 0xa900, 0xa9d0, 0xa9f0, 0xaa50, 0xabf0,
    0xff10, 0x104a0, 0x10d30, 0x11066, 0x110f0, 0x11136, 0x111d0, 0x112f0, 0x11450, 0x114d0,
    0x11650, 0x116c0, 0x11730, 0x118e0, 0x11950, 0x11c50, 0x11d50, 0x11da0, 0x16a60, 0x16ac0,
    0x16b50, 0x1d7ce, 0x1d7d8, 0x1d7e2, 0x1d7ec, 0x1d7f6, 0x1e140, 0x1e2f0, 0x1e950, 0x1fbf0]

/-- Whether a character is in the run that starts at a code point. -/
def inRun (c : Char) (start : Nat) : Bool :=
  start ≤ c.toNat ∧ c.toNat < start + 10

/-- The value of a decimal digit of some script. -/
def decimalValue? (c : Char) : Option Nat :=
  (decimalZeros.find? (inRun c)).map fun start => c.toNat - start

/-- Whether a character is a decimal digit of some script. -/
def isDecimalDigit (c : Char) : Bool :=
  (decimalValue? c).isSome

/-- A digit has one of ten values. -/
theorem lt_ten_of_decimalValue? {c : Char} {d : Nat} (h : decimalValue? c = some d) : d < 10 := by
  obtain ⟨start, hstart, rfl⟩ := Option.map_eq_some_iff.1 h
  have hrun : start ≤ c.toNat ∧ c.toNat < start + 10 := by
    simpa [inRun] using List.find?_some hstart
  omega

/-- The first run is that of the ASCII digits. -/
theorem decimalValue?_of_isDigit {c : Char} (h : c.isDigit = true) :
    decimalValue? c = some (c.toNat - '0'.toNat) := by
  have hc : 48 ≤ c.toNat ∧ c.toNat ≤ 57 := by
    simpa [Char.isDigit, UInt32.le_iff_toNat_le] using h
  have hrun : inRun c 0x30 = true := by
    simp only [inRun, decide_eq_true_eq]
    omega
  rw [decimalValue?, decimalZeros, List.find?_cons_of_pos hrun]
  rfl

end IntCalc.Text
