import IntCalc.Text.Blank
import IntCalc.Text.DecimalDigit

/-!
# Decimal numerals

`Numeral.digits` writes a natural number and `Numeral.natValue` reads a list
of ASCII digits; `natValue_digits` says that reading undoes writing.
`Numeral.ofInt` is the decimal form of an integer.

`Numeral.read` reads an integer from a text: one optional sign and at least
one digit, with blanks around them allowed. The digits may be those of any
script, and single underscores may stand between them. Numerals of more than
`maxDigits` digits are not read, zeros at their front counted, and numbers of
more digits are not written (`Numeral.Printable`).
-/

namespace IntCalc.Numeral

/-- The most digits of a numeral that is read or written. -/
def maxDigits : Nat := 4300

/-- The value of an ASCII digit. -/
def digitValue (c : Char) : Nat :=
  c.toNat - '0'.toNat

/-- The digit of a value below ten. -/
def digitChar (d : Nat) : Char :=
  Char.ofNat (d + '0'.toNat)

/-- The value of a digit list, most significant digit first. -/
def natValue (cs : List Char) : Nat :=
  cs.foldl (fun n c => 10 * n + digitValue c) 0

/-- The number with digits of given values, most significant digit first. -/
def ofValues (values : List Nat) : Nat :=
  values.foldl (fun n d => 10 * n + d) 0

/-- Puts the digits of `n` in front of `tail`. -/
def digitsOnto (n : Nat) (tail : List Char) : List Char :=
  if n < 10 then digitChar n :: tail
  else digitsOnto (n / 10) (digitChar (n % 10) :: tail)
termination_by n

/-- The digits of a natural number, without leading zeros. -/
def digits (n : Nat) : List Char :=
  digitsOnto n []

/-- The decimal form of an integer. -/
def ofInt (n : Int) : String :=
  String.ofList (if n < 0 then '-' :: digits n.natAbs else digits n.natAbs)

/-- The decimal form is short enough to be written. -/
def Printable (n : Int) : Prop :=
  (digits n.natAbs).length ≤ maxDigits

instance (n : Int) : Decidable (Printable n) :=
  inferInstanceAs (Decidable (_ ≤ _))

/-! ## Reading -/

/-- Why no number is read from a text. -/
inductive NumeralError
  /-- The text is no numeral. -/
  | malformed
  /-- The numeral has too many digits. -/
  | tooLong (digits : Nat)
  deriving DecidableEq, Repr

/-- Whether digits are grouped by single underscores. An underscore, and the
end, must have a digit directly in front. -/
def groupedAfter : Bool → List Char → Bool
  | digit, [] => digit
  | digit, c :: cs =>
    if c = '_' then digit && groupedAfter false cs
    else Text.isDecimalDigit c && groupedAfter true cs

/-- The number that stands behind an optional sign. Its length is looked at
before what is behind it. -/
def readUnsigned (cs : List Char) : Except NumeralError Nat :=
  let body := cs.takeWhile fun c => c = '_' || Text.isDecimalDigit c
  let values := body.filterMap Text.decimalValue?
  if groupedAfter false body then
    if maxDigits < values.length then .error (.tooLong values.length)
    else if (cs.drop body.length).all Text.isBlank then .ok (ofValues values)
    else .error .malformed
  else .error .malformed

/-- The integer a text denotes. -/
def read (s : String) : Except NumeralError Int :=
  match s.toList.dropWhile Text.isBlank with
  | '-' :: cs => (readUnsigned cs).map fun n : Nat => -(n : Int)
  | '+' :: cs => (readUnsigned cs).map Int.ofNat
  | cs => (readUnsigned cs).map Int.ofNat

/-- The integer a text denotes, if it denotes one. -/
def toInt? (s : String) : Option Int :=
  (read s).toOption

/-! ## Reading what was written -/

/-- The digit of a value has that value. -/
theorem digitValue_digitChar {d : Nat} (h : d < 10) : digitValue (digitChar d) = d := by
  revert d
  decide

/-- Below ten there is one digit. -/
theorem digitsOnto_of_lt {n : Nat} (h : n < 10) (tail : List Char) :
    digitsOnto n tail = digitChar n :: tail := by
  rw [digitsOnto, if_pos h]

/-- From ten on the last digit is split off. -/
theorem digitsOnto_of_le {n : Nat} (h : 10 ≤ n) (tail : List Char) :
    digitsOnto n tail = digitsOnto (n / 10) (digitChar (n % 10) :: tail) := by
  rw [digitsOnto, if_neg (by omega)]

/-- What the digits are put in front of stays behind them. -/
theorem digitsOnto_eq_append (n : Nat) (tail : List Char) :
    digitsOnto n tail = digits n ++ tail := by
  unfold digits
  induction n using Nat.strongRecOn generalizing tail with
  | ind n ih =>
    rcases Nat.lt_or_ge n 10 with h | h
    · simp [digitsOnto_of_lt h]
    · rw [digitsOnto_of_le h, digitsOnto_of_le h, ih _ (by omega),
        ih _ (by omega) [digitChar (n % 10)]]
      simp

/-- Below ten there is one digit. -/
theorem digits_of_lt {n : Nat} (h : n < 10) : digits n = [digitChar n] :=
  digitsOnto_of_lt h []

/-- From ten on the last digit stands behind those of the quotient. -/
theorem digits_of_le {n : Nat} (h : 10 ≤ n) :
    digits n = digits (n / 10) ++ [digitChar (n % 10)] := by
  rw [digits, digitsOnto_of_le h, digitsOnto_eq_append]

/-- One more digit multiplies the value by ten and adds to it. -/
theorem natValue_append_singleton (cs : List Char) (c : Char) :
    natValue (cs ++ [c]) = 10 * natValue cs + digitValue c := by
  simp [natValue]

/-- Reading the digits of a number gives the number. -/
@[simp] theorem natValue_digits (n : Nat) : natValue (digits n) = n := by
  induction n using Nat.strongRecOn with
  | ind n ih =>
    rcases Nat.lt_or_ge n 10 with h | h
    · rw [digits_of_lt h]
      simpa [natValue] using digitValue_digitChar h
    · rw [digits_of_le h, natValue_append_singleton, ih _ (by omega),
        digitValue_digitChar (Nat.mod_lt _ (by omega))]
      omega

end IntCalc.Numeral
