import IntCalc.Symbol

/-!
# Which characters a class holds

`Symbol.Holds` describes each class of the grammar by its characters : the brackets
and operators are one character each, blanks are the space and the tab, and the digits
are those of `Char.isDigit`, of which `0` is a class of its own. Every character is
held by its class (`Symbol.holds_ofChar`), and each class that the grammar uses holds
no other characters.
-/

namespace IntCalc

theorem Operator.char_eq_of_ofChar? {c : Char} {op : Operator} (h : ofChar? c = some op) :
    c = op.char := by
  have hc := List.find?_some h
  exact (eq_of_beq hc).symm

namespace Symbol

variable {c : Char}

theorem isDigit_iff_toNat : c.isDigit = true ↔ 48 ≤ c.toNat ∧ c.toNat ≤ 57 := by
  simp [Char.isDigit, UInt32.le_iff_toNat_le]

/-- The digits from `1` to `9` are those other than `0`. -/
theorem one_le_le_nine_iff : '1' ≤ c ∧ c ≤ '9' ↔ c.isDigit = true ∧ c ≠ '0' := by
  have hzero : c ≠ '0' ↔ c.toNat ≠ 48 := not_congr Char.toNat_inj.symm
  rw [isDigit_iff_toNat, hzero]
  simp only [Char.le_def, UInt32.le_iff_toNat_le]
  show 49 ≤ c.toNat ∧ c.toNat ≤ 57 ↔ _
  omega

/-- The characters of a class. -/
def Holds : Symbol → Char → Prop
  | operator op, c => c = op.char
  | opening, c => c = '('
  | closing, c => c = ')'
  | zero, c => c = '0'
  | nonZeroDigit, c => c.isDigit = true ∧ c ≠ '0'
  | space, c => c = ' '
  | tab, c => c = '\t'
  | endMark, c => c = '\x00'
  | invalid, c => c.isDigit = false

theorem holds_ofChar (c : Char) : (ofChar c).Holds c := by
  unfold ofChar
  simp only [one_le_le_nine_iff]
  repeat' split
  all_goals simp_all [Holds, Operator.char_eq_of_ofChar?]

theorem ofChar_eq_opening_iff : ofChar c = opening ↔ c = '(' := by
  refine ⟨fun h => ?_, ?_⟩
  · simpa [h, Holds] using holds_ofChar c
  · rintro rfl
    decide

theorem ofChar_eq_closing_iff : ofChar c = closing ↔ c = ')' := by
  refine ⟨fun h => ?_, ?_⟩
  · simpa [h, Holds] using holds_ofChar c
  · rintro rfl
    decide

theorem ofChar_eq_zero_iff : ofChar c = zero ↔ c = '0' := by
  refine ⟨fun h => ?_, ?_⟩
  · simpa [h, Holds] using holds_ofChar c
  · rintro rfl
    decide

theorem ofChar_eq_operator_iff {op : Operator} : ofChar c = operator op ↔ c = op.char := by
  refine ⟨fun h => ?_, ?_⟩
  · simpa [h, Holds] using holds_ofChar c
  · rintro rfl
    exact ofChar_char op

theorem isBlank_ofChar_iff : (ofChar c).isBlank = true ↔ c = ' ' ∨ c = '\t' := by
  refine ⟨fun h => ?_, ?_⟩
  · have hc := holds_ofChar c
    cases hs : ofChar c <;> simp_all [isBlank, Holds]
  · rintro (rfl | rfl) <;> decide

theorem isDigit_ofChar (c : Char) : (ofChar c).isDigit = c.isDigit := by
  have hc := holds_ofChar c
  cases hs : ofChar c with
  | operator op => cases op <;> simp_all [isDigit, Holds, Operator.char]
  | _ => simp_all [isDigit, Holds]

theorem ofChar_eq_nonZeroDigit_iff : ofChar c = nonZeroDigit ↔ c.isDigit = true ∧ c ≠ '0' := by
  refine ⟨fun h => ?_, fun ⟨hd, h0⟩ => ?_⟩
  · simpa [h, Holds] using holds_ofChar c
  · have hc := holds_ofChar c
    rw [← isDigit_ofChar] at hd
    cases hs : ofChar c <;> simp_all [isDigit, Holds]

end Symbol

end IntCalc
