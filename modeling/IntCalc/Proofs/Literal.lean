import IntCalc.Grammar.Text
import IntCalc.Parse.Scan
import IntCalc.Proofs.Symbol
import Mathlib.Data.List.TakeWhile

/-!
# What is read at the front of a text

The readers of single tokens against the grammar of texts. Brackets and operators are
read exactly behind blanks (`expect?_opening_eq_some_iff`, `operator?_eq_some_iff`),
and `integer` reads exactly the literals : what it reads is one
(`literal_of_integer_ok`), and each literal is read to its end unless another digit
follows (`integer_of_literal`).
-/

namespace IntCalc.Parse

open Grammar

variable {range : Range} {text rest w : List Char} {c : Char}

/-! ## Blanks -/

/-- A space or a tab. -/
def IsBlank (c : Char) : Prop :=
  c = ' ' ∨ c = '\t'

theorem skipBlanks_cons (h : ¬IsBlank c) : skipBlanks (c :: text) = c :: text :=
  List.dropWhile_cons_of_neg (mt Symbol.isBlank_ofChar_iff.1 h)

theorem suffix_skipBlanks (text : List Char) : skipBlanks text <:+ text :=
  List.dropWhile_suffix _

/-- Blanks in front are dropped. -/
theorem skipBlanks_append (h : IsBlanks w) : skipBlanks (w ++ text) = skipBlanks text :=
  List.dropWhile_append_of_pos fun c hc => Symbol.isBlank_ofChar_iff.2 (h c hc)

/-- Only blanks are dropped. -/
theorem exists_eq_append_skipBlanks (text : List Char) :
    ∃ w, IsBlanks w ∧ text = w ++ skipBlanks text := by
  refine ⟨text.takeWhile fun c => (Symbol.ofChar c).isBlank, fun c hc => ?_, ?_⟩
  · have hblank := List.mem_takeWhile_imp hc
    exact Symbol.isBlank_ofChar_iff.1 hblank
  · exact List.takeWhile_append_dropWhile.symm

theorem not_isBlank_of_skipBlanks (h : skipBlanks text = c :: rest) : ¬IsBlank c := by
  have hhead := List.head?_dropWhile_not (fun c => (Symbol.ofChar c).isBlank) text
  rw [show text.dropWhile (fun c => (Symbol.ofChar c).isBlank) = c :: rest from h] at hhead
  exact fun hc => by simp [Symbol.isBlank_ofChar_iff.2 hc] at hhead

theorem skipBlanks_eq_nil_iff : skipBlanks text = [] ↔ IsBlanks text := by
  simp [skipBlanks, List.dropWhile_eq_nil_iff, Symbol.isBlank_ofChar_iff, IsBlanks]

/-! ## Brackets and operators -/

theorem expect?_cons (h : ¬IsBlank c) {symbol : Symbol} :
    expect? symbol (c :: text) = if Symbol.ofChar c = symbol then some text else none := by
  simp [expect?, skipBlanks_cons h]

/-- Blanks in front of a character play no part. -/
theorem expect?_append (h : IsBlanks w) (symbol : Symbol) :
    expect? symbol (w ++ text) = expect? symbol text := by
  simp [expect?, skipBlanks_append h]

/-- Nor do they in front of an operator. -/
theorem operator?_append (h : IsBlanks w) : operator? (w ++ text) = operator? text := by
  simp [operator?, skipBlanks_append h]

/-- A character of the class is read behind blanks. -/
theorem exists_of_expect? {symbol : Symbol} (h : expect? symbol text = some rest) :
    ∃ w c, IsBlanks w ∧ text = w ++ c :: rest ∧ Symbol.ofChar c = symbol := by
  obtain ⟨w, hw, htext⟩ := exists_eq_append_skipBlanks text
  unfold expect? at h
  split at h
  · simp at h
  · next c tail hskip =>
    split at h
    · next hc =>
      cases h
      exact ⟨w, c, hw, hskip ▸ htext, hc⟩
    · simp at h

/-- A class of one character is read exactly behind blanks. -/
theorem expect?_eq_some_iff {symbol : Symbol} (hsymbol : ∀ d, Symbol.ofChar d = symbol ↔ d = c)
    (hc : ¬IsBlank c) :
    expect? symbol text = some rest ↔ ∃ w, IsBlanks w ∧ text = w ++ c :: rest := by
  constructor
  · intro h
    obtain ⟨w, d, hw, htext, hd⟩ := exists_of_expect? h
    exact ⟨w, hw, (hsymbol d).1 hd ▸ htext⟩
  · rintro ⟨w, hw, rfl⟩
    rw [expect?_append hw, expect?_cons hc, if_pos ((hsymbol c).2 rfl)]

theorem expect?_opening_eq_some_iff :
    expect? .opening text = some rest ↔ ∃ w, IsBlanks w ∧ text = w ++ '(' :: rest :=
  expect?_eq_some_iff (fun _ => Symbol.ofChar_eq_opening_iff) (by simp [IsBlank])

theorem expect?_closing_eq_some_iff :
    expect? .closing text = some rest ↔ ∃ w, IsBlanks w ∧ text = w ++ ')' :: rest :=
  expect?_eq_some_iff (fun _ => Symbol.ofChar_eq_closing_iff) (by simp [IsBlank])

theorem not_isBlank_operator (op : Operator) : ¬IsBlank op.char := by
  cases op <;> simp [IsBlank, Operator.char]

theorem operator?_eq_some_iff {op : Operator} :
    operator? text = some (op, rest) ↔ ∃ w, IsBlanks w ∧ text = w ++ op.char :: rest := by
  constructor
  · intro h
    obtain ⟨w, hw, htext⟩ := exists_eq_append_skipBlanks text
    unfold operator? at h
    split at h
    · simp at h
    · next c tail hskip =>
      split at h
      · next op' hc =>
        cases h
        exact ⟨w, hw, Symbol.ofChar_eq_operator_iff.1 hc ▸ hskip ▸ htext⟩
      · simp at h
  · rintro ⟨w, hw, rfl⟩
    rw [operator?_append hw, operator?, skipBlanks_cons (not_isBlank_operator op)]
    simp

/-! ## Minus signs -/

/-- Blanks in front of minus signs play no part. -/
theorem signs_append_blanks (h : IsBlanks w) (negative : Bool) :
    signs negative (w ++ text) = signs negative text := by
  induction w with
  | nil => rfl
  | cons c w ih =>
    obtain ⟨hc, hw⟩ := List.forall_mem_cons.1 h
    rcases hc with rfl | rfl
    · exact ih hw
    · exact ih hw

/-- One more minus sign turns the sign round. -/
theorem decide_succ_odd (n : Nat) : decide ((n + 1) % 2 = 1) = !decide (n % 2 = 1) := by
  rw [← decide_not, decide_eq_decide]
  omega

/-- A run of minus signs is read to its end, and each turns the sign round. -/
theorem signs_append_minuses {n : Nat} {run : List Char} (h : Minuses n run) (negative : Bool) :
    signs negative (run ++ text) = signs (negative ^^ (n % 2 = 1)) text := by
  induction h generalizing negative with
  | none => simp
  | @some n w run hw _ ih =>
    have hstep : signs negative ('-' :: w ++ run ++ text) =
        signs (!negative) (w ++ (run ++ text)) := by
      simp [signs, show Symbol.ofChar '-' = .operator .sub from rfl]
    rw [hstep, signs_append_blanks hw, ih, decide_succ_odd]
    simp

/-- What stops a run of minus signs stays. -/
theorem signs_cons {negative : Bool} (hblank : ¬IsBlank c) (hminus : c ≠ '-') :
    signs negative (c :: text) = (negative, c :: text) := by
  have hb : (Symbol.ofChar c).isBlank ≠ true := mt Symbol.isBlank_ofChar_iff.1 hblank
  have hm : Symbol.ofChar c ≠ .operator .sub := mt Symbol.ofChar_eq_operator_iff.1 hminus
  rw [signs]
  split <;> simp_all [Symbol.isBlank]

/-- The signs that are read are blanks and a run of minus signs. -/
theorem exists_minuses (negative : Bool) (text : List Char) :
    ∃ w n run, IsBlanks w ∧ Minuses n run ∧ text = w ++ run ++ (signs negative text).2 ∧
      (signs negative text).1 = (negative ^^ (n % 2 = 1)) := by
  fun_induction signs negative text with
  | case1 => exact ⟨[], 0, [], isBlanks_nil, .none, rfl, by simp⟩
  | case2 negative c rest hc ih =>
    obtain ⟨w, n, run, hw, hrun, htext, hsign⟩ := ih
    obtain rfl : c = '-' := Symbol.ofChar_eq_operator_iff.1 hc
    refine ⟨[], n + 1, '-' :: w ++ run, isBlanks_nil, .some hw hrun, ?_, ?_⟩
    · simpa using htext
    · rw [hsign, decide_succ_odd]
      simp
  | case3 negative c rest hc ih | case4 negative c rest hc ih =>
    obtain ⟨w, n, run, hw, hrun, htext, hsign⟩ := ih
    have hblank : IsBlank c := Symbol.isBlank_ofChar_iff.1 (by rw [hc]; rfl)
    refine ⟨c :: w, n, run, List.forall_mem_cons.2 ⟨hblank, hw⟩, hrun, ?_, hsign⟩
    simpa using htext
  | case5 => exact ⟨[], 0, [], isBlanks_nil, .none, rfl, by simp⟩

theorem suffix_signs (negative : Bool) (text : List Char) : (signs negative text).2 <:+ text := by
  obtain ⟨v, n, run, -, -, htext, -⟩ := exists_minuses negative text
  exact ⟨v ++ run, htext.symm⟩

/-! ## Digits -/

/-- The text does not start with a digit. -/
def NoDigit (text : List Char) : Prop :=
  ∀ c ∈ text.head?, c.isDigit = false

theorem noDigit_nil : NoDigit [] := by
  simp [NoDigit]

theorem noDigit_cons (h : c.isDigit = false) : NoDigit (c :: text) := by
  simpa [NoDigit] using h

theorem noDigit_append (hw : IsBlanks w) (h : NoDigit text) : NoDigit (w ++ text) := by
  cases w with
  | nil => exact h
  | cons c w =>
    refine noDigit_cons ?_
    rcases hw c (by simp) with rfl | rfl <;> rfl

/-- The digits at the front are read up to a character that is none. -/
theorem leadingDigits_append {digits : List Char} (hdigits : ∀ c ∈ digits, c.isDigit)
    (hrest : NoDigit rest) : leadingDigits (digits ++ rest) = digits := by
  simp only [leadingDigits, Symbol.isDigit_ofChar]
  rw [List.takeWhile_append_of_pos hdigits]
  cases rest with
  | nil => simp
  | cons c rest => simp [hrest c rfl]

theorem afterDigits_append {digits : List Char} (hdigits : ∀ c ∈ digits, c.isDigit)
    (hrest : NoDigit rest) : afterDigits (digits ++ rest) = rest := by
  simp only [afterDigits, Symbol.isDigit_ofChar]
  rw [List.dropWhile_append_of_pos hdigits]
  cases rest with
  | nil => simp
  | cons c rest => simp [hrest c rfl]

theorem leadingDigits_append_afterDigits (text : List Char) :
    leadingDigits text ++ afterDigits text = text :=
  List.takeWhile_append_dropWhile

/-- Numbers are read as far as their digits go. -/
theorem natural_of_isNatural {negative : Bool} {digits : List Char} (hdigits : IsNatural digits)
    (hrange : range.Interior (literalValue negative digits)) (hrest : NoDigit rest) :
    natural range negative (digits ++ rest) = .ok (literalText negative digits, rest) := by
  obtain ⟨c, cs, rfl, h0, hall⟩ := hdigits
  have hc : Symbol.ofChar c = .nonZeroDigit :=
    Symbol.ofChar_eq_nonZeroDigit_iff.2 ⟨hall c (by simp), h0⟩
  have hlead := leadingDigits_append hall hrest
  have hafter := afterDigits_append hall hrest
  simp only [List.cons_append] at hlead hafter ⊢
  simp [natural, hc, hlead, hafter, hrange]

/-- The digits at the front of a text that starts with one other than `0`. -/
theorem isNatural_leadingDigits (h : Symbol.ofChar c = .nonZeroDigit) :
    IsNatural (leadingDigits (c :: text)) := by
  obtain ⟨hd, h0⟩ := Symbol.ofChar_eq_nonZeroDigit_iff.1 h
  have hcons : leadingDigits (c :: text) = c :: leadingDigits text := by
    simp [leadingDigits, h, Symbol.isDigit]
  refine ⟨c, leadingDigits text, hcons, h0, List.forall_mem_cons.2 ⟨hd, fun d hmem => ?_⟩⟩
  have hdigit := List.mem_takeWhile_imp hmem
  rwa [← Symbol.isDigit_ofChar]

/-- What is read as a number is one, and its value lies strictly inside the range. -/
theorem isNatural_of_natural_ok {negative : Bool} {numeral : String}
    (h : natural range negative text = .ok (numeral, rest)) :
    ∃ digits, IsNatural digits ∧ text = digits ++ rest ∧
      range.Interior (literalValue negative digits) ∧ numeral = literalText negative digits := by
  unfold natural at h
  split at h
  · simp at h
  · next c tail =>
    split at h
    · next hc =>
      dsimp only at h
      split at h
      · next hrange =>
        simp only [Except.ok.injEq, Prod.mk.injEq] at h
        obtain ⟨rfl, rfl⟩ := h
        exact ⟨_, isNatural_leadingDigits hc, (leadingDigits_append_afterDigits _).symm, hrange, rfl⟩
      · simp at h
    · simp at h

/-! ## Literals -/

theorem signedText_eq (n : Nat) (digits : List Char) :
    signedText n digits = literalText (n % 2 = 1) digits := by
  simp [signedText, literalText]

theorem signedValue_eq (n : Nat) (digits : List Char) :
    signedValue n digits = literalValue (n % 2 = 1) digits := by
  simp [signedValue, literalValue]

/-- A text that starts with no `0` is read as signs and a number. -/
theorem integer_eq_natural (h : text.head? ≠ some '0') :
    integer range text = natural range (signs false text).1 (signs false text).2 := by
  unfold integer
  split
  · simp at h
  · rfl

/-- Every literal is read to its end, unless another digit follows. -/
theorem integer_of_literal {numeral : String} (h : Literal range text numeral)
    (hrest : NoDigit rest) : integer range (text ++ rest) = .ok (numeral, rest) := by
  cases h with
  | zero => rfl
  | @signed n run digits hrun hdigits hrange =>
    have hnat := natural_of_isNatural hdigits (signedValue_eq n digits ▸ hrange) hrest
    obtain ⟨c, cs, rfl, h0, hall⟩ := hdigits
    have hc : c.isDigit = true := hall c (by simp)
    have hsigns : signs false (run ++ (c :: cs) ++ rest) = (decide (n % 2 = 1), c :: cs ++ rest) := by
      rw [List.append_assoc, signs_append_minuses hrun, Bool.false_xor]
      refine signs_cons ?_ ?_
      · rintro (rfl | rfl) <;> simp at hc
      · rintro rfl
        simp at hc
    have hhead : (run ++ (c :: cs) ++ rest).head? ≠ some '0' := by
      cases hrun <;> simp [h0]
    rw [integer_eq_natural hhead, hsigns, signedText_eq]
    exact hnat

/-- A text that starts with no blank has no blanks in front. -/
theorem eq_nil_of_isBlanks (hw : IsBlanks w) (h : skipBlanks (w ++ text) = w ++ text) :
    w = [] := by
  have hle := length_skipBlanks_le text
  rw [skipBlanks_append hw] at h
  rw [h, List.length_append] at hle
  exact List.eq_nil_of_length_eq_zero (by omega)

/-- What is read from a text that starts with no blank is a literal. -/
theorem literal_of_integer_ok {numeral : String} (hblank : skipBlanks text = text)
    (h : integer range text = .ok (numeral, rest)) :
    ∃ body, text = body ++ rest ∧ Literal range body numeral := by
  by_cases hhead : text.head? = some '0'
  · obtain ⟨tail, rfl⟩ := List.head?_eq_some_iff.1 hhead
    cases h
    exact ⟨['0'], rfl, .zero⟩
  · rw [integer_eq_natural hhead] at h
    obtain ⟨digits, hdigits, hrest, hrange, rfl⟩ := isNatural_of_natural_ok h
    obtain ⟨w, n, run, hw, hrun, htext, hsign⟩ := exists_minuses false text
    rw [hrest] at htext
    rw [Bool.false_xor] at hsign
    rw [hsign, ← signedValue_eq] at hrange
    rw [hsign, ← signedText_eq]
    obtain rfl : w = [] := by
      rw [htext, List.append_assoc] at hblank
      exact eq_nil_of_isBlanks hw hblank
    exact ⟨run ++ digits, by simpa using htext, .signed hrun hdigits hrange⟩

end IntCalc.Parse
