import IntCalc.Proofs.Acceptance

/-!
# How far a reading looks

A reading stops at a character it cannot use, and looks no further : the unread text may
be changed behind the part of it that settles the reading (`Settles`), and the reading
stays as it is (`Reads.stays`). A part settles a reading as soon as it is not
blank. Only a literal that is out of range has to be seen up to its last digit, and it
stays out of range if more digits follow (`not_interior_append`).
-/

namespace IntCalc.Parse

open Grammar

variable {range : Range} {part : Part} {text rest look tail tail' : List Char} {c : Char}
  {ts : List Token} {r : Except Failure (List Char)} {negative : Bool}

/-! ## Blanks, brackets and operators -/

theorem not_isBlanks_append (h : ¬IsBlanks look) (front : List Char) : ¬IsBlanks (front ++ look) :=
  fun hall => h fun c hc => hall c (List.mem_append_right _ hc)

theorem skipBlanks_look (h : ¬IsBlanks look) (tail : List Char) :
    skipBlanks (look ++ tail) = skipBlanks look ++ tail := by
  have hne : skipBlanks look ≠ [] := mt skipBlanks_eq_nil_iff.1 h
  unfold skipBlanks at hne ⊢
  rw [List.dropWhile_append, if_neg (by simpa using hne)]

theorem expect?_look (h : ¬IsBlanks look) (symbol : Symbol) (tail : List Char) :
    expect? symbol (look ++ tail) = (expect? symbol look).map (· ++ tail) := by
  obtain ⟨c, cs, hskip⟩ := List.exists_cons_of_ne_nil (mt skipBlanks_eq_nil_iff.1 h)
  simp only [expect?, skipBlanks_look h, hskip, List.cons_append]
  split <;> rfl

theorem operator?_look (h : ¬IsBlanks look) (tail : List Char) :
    operator? (look ++ tail) = (operator? look).map fun p => (p.1, p.2 ++ tail) := by
  obtain ⟨c, cs, hskip⟩ := List.exists_cons_of_ne_nil (mt skipBlanks_eq_nil_iff.1 h)
  simp only [operator?, skipBlanks_look h, hskip, List.cons_append]
  split <;> rfl

/-- What is not there is not there with another text behind. -/
theorem expect?_eq_none_replace {symbol : Symbol} (h : ¬IsBlanks look)
    (hnone : expect? symbol (look ++ tail) = none) (tail' : List Char) :
    expect? symbol (look ++ tail') = none := by
  rw [expect?_look h, Option.map_eq_none_iff] at hnone ⊢
  exact hnone

theorem operator?_eq_none_replace (h : ¬IsBlanks look)
    (hnone : operator? (look ++ tail) = none) (tail' : List Char) :
    operator? (look ++ tail') = none := by
  rw [operator?_look h, Option.map_eq_none_iff] at hnone ⊢
  exact hnone

/-- A text that starts with no blank starts with none with another text behind. -/
theorem skipBlanks_eq_self_replace (h : ¬IsBlanks look)
    (hself : skipBlanks (look ++ tail) = look ++ tail) :
    skipBlanks (look ++ tail') = look ++ tail' := by
  rw [skipBlanks_look h] at hself ⊢
  rw [List.append_cancel_right hself]

/-! ## Literals -/

/-- Signs are read up to a character that is neither a blank nor a minus sign. -/
theorem head_of_signs (h : (signs negative text).2 = c :: rest) : ¬IsBlank c ∧ c ≠ '-' := by
  fun_induction signs negative text with
  | case1 => simp at h
  | case2 negative d tail hd ih => exact ih h
  | case3 negative d tail hd ih => exact ih h
  | case4 negative d tail hd ih => exact ih h
  | case5 negative d tail hminus hspace htab =>
    obtain ⟨rfl, rfl⟩ := List.cons.inj h
    refine ⟨fun hblank => ?_, fun heq => ?_⟩
    · have hclass := Symbol.isBlank_ofChar_iff.2 hblank
      cases hc : Symbol.ofChar d <;> simp_all [Symbol.isBlank]
    · exact hminus (Symbol.ofChar_eq_operator_iff.2 heq)

theorem noDigit_afterDigits (text : List Char) : NoDigit (afterDigits text) := by
  intro c hc
  have hdigit := List.head?_dropWhile_not (fun c => (Symbol.ofChar c).isDigit) text
  rw [afterDigits] at hc
  rw [Option.mem_def.1 hc] at hdigit
  simpa [Symbol.isDigit_ofChar] using hdigit

/-- What is not a digit in front stays there with another text behind. -/
theorem noDigit_replace (hne : look ≠ []) (h : NoDigit (look ++ tail)) :
    NoDigit (look ++ tail') := by
  obtain ⟨c, cs, rfl⟩ := List.exists_cons_of_ne_nil hne
  exact noDigit_cons (h c rfl)

/-- More digits make no number smaller. -/
theorem natValue_le_append (digits more : List Char) :
    Numeral.natValue digits ≤ Numeral.natValue (digits ++ more) := by
  induction more using List.reverseRecOn with
  | nil => simp
  | append_singleton more c ih =>
    rw [← List.append_assoc, Numeral.natValue_append_singleton]
    omega

/-- A number that does not start with `0` is positive. -/
theorem one_le_natValue {digits : List Char} (h : IsNatural digits) :
    1 ≤ Numeral.natValue digits := by
  obtain ⟨c, cs, rfl, h0, hall⟩ := h
  obtain ⟨hlo, hhi⟩ := Symbol.isDigit_iff_toNat.1 (hall c (by simp))
  have hne : c.toNat ≠ 48 := fun h => h0 (Char.toNat_inj.1 h)
  calc 1 ≤ Numeral.digitValue c := by
        show 1 ≤ c.toNat - 48
        omega
    _ = Numeral.natValue [c] := by simp [Numeral.natValue]
    _ ≤ Numeral.natValue (c :: cs) := natValue_le_append [c] cs

/-- A literal out of range stays out of range if more digits follow. -/
theorem not_interior_append {digits : List Char} (hrange : range.Interior 1)
    (hdigits : IsNatural digits) (h : ¬range.Interior (literalValue negative digits))
    (more : List Char) : ¬range.Interior (literalValue negative (digits ++ more)) := by
  have hpos := one_le_natValue hdigits
  have hle := natValue_le_append digits more
  obtain ⟨hlo, hhi⟩ := hrange
  unfold Range.Interior literalValue at *
  cases negative <;> simp only [if_true, Bool.false_eq_true, if_false] at h ⊢ <;> omega

/-- A number fails in the same way with another text behind, if all of its digits that
were read out of range stay. -/
theorem natural_error_replace {f : Failure} (hrange : range.Interior 1) (hne : look ≠ [])
    (h : natural range negative (look ++ tail) = .error f)
    (hdigits : f.status = .integerOutOfRange → leadingDigits (look ++ tail) <+: look) :
    natural range negative (look ++ tail') = .error ⟨f.status, look ++ tail'⟩ := by
  obtain ⟨c, cs, rfl⟩ := List.exists_cons_of_ne_nil hne
  by_cases hc : Symbol.ofChar c = .nonZeroDigit
  · simp only [natural, List.cons_append, if_pos hc] at h
    split at h
    · cases h
    next hout =>
    cases h
    obtain ⟨more, hmore⟩ := hdigits rfl
    rw [List.cons_append] at hmore
    -- All digits of the old literal are the first digits of the new one.
    have hlead : leadingDigits (c :: cs ++ tail') =
        leadingDigits (c :: (cs ++ tail)) ++ leadingDigits (more ++ tail') := by
      rw [← hmore, List.append_assoc]
      refine List.takeWhile_append_of_pos fun d hd => ?_
      exact List.mem_takeWhile_imp (p := fun d => (Symbol.ofChar d).isDigit) hd
    have hstill := not_interior_append hrange (isNatural_leadingDigits hc) hout
      (leadingDigits (more ++ tail'))
    rw [← hlead] at hstill
    simp only [natural, List.cons_append, if_pos hc] at hstill ⊢
    rw [if_neg hstill]
  · simp only [natural, List.cons_append, if_neg hc] at h ⊢
    cases h
    rfl

/-- No digit follows a literal that does not start with `0`. -/
theorem noDigit_of_integer_ok {numeral : String} (hhead : text.head? ≠ some '0')
    (h : integer range text = .ok (numeral, rest)) : NoDigit rest := by
  rw [integer_eq_natural hhead] at h
  unfold natural at h
  split at h
  · cases h
  · split at h
    · dsimp only at h
      split at h
      · cases h
        exact noDigit_afterDigits _
      · cases h
    · cases h

/-- A literal is read in the same way with another text behind. -/
theorem exists_integer_ok_replace {numeral : String} (hblank : skipBlanks text = text)
    (hne : look ≠ []) (h : integer range text = .ok (numeral, look ++ tail)) :
    ∃ body, text = body ++ (look ++ tail) ∧ Literal range body numeral ∧
      ∀ tail', integer range (body ++ (look ++ tail')) = .ok (numeral, look ++ tail') := by
  obtain ⟨body, rfl, hliteral⟩ := literal_of_integer_ok hblank h
  refine ⟨body, rfl, hliteral, fun tail' => ?_⟩
  by_cases hhead : (body ++ (look ++ tail)).head? = some '0'
  · cases hliteral with
    | zero => rfl
    | signed hrun hdigits =>
      obtain ⟨c, cs, rfl, h0, -⟩ := hdigits
      cases hrun <;> simp [h0] at hhead
  · exact integer_of_literal hliteral (noDigit_replace hne (noDigit_of_integer_ok hhead h))

/-- A literal fails behind a run of minus signs. -/
theorem exists_minuses_of_integer_error {f : Failure} (hblank : skipBlanks text = text)
    (h : integer range text = .error f) :
    ∃ n run, Minuses n run ∧ text = run ++ f.rest ∧ text.head? ≠ some '0' ∧
      (signs false text).2 = f.rest ∧ natural range (n % 2 = 1) f.rest = .error f := by
  have hhead : text.head? ≠ some '0' := by
    intro hhead
    obtain ⟨tail, rfl⟩ := List.head?_eq_some_iff.1 hhead
    cases h
  rw [integer_eq_natural hhead] at h
  obtain ⟨w, n, run, hw, hrun, htext, hsign⟩ := exists_minuses false text
  rw [length_natural_error h]
  obtain rfl : w = [] := by
    rw [htext, List.append_assoc] at hblank
    exact eq_nil_of_isBlanks hw hblank
  rw [hsign, Bool.false_xor] at h
  exact ⟨n, run, hrun, htext, hhead, rfl, h⟩

/-- It fails in the same way with another text behind. -/
theorem exists_integer_error_replace {f : Failure} (hrange : range.Interior 1)
    (hblank : skipBlanks text = text) (hne : look ≠ []) (h : integer range text = .error f)
    (hrest : f.rest = look ++ tail)
    (hdigits : f.status = .integerOutOfRange → leadingDigits f.rest <+: look) :
    ∃ run, text = run ++ (look ++ tail) ∧
      ∀ tail', integer range (run ++ (look ++ tail')) = .error ⟨f.status, look ++ tail'⟩ := by
  obtain ⟨n, run, hrun, htext, hhead, hsigns, hnat⟩ := exists_minuses_of_integer_error hblank h
  rw [hrest] at htext hsigns hnat hdigits
  refine ⟨run, htext, fun tail' => ?_⟩
  have hfails : natural range (n % 2 = 1) (look ++ tail') = .error ⟨f.status, look ++ tail'⟩ :=
    natural_error_replace hrange hne hnat hdigits
  obtain ⟨c, cs, rfl⟩ := List.exists_cons_of_ne_nil hne
  obtain ⟨hc, hminus⟩ := head_of_signs hsigns
  have hhead' : (run ++ (c :: cs ++ tail')).head? ≠ some '0' := by
    rw [htext] at hhead
    cases hrun with
    | none => exact hhead
    | some => simp
  have hstop : signs false (run ++ (c :: cs ++ tail')) = (decide (n % 2 = 1), c :: cs ++ tail') := by
    rw [signs_append_minuses hrun, Bool.false_xor]
    exact signs_cons hc hminus
  rw [integer_eq_natural hhead', hstop]
  exact hfails

/-! ## Readings -/

/-- The text that a reading leaves unread. -/
def unread : Except Failure (List Char) → List Char
  | .ok rest => rest
  | .error f => f.rest

/-- The end of a reading in front of another text. -/
def endAt (rest : List Char) : Except Failure (List Char) → Except Failure (List Char)
  | .ok _ => .ok rest
  | .error f => .error ⟨f.status, rest⟩

/-- `look`, at the front of the unread text, settles how a reading ends. -/
structure Settles (look : List Char) (r : Except Failure (List Char)) : Prop where
  not_blank : ¬IsBlanks look
  /-- All digits of a literal out of range are seen. -/
  digits : ∀ f, r = .error f → f.status = .integerOutOfRange → leadingDigits f.rest <+: look

theorem settles_ok (h : ¬IsBlanks look) (front : List Char) :
    Settles (front ++ look) (.ok rest) :=
  ⟨not_isBlanks_append h front, by simp⟩

theorem Settles.ne_nil (h : Settles look r) : look ≠ [] :=
  ne_nil_of_not_isBlanks h.not_blank

theorem Failure.afterOperator_of_ne_nil {f : Failure} (h : f.rest ≠ []) : f.afterOperator = f :=
  if_neg fun hf => h hf.1

theorem Failure.rest_afterOperator (f : Failure) : f.afterOperator.rest = f.rest := by
  unfold afterOperator
  split
  · next h => exact h.1.symm
  · rfl

@[simp] theorem endAt_ok (rest rest' : List Char) : endAt rest (.ok rest') = .ok rest :=
  rfl

@[simp] theorem endAt_error (rest : List Char) (f : Failure) :
    endAt rest (.error f) = .error ⟨f.status, rest⟩ :=
  rfl

/-- The unread text of a reading can be changed behind `look`. -/
def Stays (range : Range) (part : Part) (text : List Char) (ts : List Token)
    (r : Except Failure (List Char)) (look tail : List Char) : Prop :=
  ∃ front, text = front ++ (look ++ tail) ∧
    ∀ tail', Reads range part (front ++ (look ++ tail')) ts (endAt (look ++ tail') r)

/-- The start of a literal is found with another text behind. -/
theorem exists_start_replace {body : List Char} (h : ¬IsBlanks look)
    (hskip : skipBlanks text = body ++ (look ++ tail)) (hopen : expect? .opening text = none) :
    ∃ w, text = w ++ body ++ (look ++ tail) ∧
      ∀ tail', expect? .opening (w ++ body ++ (look ++ tail')) = none ∧
        skipBlanks (w ++ body ++ (look ++ tail')) = body ++ (look ++ tail') := by
  obtain ⟨w, hw, htext⟩ := exists_eq_append_skipBlanks text
  rw [hskip, ← List.append_assoc] at htext
  have hself : skipBlanks (body ++ look ++ tail) = body ++ look ++ tail := by
    rw [List.append_assoc, ← hskip, skipBlanks_skipBlanks]
  have hbody := not_isBlanks_append h body
  refine ⟨w, htext, fun tail' => ⟨?_, ?_⟩⟩
  · rw [htext, ← List.append_assoc] at hopen
    rw [← List.append_assoc]
    exact expect?_eq_none_replace (not_isBlanks_append h (w ++ body)) hopen tail'
  · rw [List.append_assoc, skipBlanks_append hw, ← List.append_assoc]
    exact skipBlanks_eq_self_replace hbody hself

theorem stays_literal {numeral : String} (h : ¬IsBlanks look)
    (hopen : expect? .opening text = none)
    (hint : integer range (skipBlanks text) = .ok (numeral, look ++ tail)) :
    Stays range .term text [.operand numeral] (.ok (look ++ tail)) look tail := by
  have hne : look ≠ [] := ne_nil_of_not_isBlanks h
  obtain ⟨body, hbody, -, hread⟩ := exists_integer_ok_replace (skipBlanks_skipBlanks text) hne hint
  obtain ⟨w, htext, hstart⟩ := exists_start_replace h hbody hopen
  refine ⟨w ++ body, htext, fun tail' => ?_⟩
  obtain ⟨hopen', hskip'⟩ := hstart tail'
  exact .literal hopen' (hskip' ▸ hread tail')

theorem stays_literalFailed {f : Failure} (hrange : range.Interior 1)
    (hlook : Settles look (.error f)) (hrest : f.rest = look ++ tail)
    (hopen : expect? .opening text = none) (hint : integer range (skipBlanks text) = .error f) :
    Stays range .term text [] (.error f) look tail := by
  obtain ⟨run, hrun, hread⟩ := exists_integer_error_replace hrange (skipBlanks_skipBlanks text)
    hlook.ne_nil hint hrest (hlook.digits f rfl)
  obtain ⟨w, htext, hstart⟩ := exists_start_replace hlook.not_blank hrun hopen
  refine ⟨w ++ run, htext, fun tail' => ?_⟩
  obtain ⟨hopen', hskip'⟩ := hstart tail'
  exact .literalFailed hopen' (hskip' ▸ hread tail')

theorem Stays.opening {rest : List Char} (h : Stays range .expression rest ts r look tail)
    (hopen : expect? .opening text = some rest) :
    ∃ front, text = front ++ (look ++ tail) ∧ ∀ tail', ∃ rest',
      expect? .opening (front ++ (look ++ tail')) = some rest' ∧
        Reads range .expression rest' ts (endAt (look ++ tail') r) := by
  obtain ⟨front, rfl, hexpr⟩ := h
  obtain ⟨v, hv, rfl⟩ := expect?_opening_eq_some_iff.1 hopen
  refine ⟨v ++ '(' :: front, by simp, fun tail' => ⟨_, ?_, hexpr tail'⟩⟩
  exact expect?_opening_eq_some_iff.2 ⟨v, hv, by simp⟩

theorem Stays.operator {op : Operator} (h : Stays range .term rest ts r look tail)
    (hop : operator? text = some (op, rest)) :
    ∃ front, text = front ++ (look ++ tail) ∧ ∀ tail', ∃ rest',
      operator? (front ++ (look ++ tail')) = some (op, rest') ∧
        Reads range .term rest' ts (endAt (look ++ tail') r) := by
  obtain ⟨front, rfl, hterm⟩ := h
  obtain ⟨v, hv, rfl⟩ := operator?_eq_some_iff.1 hop
  refine ⟨v ++ op.char :: front, by simp, fun tail' => ⟨_, ?_, hterm tail'⟩⟩
  exact operator?_eq_some_iff.2 ⟨v, hv, by simp⟩

/-- A reading does not depend on what follows the part that settles it. -/
theorem Reads.stays (hrange : range.Interior 1) (h : Reads range part text ts r)
    (hrest : unread r = look ++ tail) (hlook : Settles look r) :
    Stays range part text ts r look tail := by
  induction h generalizing look tail with
  | expression _ _ iht iho =>
    obtain ⟨front, rfl, hoperators⟩ := iho hrest hlook
    obtain ⟨front', rfl, hterm⟩ :=
      iht (List.append_assoc ..).symm (settles_ok hlook.not_blank front)
    refine ⟨front' ++ front, by simp, fun tail' => ?_⟩
    simpa using Reads.expression (hterm tail') (by simpa using hoperators tail')
  | expressionFailed _ iht =>
    obtain ⟨front, rfl, hterm⟩ := iht hrest hlook
    exact ⟨front, rfl, fun tail' => .expressionFailed (hterm tail')⟩
  | @operatorsEnd text hop =>
    obtain rfl : text = look ++ tail := hrest
    refine ⟨[], rfl, fun tail' => ?_⟩
    exact .operatorsEnd (operator?_eq_none_replace hlook.not_blank hop tail')
  | operator hop _ _ iht iho =>
    obtain ⟨front, rfl, hoperators⟩ := iho hrest hlook
    obtain ⟨front', rfl, hterm⟩ := Stays.operator
      (iht (List.append_assoc ..).symm (settles_ok hlook.not_blank front)) hop
    refine ⟨front' ++ front, by simp, fun tail' => ?_⟩
    obtain ⟨rest', hop', ht⟩ := hterm tail'
    simpa using Reads.operator hop' ht (by simpa using hoperators tail')
  | @operatorFailed _ _ _ _ f hop _ iht =>
    rw [unread, f.rest_afterOperator] at hrest
    have hne : ∀ tail', look ++ tail' ≠ [] := List.append_ne_nil_of_left_ne_nil hlook.ne_nil
    rw [Failure.afterOperator_of_ne_nil (hrest ▸ hne tail)] at hlook ⊢
    obtain ⟨front, rfl, hterm⟩ := Stays.operator (iht hrest hlook) hop
    refine ⟨front, rfl, fun tail' => ?_⟩
    obtain ⟨rest', hop', ht⟩ := hterm tail'
    simpa [Failure.afterOperator_of_ne_nil (f := ⟨f.status, _⟩) (hne tail')] using
      Reads.operatorFailed hop' ht
  | @scope _ _ _ rest'' _ hopen _ hclose ih =>
    obtain rfl : rest'' = look ++ tail := hrest
    obtain ⟨w, hw, rfl⟩ := expect?_closing_eq_some_iff.1 hclose
    have hclosing : ¬IsBlanks (')' :: look) := fun hall => by simpa using hall ')'
    have hsplit : w ++ ')' :: (look ++ tail) = w ++ ')' :: look ++ tail := by simp
    obtain ⟨front, rfl, hexpr⟩ := Stays.opening (ih hsplit (settles_ok hclosing w)) hopen
    refine ⟨front ++ (w ++ [')']), by simp, fun tail' => ?_⟩
    obtain ⟨rest', hopen', he⟩ := hexpr tail'
    have hclose' : expect? .closing (w ++ ')' :: look ++ tail') = some (look ++ tail') :=
      expect?_closing_eq_some_iff.2 ⟨w, hw, by simp⟩
    simpa using Reads.scope hopen' he hclose'
  | @scopeUnclosed _ _ rest' _ hopen _ hclose ih =>
    have hskip : skipBlanks rest' = look ++ tail := hrest
    obtain ⟨w, hw, hsplit⟩ := exists_eq_append_skipBlanks rest'
    rw [hskip, ← List.append_assoc] at hsplit
    subst hsplit
    obtain ⟨front, rfl, hexpr⟩ := Stays.opening (ih rfl (settles_ok hlook.not_blank w)) hopen
    refine ⟨front ++ w, by simp, fun tail' => ?_⟩
    obtain ⟨rest', hopen', he⟩ := hexpr tail'
    have hnone := expect?_eq_none_replace (not_isBlanks_append hlook.not_blank w) hclose tail'
    have hself : skipBlanks (w ++ look ++ tail') = look ++ tail' := by
      rw [List.append_assoc, skipBlanks_append hw] at hskip ⊢
      exact skipBlanks_eq_self_replace hlook.not_blank hskip
    have hunclosed := Reads.scopeUnclosed hopen' he hnone
    rw [hself] at hunclosed
    simpa using hunclosed
  | scopeFailed hopen _ ih =>
    obtain ⟨front, rfl, hexpr⟩ := Stays.opening (ih hrest hlook) hopen
    refine ⟨front, rfl, fun tail' => ?_⟩
    obtain ⟨rest', hopen', he⟩ := hexpr tail'
    exact .scopeFailed hopen' he
  | @literal _ rest _ hopen hint =>
    obtain rfl : rest = look ++ tail := hrest
    exact stays_literal hlook.not_blank hopen hint
  | literalFailed hopen hint => exact stays_literalFailed hrange hlook hrest hopen hint

end IntCalc.Parse
