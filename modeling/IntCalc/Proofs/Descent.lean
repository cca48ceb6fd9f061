import IntCalc.Parse.Machine
import IntCalc.Proofs.Reading
import Mathlib.Data.List.DropRight

/-!
# The machine reads as the recursive descent does

The machine keeps the open expressions in a list, and a failure passes through them
one by one. `Reads.runs` says that it follows the rules of reading all the same: a
part is read with any expressions open around it and any tokens read before, and when
it has been read the machine goes on in them as the recursion would return to its
callers.

The machine and the recursive descent thus have one result for each text, which is
read off its reading (`parseChars_of_reads`, `descend_of_reads`), and they are equal
(`parse_eq_descend`).
-/

namespace IntCalc.Parse

variable {range : Range} {part : Part} {text rest : List Char} {ts tokens : List Token}
  {r : Except Failure (List Char)} {level : Bool} {outer : List Bool}

/-! ## Failures -/

/-- A number fails because it is ill formed or out of range. -/
theorem status_of_natural_error {negative : Bool} {f : Failure}
    (h : natural range negative text = .error f) :
    f.status = .illFormedInteger ∨ f.status = .integerOutOfRange := by
  unfold natural at h
  split at h
  · cases h
    exact Or.inl rfl
  · split at h
    · dsimp only at h
      split at h
      · simp at h
      · simp only [Except.error.injEq] at h
        exact Or.inr (by simp [← h])
    · cases h
      exact Or.inl rfl

/-- So does a literal. -/
theorem status_of_integer_error {f : Failure} (h : integer range text = .error f) :
    f.status = .illFormedInteger ∨ f.status = .integerOutOfRange := by
  unfold integer at h
  split at h
  · simp at h
  · exact status_of_natural_error h

/-- A reading fails at a literal, at a missing bracket or at the end of the text. -/
theorem Reads.failure_cases {f : Failure} (h : Reads range part text ts (.error f)) :
    (∃ text', integer range (skipBlanks text') = .error f) ∨
      (∃ rest', f = ⟨.missingClosing, skipBlanks rest'⟩) ∨ f = ⟨.missingTerm, []⟩ := by
  generalize hr : Except.error f = r at h
  induction h generalizing f with
  | expression _ _ _ iho => exact iho hr
  | operator _ _ _ _ iho => exact iho hr
  | expressionFailed _ ih => exact ih hr
  | scopeFailed _ _ ih => exact ih hr
  | operatorFailed _ _ ih =>
    cases hr
    unfold Failure.afterOperator
    split
    · exact Or.inr (Or.inr rfl)
    · exact ih rfl
  | @scopeUnclosed _ _ rest' =>
    cases hr
    exact Or.inr (Or.inl ⟨rest', rfl⟩)
  | @literalFailed text _ _ hint =>
    cases hr
    exact Or.inl ⟨text, hint⟩
  | operatorsEnd | scope | literal => cases hr

/-- A failure is never `ok`. -/
theorem Reads.status_ne_ok {f : Failure} (h : Reads range part text ts (.error f)) :
    f.status ≠ .ok := by
  rcases h.failure_cases with ⟨text', hint⟩ | ⟨rest', rfl⟩ | rfl
  · rcases status_of_integer_error hint with h | h <;> simp [h]
  · simp
  · simp

/-! ## The machine follows the rules -/

/-- The end of all moves that follow a move. -/
def Move.result (range : Range) : Move → Finish
  | .next s => run range s
  | .finish f => f

theorem run_eq_step (range : Range) (s : State) : run range s = (step range s).result range := by
  rw [run]
  cases step range s <;> rfl

/-- The state in which a term has ended with `r`. -/
def State.ended (level : Bool) (outer : List Bool) (tokens : List Token) :
    Except Failure (List Char) → State
  | .ok rest => ⟨.afterTerm, rest, level, outer, tokens⟩
  | .error f => ⟨.failed f.status, f.rest, level, outer, tokens⟩

/-- The move in which an expression ends with `r`. If another one is open around it,
the term in brackets ends too. -/
def leave : List Bool → List Token → Except Failure (List Char) → Move
  | [], tokens, .ok rest => .finish ⟨.ok, skipBlanks rest, tokens⟩
  | [], tokens, .error f => .finish ⟨f.status, f.rest, tokens⟩
  | level :: outer, tokens, .error f => .next (.ended level outer tokens (.error f))
  | level :: outer, tokens, .ok rest =>
    match expect? .closing rest with
    | some rest' => .next (.ended level outer (.closing :: tokens) (.ok rest'))
    | none => .next (.ended level outer tokens (.error ⟨.missingClosing, skipBlanks rest⟩))

/-- An operator goes on with the expression. -/
theorem run_operator {op : Operator} (h : operator? text = some (op, rest)) :
    run range ⟨.afterTerm, text, level, outer, tokens⟩ =
      run range ⟨.term, rest, true, outer, .ofOperator op :: tokens⟩ := by
  rw [run_eq_step]
  simp [step, endTerm, h, Move.result]

/-- An opening bracket opens an expression. -/
theorem run_opening (h : expect? .opening text = some rest) :
    run range ⟨.term, text, level, outer, tokens⟩ =
      run range ⟨.term, rest, false, level :: outer, .opening :: tokens⟩ := by
  rw [run_eq_step]
  simp [step, startTerm, h, Move.result]

/-- Without another operator the expression ends. -/
theorem run_ended_ok (h : operator? rest = none) :
    run range (.ended level outer tokens (.ok rest)) =
      (leave outer tokens (.ok rest)).result range := by
  rw [run_eq_step]
  congr 1
  cases outer with
  | nil => simp [State.ended, step, endTerm, leave, h]
  | cons level' outer =>
    cases hclosing : expect? .closing rest <;> simp [State.ended, step, endTerm, leave, h, hclosing]

/-- A failure in an expression without operators leaves it as it is. -/
theorem run_ended_error_false (f : Failure) :
    run range (.ended false outer tokens (.error f)) =
      (leave outer tokens (.error f)).result range := by
  rw [run_eq_step]
  cases outer <;> simp [State.ended, step, leaveLevel, passLevel, leave]

/-- A failure behind an operator leaves the expression as a missing term, if it must. -/
theorem run_ended_error_true (f : Failure) :
    run range (.ended true outer tokens (.error f)) =
      (leave outer tokens (.error f.afterOperator)).result range := by
  have hstatus : passLevel true f.rest.isEmpty f.status = f.afterOperator.status := by
    by_cases h : f.rest = [] ∧ f.status ≠ .integerOutOfRange
    · simp [passLevel, Failure.afterOperator, h]
    · rw [Failure.afterOperator, if_neg h, passLevel, if_neg (by simpa using h)]
  have hrest : f.rest = f.afterOperator.rest := by
    by_cases h : f.rest = [] ∧ f.status ≠ .integerOutOfRange
    · simp [Failure.afterOperator, h]
    · rw [Failure.afterOperator, if_neg h]
  rw [run_eq_step]
  cases outer with
  | nil => simp [State.ended, step, leaveLevel, leave, hstatus, ← hrest]
  | cons level outer => simp [State.ended, step, leaveLevel, leave, hstatus, ← hrest]

/-- What the machine does with a part that has the reading `ts`, `r`. -/
def Part.Runs (range : Range) (text : List Char) (ts : List Token)
    (r : Except Failure (List Char)) : Part → Prop
  | .term => ∀ level outer tokens,
      run range ⟨.term, text, level, outer, tokens⟩ =
        run range (.ended level outer (ts.reverse ++ tokens) r)
  | .operators => ∀ level outer tokens,
      run range ⟨.afterTerm, text, level, outer, tokens⟩ =
        (leave outer (ts.reverse ++ tokens) r).result range
  | .expression => ∀ outer tokens,
      run range ⟨.term, text, false, outer, tokens⟩ =
        (leave outer (ts.reverse ++ tokens) r).result range

/-- The machine follows the rules of reading. -/
theorem Reads.runs (h : Reads range part text ts r) : part.Runs range text ts r := by
  induction h with
  | expression _ _ iht iho =>
    intro outer tokens
    refine (iht false outer tokens).trans ((iho false outer _).trans ?_)
    simp
  | expressionFailed _ iht =>
    intro outer tokens
    exact (iht false outer tokens).trans (run_ended_error_false _)
  | operatorsEnd hop =>
    intro level outer tokens
    exact run_ended_ok hop
  | operator hop _ _ iht iho =>
    intro level outer tokens
    -- From here on the machine knows that an operator stands in front.
    rw [run_operator hop]
    refine (iht true outer _).trans ((iho true outer _).trans ?_)
    simp
  | operatorFailed hop _ iht =>
    intro level outer tokens
    rw [run_operator hop, iht true outer, run_ended_error_true]
    simp
  | scope hopen _ hclose ih =>
    intro level outer tokens
    rw [run_opening hopen, ih (level :: outer)]
    simp [leave, hclose, Move.result]
  | scopeUnclosed hopen _ hclose ih =>
    intro level outer tokens
    rw [run_opening hopen, ih (level :: outer)]
    simp [leave, hclose, Move.result]
  | scopeFailed hopen _ ih =>
    intro level outer tokens
    rw [run_opening hopen, ih (level :: outer)]
    simp [leave, Move.result]
  | literal hopen hint =>
    intro level outer tokens
    rw [run_eq_step]
    simp [step, startTerm, hopen, hint, Move.result, State.ended]
  | literalFailed hopen hint =>
    intro level outer tokens
    rw [run_eq_step]
    simp [step, startTerm, hopen, hint, Move.result, State.ended]

/-! ## One result for each text -/

/-- The result of a text whose expression has been read. Only blanks may follow it. -/
def conclude (text : List Char) (ts : List Token) : Except Failure (List Char) → ParseResult
  | .error f => ⟨f.status, columnOf text f.rest, ts⟩
  | .ok rest =>
    match skipBlanks rest with
    | [] => ⟨.ok, 0, ts⟩
    | c :: cs => ⟨.extraneousSymbol, columnOf text (c :: cs), ts⟩

theorem skipBlanks_skipBlanks (text : List Char) :
    skipBlanks (skipBlanks text) = skipBlanks text :=
  List.dropWhile_idempotent _ _

/-- The result of the machine is read off the reading of the text. -/
theorem parseChars_of_reads (hne : skipBlanks text ≠ [])
    (h : Reads range .expression (skipBlanks text) ts r) :
    parseChars range text = conclude text ts r := by
  have hrun : run range (.start (skipBlanks text)) = (leave [] ts.reverse r).result range := by
    simpa [State.start] using h.runs [] []
  obtain ⟨c, cs, hskip⟩ := List.exists_cons_of_ne_nil hne
  rw [hskip] at hrun h
  cases r with
  | error f => simp [parseChars, hskip, hrun, leave, Move.result, h.status_ne_ok, conclude]
  | ok rest =>
    have hagain := skipBlanks_skipBlanks rest
    cases hrest : skipBlanks rest <;>
      simp [parseChars, hskip, hrun, leave, Move.result, conclude, hrest, hrest ▸ hagain]

/-- So is the result of the recursive descent. -/
theorem descend_of_reads (hne : skipBlanks text ≠ [])
    (h : Reads range .expression (skipBlanks text) ts r) :
    descend range text = conclude text ts r := by
  have hread : (expression range (skipBlanks text) []).forget = (r, ts.reverse) := by
    simpa [Part.read] using h.read_eq []
  obtain ⟨c, cs, hskip⟩ := List.exists_cons_of_ne_nil hne
  rw [hskip] at hread
  cases hexpr : expression range (c :: cs) [] with
  | failed f tokens =>
    rw [hexpr] at hread
    cases hread
    simp [descend, hskip, hexpr, conclude]
  | ok rest tokens shorter =>
    rw [hexpr] at hread
    cases hread
    cases hrest : skipBlanks rest <;> simp [descend, hskip, hexpr, conclude, hrest]

/-- The machine and the recursive descent have the same status, column and tokens for
every text. -/
theorem parse_eq_descend (range : Range) (text : String) :
    parse range text = descend range text.toList := by
  by_cases hne : skipBlanks text.toList = []
  · simp [parse, parseChars, descend, hne]
  · obtain ⟨ts, r, h⟩ := exists_reads range .expression (skipBlanks text.toList)
    rw [parse, parseChars_of_reads hne h, descend_of_reads hne h]

end IntCalc.Parse
