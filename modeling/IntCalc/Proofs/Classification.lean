import IntCalc.Proofs.Acceptance
import IntCalc.Proofs.Levels

/-!
# Which error a text has

While a text is read, the flags of the machine are the marks of the open levels of the
tokens (`State.Tracks`). A failure leaves these levels one by one, and its status is
always the one that belongs to the levels it has left (`verdict`). When it has left all
of them, the status is that of the whole text, which depends only on the tokens and on
whether the failure is at the end (`status_of_error`).
-/

namespace IntCalc.Parse

open Grammar Tokens

variable {range : Range} {s t : State} {level atEnd : Bool} {left : List Bool}

/-! ## The status of a failure -/

/-- The status of a failure that has left the levels `left`, the innermost first. If the
tokens end in a term, what is missing is not a term of the innermost of them. -/
def verdict (ended atEnd : Bool) (left : List Bool) : ParseStatus :=
  if atEnd ∧ true ∈ (if ended then left.tail else left) then .missingTerm
  else if ended then .missingClosing
  else .illFormedInteger

/-- A failure that leaves another level has the status for all of them. -/
theorem passLevel_verdict {ended : Bool} (h : ended → left ≠ []) (level atEnd : Bool) :
    passLevel level atEnd (verdict ended atEnd left) = verdict ended atEnd (left ++ [level]) := by
  cases ended with
  | false =>
    by_cases hmark : true ∈ left <;> cases level <;> cases atEnd <;>
      simp [passLevel, verdict, hmark]
  | true =>
    obtain ⟨b, levels, rfl⟩ := List.exists_cons_of_ne_nil (h rfl)
    by_cases hmark : true ∈ levels <;> cases level <;> cases atEnd <;>
      simp [passLevel, verdict, hmark]

/-! ## The invariant -/

/-- The flags of the open expressions are the marks of the open levels. A failure has left
some of them and has their status. -/
def State.Tracks (s : State) : Prop :=
  Nested s.tokens.reverse ∧
    match s.phase with
    | .term => openLevels s.tokens.reverse = s.level :: s.outer ∧ ¬endsTerm s.tokens.reverse
    | .afterTerm => openLevels s.tokens.reverse = s.level :: s.outer ∧ endsTerm s.tokens.reverse
    | .failed status => ∃ left, openLevels s.tokens.reverse = left ++ s.level :: s.outer ∧
        (endsTerm s.tokens.reverse → left ≠ []) ∧
        (status = .integerOutOfRange ∨
          status = verdict (endsTerm s.tokens.reverse) s.rest.isEmpty left)

/-- The outermost expression has ended with no other one open, or it has failed with the
status for all open levels. -/
def Finish.Tracks (f : Finish) : Prop :=
  Nested f.tokens.reverse ∧
    (f.status = .ok ∧ endsTerm f.tokens.reverse ∧ (openLevels f.tokens.reverse).length = 1 ∨
      f.status = .integerOutOfRange ∨
      f.status = verdict (endsTerm f.tokens.reverse) f.rest.isEmpty
          (openLevels f.tokens.reverse) ∧
        (endsTerm f.tokens.reverse → 1 < (openLevels f.tokens.reverse).length))

/-- What a move leads to keeps track of the levels. -/
def Move.Tracks : Move → Prop
  | .next s => s.Tracks
  | .finish f => f.Tracks

theorem tracks_start (text : List Char) : (State.start text).Tracks :=
  ⟨nested_nil, rfl, by simp [State.start, endsTerm]⟩

/-- A token that keeps a level open keeps the brackets nested. -/
theorem nested_reverse_cons {tokens : List Token} {token : Token} {levels : List Bool}
    (h : Nested tokens.reverse) (hlevels : openLevels (token :: tokens).reverse = level :: levels) :
    Nested (token :: tokens).reverse := by
  rw [List.reverse_cons] at hlevels ⊢
  exact nested_concat_iff.2 ⟨h, by simp [hlevels]⟩

theorem tracks_startTerm (h : s.Tracks) (hs : s.phase = .term) : (startTerm range s).Tracks := by
  obtain ⟨hnested, hphase⟩ := h
  rw [hs] at hphase
  obtain ⟨hlevels, hends⟩ := hphase
  unfold startTerm
  split
  · have hopened : openLevels (Token.opening :: s.tokens).reverse = false :: s.level :: s.outer := by
      simp [openLevels_concat, hlevels, levelStep, Token.opening]
    refine ⟨nested_reverse_cons hnested hopened, ?_⟩
    simp only [hs]
    exact ⟨hopened, by simp [endsTerm_concat, Token.isOperand, Token.isClosing, Token.opening]⟩
  · split
    · next numeral rest hint =>
      have hread : openLevels (Token.operand numeral :: s.tokens).reverse = s.level :: s.outer := by
        simp [openLevels_concat, hlevels, levelStep, Token.operand]
      refine ⟨nested_reverse_cons hnested hread, hread, ?_⟩
      simp [endsTerm_concat, Token.isOperand, Token.operand]
    · next f hint =>
      refine ⟨hnested, [], hlevels, fun he => absurd he hends, ?_⟩
      rcases status_of_integer_error hint with hf | hf
      · exact Or.inr (by simp [hf, verdict, hends])
      · exact Or.inl hf

theorem tracks_endTerm (h : s.Tracks) (hs : s.phase = .afterTerm) : (endTerm s).Tracks := by
  obtain ⟨hnested, hphase⟩ := h
  rw [hs] at hphase
  obtain ⟨hlevels, hends⟩ := hphase
  unfold endTerm
  split
  · next op rest hop =>
    have hmarked : openLevels (Token.ofOperator op :: s.tokens).reverse = true :: s.outer := by
      simp [openLevels_concat, hlevels, levelStep, Token.ofOperator]
    refine ⟨nested_reverse_cons hnested hmarked, hmarked, ?_⟩
    simp [endsTerm_concat, Token.isOperand, Token.isClosing, Token.ofOperator]
  · split
    · next houter => exact ⟨hnested, Or.inl ⟨rfl, hends, by simp [hlevels, houter]⟩⟩
    · next level outer houter =>
      split
      · next rest hclose =>
        have hclosed : openLevels (Token.closing :: s.tokens).reverse = level :: outer := by
          simp [openLevels_concat, hlevels, levelStep, Token.closing, houter]
        refine ⟨nested_reverse_cons hnested hclosed, ?_⟩
        simp only [hs]
        exact ⟨hclosed, by simp [endsTerm_concat, Token.isClosing, Token.closing]⟩
      · refine ⟨hnested, [s.level], by simp [hlevels, houter], by simp, Or.inr ?_⟩
        simp [verdict, hends]

theorem tracks_leaveLevel {status : ParseStatus} (h : s.Tracks) (hs : s.phase = .failed status) :
    (leaveLevel status s).Tracks := by
  obtain ⟨hnested, hphase⟩ := h
  rw [hs] at hphase
  obtain ⟨left, hlevels, hleft, hstatus⟩ := hphase
  have hpassed : passLevel s.level s.rest.isEmpty status = .integerOutOfRange ∨
      passLevel s.level s.rest.isEmpty status =
        verdict (endsTerm s.tokens.reverse) s.rest.isEmpty (left ++ [s.level]) := by
    rcases hstatus with rfl | rfl
    · exact Or.inl (by simp [passLevel])
    · exact Or.inr (passLevel_verdict hleft _ _)
  unfold leaveLevel
  dsimp only
  split
  · next houter =>
    rw [houter] at hlevels
    refine ⟨hnested, Or.inr (hpassed.imp_right fun hverdict => ⟨?_, fun he => ?_⟩)⟩
    · rw [hlevels]
      exact hverdict
    · have := List.length_pos_iff.2 (hleft he)
      simp only [hlevels, List.length_append, List.length_singleton]
      omega
  · next level outer houter =>
    exact ⟨hnested, left ++ [s.level], by simp [hlevels, houter], by simp, hpassed⟩

/-- One move keeps track of the levels. -/
theorem State.Tracks.step (h : s.Tracks) : (step range s).Tracks := by
  unfold Parse.step
  split
  · next hs => exact tracks_startTerm h hs
  · next hs => exact tracks_endTerm h hs
  · next hs => exact tracks_leaveLevel h hs

/-- So do all moves. -/
theorem State.Tracks.run (h : s.Tracks) : (run range s).Tracks := by
  fun_induction Parse.run range s with
  | case1 s t hstep ih =>
    have hmove : (Parse.step range s).Tracks := h.step
    rw [hstep] at hmove
    exact ih hmove
  | case2 s f hstep =>
    have hmove : (Parse.step range s).Tracks := h.step
    rw [hstep] at hmove
    exact hmove

/-! ## The status of a text -/

open Classical in
/-- Once all levels have been left, the status depends on which of them are marked. -/
theorem verdict_openLevels {ts : List Token} (h : Nested ts) (atEnd : Bool) :
    verdict (endsTerm ts) atEnd (openLevels ts) =
      if endsTerm ts then
        if atEnd ∧ ∃ i < (unclosed ts).length, Marked ts i then .missingTerm else .missingClosing
      else if atEnd ∧ ∃ i ≤ (unclosed ts).length, Marked ts i then .missingTerm
      else .illFormedInteger := by
  simp only [h.exists_marked_le_iff, h.exists_marked_lt_iff, verdict]
  cases endsTerm ts <;> simp

/-- A failure is at the end exactly if its column is the length of the text. -/
theorem columnOf_eq_length_iff {text rest : List Char} (hne : text ≠ []) :
    columnOf text rest = text.length ↔ rest.isEmpty := by
  have hpos := List.length_pos_iff.2 hne
  rw [columnOf, List.isEmpty_iff, ← List.length_eq_zero_iff]
  omega

/-- A text with more than blanks fails as the machine does, or behind the expression. -/
theorem parseChars_of_not_isBlanks {text : List Char} (h : ¬IsBlanks text)
    (hok : (parseChars range text).status ≠ .ok) :
    let f := Parse.run range (.start (skipBlanks text))
    (parseChars range text).tokens = f.tokens.reverse ∧
      if f.status = .ok then (parseChars range text).status = .extraneousSymbol
      else (parseChars range text).status = f.status ∧
        (parseChars range text).column = columnOf text f.rest := by
  intro f
  obtain ⟨c, cs, hskip⟩ := List.exists_cons_of_ne_nil (mt skipBlanks_eq_nil_iff.1 h)
  have hf : f = Parse.run range (.start (c :: cs)) := congrArg (Parse.run range ∘ .start) hskip
  simp only [parseChars, hskip, ← hf] at hok ⊢
  by_cases hstatus : f.status = .ok
  · cases hrest : skipBlanks f.rest with
    | nil => simp [hstatus, hrest] at hok
    | cons d ds => simp [hstatus]
  · simp [hstatus]

open Classical in
/-- The status of a text that has a syntax error. With nothing but blanks the end was
not expected. Behind a term there is a symbol too many, or a closing bracket is missing,
and elsewhere an integer is ill formed ; but at the end of the text it is a term that is
missing, if some level around has an operator of its own. -/
theorem status_of_error (range : Range) (text : String)
    (hok : (parse range text).status ≠ .ok)
    (hinside : (parse range text).status ≠ .integerOutOfRange) :
    let r := parse range text
    let k := (unclosed r.tokens).length
    r.status =
      if IsBlanks text.toList then .unexpectedEnd
      else if endsTerm r.tokens then
        if k = 0 then .extraneousSymbol
        else if r.column = text.length ∧ ∃ i < k, Marked r.tokens i then .missingTerm
        else .missingClosing
      else if r.column = text.length ∧ ∃ i ≤ k, Marked r.tokens i then .missingTerm
      else .illFormedInteger := by
  intro r k
  by_cases hblank : IsBlanks text.toList
  · rw [if_pos hblank, show r = _ from parseChars_of_isBlanks hblank]
  rw [if_neg hblank]
  have hne : text.toList ≠ [] := fun hnil => hblank (by simp [hnil, IsBlanks])
  have htracks : (Parse.run range (.start (skipBlanks text.toList))).Tracks :=
    (tracks_start (skipBlanks text.toList)).run
  obtain ⟨htokens, hstatus⟩ := parseChars_of_not_isBlanks hblank hok
  generalize Parse.run range (.start (skipBlanks text.toList)) = f at htracks htokens hstatus
  replace htokens : r.tokens = f.tokens.reverse := htokens
  replace hstatus : if f.status = .ok then r.status = .extraneousSymbol
    else r.status = f.status ∧ r.column = columnOf text.toList f.rest := hstatus
  obtain ⟨hnested, hfinish⟩ := htracks
  rw [← htokens] at hnested hfinish
  have hlength := hnested.length_openLevels
  rcases hfinish with ⟨hfok, hends, hone⟩ | hfout | ⟨hverdict, hopen⟩
  · rw [if_pos hfok] at hstatus
    rw [if_pos hends, if_pos (show k = 0 by omega), hstatus]
  · rw [if_neg (by simp [hfout])] at hstatus
    exact absurd (hstatus.1.trans hfout) hinside
  · have hfok : f.status ≠ .ok := by
      rw [hverdict, verdict_openLevels hnested]
      repeat' split
      all_goals simp
    rw [if_neg hfok] at hstatus
    have hcolumn : r.column = text.length ↔ f.rest.isEmpty := by
      rw [hstatus.2, ← String.length_toList, ← columnOf_eq_length_iff hne]
      exact Int.natCast_inj
    rw [hstatus.1, hverdict, verdict_openLevels hnested]
    simp only [hcolumn]
    by_cases hends : endsTerm r.tokens
    · have hlt := hopen hends
      rw [if_pos hends, if_pos hends, if_neg (show ¬k = 0 by omega)]
    · rw [if_neg hends, if_neg hends]

/-- The operator in the innermost of two open scopes marks neither level around it, so
the closing bracket is missing. -/
theorem status_of_error_scopes :
    let r := parse IntType.int16.range "((2*3"
    r.status ≠ .ok ∧ r.status ≠ .integerOutOfRange ∧ r.status = .missingClosing ∧
      ¬∃ i < 2, Marked r.tokens i := by
  intro r
  have hfailed : r = ⟨.missingClosing, 5,
      [.opening, .opening, .operand "2", .ofOperator .mul, .operand "3"]⟩ := by
    decide +kernel
  have hok : r.status ≠ .ok := by simp [hfailed]
  have hinside : r.status ≠ .integerOutOfRange := by simp [hfailed]
  have hstatus : r.status = _ := status_of_error IntType.int16.range "((2*3" hok hinside
  have hblank : ¬IsBlanks "((2*3".toList := fun hall => by simpa using hall '(' (by decide)
  have hends : endsTerm r.tokens = true := by rw [hfailed]; decide
  have hk : (unclosed r.tokens).length = 2 := by rw [hfailed]; decide
  have hcolumn : r.column = "((2*3".length := by rw [hfailed]; decide
  refine ⟨hok, hinside, by rw [hfailed], fun hmarked => ?_⟩
  rw [if_neg hblank, if_pos hends, hk, if_neg (by decide), if_pos ⟨hcolumn, hmarked⟩] at hstatus
  simp [hfailed] at hstatus

end IntCalc.Parse
