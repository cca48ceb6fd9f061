import IntCalc.Parse.Trace
import IntCalc.Proofs.Acceptance

/-!
# How many moves the parser makes

What one move does to the tokens, the unread text and the open expressions is collected
in `State.Moves`, and what the last move does in `State.Ends`. Each token emitted costs a
character that is no blank, a term is started for each `(` and each operator emitted, and
an expression is left for each `(`.

Over a whole text this gives one term more than there are such tokens
(`termsStarted_eq`), one expression more than there are opening brackets (`levelsLeft_eq`)
and no more tokens than characters that are not blank (`length_tokens_le`). The number of
moves is bounded by the measure that every move lowers (`length_trace_le`).
-/

namespace IntCalc

/-- Whether a term must follow. -/
def Token.awaitsTerm (t : Token) : Bool :=
  t.isOpening || t.isOperator

namespace Parse

variable {range : Range} {text rest : List Char} {s t : State} {f : Finish}

/-! ## Characters that are read -/

/-- The number of characters that are not blank. -/
def visible (text : List Char) : Nat :=
  text.countP fun c => !(Symbol.ofChar c).isBlank

theorem visible_le_length (text : List Char) : visible text ≤ text.length :=
  List.countP_le_length

theorem visible_le_of_suffix (h : rest <:+ text) : visible rest ≤ visible text :=
  h.sublist.countP_le

/-- More than blanks has been read, and `rest` is left. -/
def Consumed (text rest : List Char) : Prop :=
  ∃ front c, text = front ++ rest ∧ c ∈ front ∧ ¬IsBlank c

theorem Consumed.suffix (h : Consumed text rest) : rest <:+ text := by
  obtain ⟨front, c, rfl, -⟩ := h
  exact List.suffix_append _ _

theorem Consumed.visible_lt (h : Consumed text rest) : visible rest < visible text := by
  obtain ⟨front, c, rfl, hmem, hc⟩ := h
  have hpos : 0 < visible front :=
    List.countP_pos_iff.2 ⟨c, hmem, by simpa using mt Symbol.isBlank_ofChar_iff.1 hc⟩
  simp only [visible, List.countP_append] at hpos ⊢
  omega

theorem consumed_expect? {symbol : Symbol} (hsymbol : symbol.isBlank = false)
    (h : expect? symbol text = some rest) : Consumed text rest := by
  obtain ⟨w, c, -, rfl, hc⟩ := exists_of_expect? h
  refine ⟨w ++ [c], c, by simp, by simp, fun hblank => ?_⟩
  have hclass := Symbol.isBlank_ofChar_iff.2 hblank
  simp [hc, hsymbol] at hclass

theorem consumed_operator? {op : Operator} (h : operator? text = some (op, rest)) :
    Consumed text rest := by
  obtain ⟨w, -, rfl⟩ := operator?_eq_some_iff.1 h
  exact ⟨w ++ [op.char], op.char, by simp, by simp, not_isBlank_operator op⟩

theorem consumed_integer {numeral : String}
    (h : integer range (skipBlanks text) = .ok (numeral, rest)) : Consumed text rest := by
  obtain ⟨w, -, htext⟩ := exists_eq_append_skipBlanks text
  obtain ⟨body, hbody, hliteral⟩ := literal_of_integer_ok (skipBlanks_skipBlanks text) h
  obtain ⟨c, cs, rfl, hc, -⟩ := head_of_literal hliteral
  exact ⟨w ++ c :: cs, c, by simpa [hbody] using htext, by simp, hc⟩

theorem suffix_integer_error {failure : Failure} (h : integer range text = .error failure) :
    failure.rest <:+ text := by
  unfold integer at h
  split at h
  · cases h
  · rw [length_natural_error h]
    exact suffix_signs false text

/-! ## One move -/

/-- What a move from `s` to `t` does. Nothing is read twice, and each token costs a
character that is no blank. A term is started next exactly if the token emitted awaits
one, and an expression is opened by `(` alone. -/
structure State.Moves (s t : State) : Prop where
  suffix : t.rest <:+ s.rest
  visible : t.tokens.length + visible t.rest ≤ s.tokens.length + visible s.rest
  started : t.tokens.countP Token.awaitsTerm =
    s.tokens.countP Token.awaitsTerm + t.phase.weight
  left : t.tokens.countP Token.isOpening + s.outer.length =
    s.tokens.countP Token.isOpening + t.outer.length + s.leaves.toNat

/-- What the last move does, from `s` : it leaves the outermost expression. -/
structure State.Ends (s : State) (f : Finish) : Prop where
  suffix : f.rest <:+ s.rest
  tokens : f.tokens = s.tokens
  leaves : s.leaves = true
  outer : s.outer = []

theorem countP_cons_toNat {α : Type} (p : α → Bool) (a : α) (l : List α) :
    (a :: l).countP p = l.countP p + (p a).toNat := by
  cases h : p a <;> simp [h]

/-- A move that emits a token. -/
theorem moves_of_token {u : Token} (htokens : t.tokens = u :: s.tokens)
    (hread : Consumed s.rest t.rest) (hstarted : t.phase.weight = u.awaitsTerm.toNat)
    (hleft : u.isOpening.toNat + s.outer.length = t.outer.length + s.leaves.toNat) :
    s.Moves t := by
  have hvisible := hread.visible_lt
  refine ⟨hread.suffix, ?_, ?_, ?_⟩
  · rw [htokens, List.length_cons]
    omega
  · rw [htokens, countP_cons_toNat, hstarted]
  · rw [htokens, countP_cons_toNat]
    omega

/-- A move that emits no token, and behind which no term is started. -/
theorem moves_of_no_token (htokens : t.tokens = s.tokens) (hsuffix : t.rest <:+ s.rest)
    (hstarted : t.phase.weight = 0) (hleft : s.outer.length = t.outer.length + s.leaves.toNat) :
    s.Moves t := by
  have hvisible := visible_le_of_suffix hsuffix
  refine ⟨hsuffix, ?_, ?_, ?_⟩
  · rw [htokens]
    omega
  · rw [htokens, hstarted, Nat.add_zero]
  · rw [htokens]
    omega

theorem moves_startTerm (hs : s.phase = .term) : s.Moves (startTerm range s) := by
  have hleaves : s.leaves = false := by simp [State.leaves, hs]
  unfold startTerm
  split
  · next rest hopen =>
    refine moves_of_token rfl (consumed_expect? rfl hopen) (by rw [hs]; rfl) ?_
    simp [hleaves, Token.isOpening, Token.opening, Nat.add_comm]
  · split
    · next numeral rest hint =>
      refine moves_of_token rfl (consumed_integer hint) rfl ?_
      simp [hleaves, Token.isOpening, Token.operand]
    · next failure hint =>
      have hsuffix := (suffix_integer_error hint).trans (suffix_skipBlanks s.rest)
      exact moves_of_no_token rfl hsuffix rfl (by simp [hleaves])

theorem moves_endTerm (hs : s.phase = .afterTerm) (h : endTerm s = .next t) : s.Moves t := by
  unfold endTerm at h
  split at h
  · next op rest hop =>
    cases h
    refine moves_of_token rfl (consumed_operator? hop) rfl ?_
    simp [State.leaves, hs, hop, Token.isOpening, Token.ofOperator]
  · next hop =>
    have hleaves : s.leaves = true := by simp [State.leaves, hs, hop]
    split at h
    · cases h
    · next level outer houter =>
      split at h
      · next rest hclose =>
        cases h
        refine moves_of_token rfl (consumed_expect? rfl hclose) (by rw [hs]; rfl) ?_
        simp [hleaves, houter, Token.isOpening, Token.closing]
      · cases h
        exact moves_of_no_token rfl (suffix_skipBlanks s.rest) rfl (by simp [hleaves, houter])

theorem moves_leaveLevel {status : ParseStatus} (hs : s.phase = .failed status)
    (h : leaveLevel status s = .next t) : s.Moves t := by
  unfold leaveLevel at h
  dsimp only at h
  split at h
  · cases h
  · next level outer houter =>
    cases h
    exact moves_of_no_token rfl List.suffix_rfl rfl (by simp [State.leaves, hs, houter])

theorem moves_of_step (h : step range s = .next t) : s.Moves t := by
  unfold step at h
  split at h
  · next hs =>
    cases h
    exact moves_startTerm hs
  · next hs => exact moves_endTerm hs h
  · next status hs => exact moves_leaveLevel hs h

theorem ends_of_step (h : step range s = .finish f) : s.Ends f := by
  unfold step at h
  split at h
  · cases h
  · next hs =>
    unfold endTerm at h
    split at h
    · cases h
    · next hop =>
      split at h
      · next houter =>
        cases h
        exact ⟨suffix_skipBlanks s.rest, rfl, by simp [State.leaves, hs, hop], houter⟩
      · split at h <;> cases h
  · next status hs =>
    unfold leaveLevel at h
    dsimp only at h
    split at h
    · next houter =>
      cases h
      exact ⟨List.suffix_rfl, rfl, by simp [State.leaves, hs], houter⟩
    · cases h

/-! ## All moves -/

theorem trace_of_next (h : step range s = .next t) : trace range s = s :: trace range t := by
  rw [trace]
  split <;> simp_all

theorem trace_of_finish (h : step range s = .finish f) : trace range s = [s] := by
  rw [trace]
  split <;> simp_all

theorem run_of_next (h : step range s = .next t) : run range s = run range t := by
  rw [run_eq_step, h, Move.result]

theorem run_of_finish (h : step range s = .finish f) : run range s = f := by
  rw [run_eq_step, h, Move.result]

/-- Every move lowers the measure, so their number is bounded by it. -/
theorem length_trace_le (range : Range) (s : State) :
    (trace range s).length ≤ s.measure + 1 := by
  fun_induction trace range s with
  | case1 s t hstep ih =>
    have hlt := measure_step_lt hstep
    simp only [List.length_cons]
    omega
  | case2 => simp

/-- What is counted along the moves. Each move from `s` that is counted adds to what its
tokens count for, up to a difference that is carried on. -/
theorem countP_trace {p : State → Bool} {tally : List Token → Nat} (carry : State → Nat)
    (hnext : ∀ s t, step range s = .next t →
      tally t.tokens + carry s = tally s.tokens + carry t + (p s).toNat)
    (hfinish : ∀ s f, step range s = .finish f → carry s = (p s).toNat) (s : State) :
    (trace range s).countP p + tally s.tokens = tally (run range s).tokens + carry s := by
  fun_induction trace range s with
  | case1 s t hstep ih =>
    have hmove := hnext s t hstep
    rw [countP_cons_toNat, run_of_next hstep]
    omega
  | case2 s f hstep =>
    have hend := hfinish s f hstep
    rw [countP_cons_toNat, run_of_finish hstep, (ends_of_step hstep).tokens, List.countP_nil]
    omega

/-- Apart from a term that is started first, a term is started for each token that awaits
one. -/
theorem countP_startsTerm_trace (range : Range) (s : State) :
    (trace range s).countP State.startsTerm + s.tokens.countP Token.awaitsTerm =
      (run range s).tokens.countP Token.awaitsTerm + s.phase.weight := by
  have hweight : ∀ s : State, s.phase.weight = s.startsTerm.toNat := by
    intro s
    cases hs : s.phase <;> simp [State.startsTerm, Phase.weight, hs]
  -- What is carried on is the term that a state is about to start.
  refine countP_trace (fun s => s.phase.weight) (fun s t hstep => ?_) (fun s f _ => hweight s) s
  rw [(moves_of_step hstep).started, hweight s]

/-- Apart from those open at first, an expression is left for each opening bracket. -/
theorem countP_leaves_trace (range : Range) (s : State) :
    (trace range s).countP State.leaves + s.tokens.countP Token.isOpening =
      (run range s).tokens.countP Token.isOpening + (s.outer.length + 1) := by
  -- What is carried on are the expressions that are still to be left.
  refine countP_trace (fun s => s.outer.length + 1) (fun s t hstep => ?_) (fun s f hstep => ?_) s
  · have hleft := (moves_of_step hstep).left
    omega
  · simp [(ends_of_step hstep).outer, (ends_of_step hstep).leaves]

theorem suffix_run (range : Range) (s : State) : (run range s).rest <:+ s.rest := by
  fun_induction trace range s with
  | case1 s t hstep ih =>
    rw [run_of_next hstep]
    exact ih.trans (moves_of_step hstep).suffix
  | case2 s f hstep =>
    rw [run_of_finish hstep]
    exact (ends_of_step hstep).suffix

/-- Each token costs a character that is not blank. -/
theorem length_tokens_run_le (range : Range) (s : State) :
    (run range s).tokens.length + visible (run range s).rest ≤
      s.tokens.length + visible s.rest := by
  fun_induction trace range s with
  | case1 s t hstep ih =>
    rw [run_of_next hstep]
    exact Nat.le_trans ih (moves_of_step hstep).visible
  | case2 s f hstep =>
    rw [run_of_finish hstep, (ends_of_step hstep).tokens]
    exact Nat.add_le_add_left (visible_le_of_suffix (ends_of_step hstep).suffix) _

/-! ## The moves of a whole text -/

/-- How the outermost expression ended. -/
def Finish.result (f : Finish) : Except Failure (List Char) :=
  if f.status = .ok then .ok f.rest else .error ⟨f.status, f.rest⟩

theorem tokens_conclude (text : List Char) (ts : List Token) (r : Except Failure (List Char)) :
    (conclude text ts r).tokens = ts := by
  unfold conclude
  split
  · rfl
  · split <;> rfl

/-- The result of a text that is not all blanks is read off the end of all moves. -/
theorem parseChars_eq_conclude (h : skipBlanks text ≠ []) :
    parseChars range text =
      conclude text (run range (.start (skipBlanks text))).tokens.reverse
        (run range (.start (skipBlanks text))).result := by
  obtain ⟨c, cs, hskip⟩ := List.exists_cons_of_ne_nil h
  unfold parseChars
  rw [hskip]
  dsimp only
  generalize run range (.start (c :: cs)) = f
  by_cases hok : f.status = .ok
  · cases hrest : skipBlanks f.rest <;> simp [Finish.result, conclude, hok, hrest]
  · simp [Finish.result, conclude, hok]

theorem tokens_parseChars (h : skipBlanks text ≠ []) :
    (parseChars range text).tokens = (run range (.start (skipBlanks text))).tokens.reverse := by
  rw [parseChars_eq_conclude h, tokens_conclude]

/-- A term is started first, and one for each token that awaits one. -/
theorem termsStarted_eq (range : Range) (text : List Char) :
    termsStarted range text =
      (run range (.start (skipBlanks text))).tokens.countP Token.awaitsTerm + 1 :=
  countP_startsTerm_trace range (.start (skipBlanks text))

/-- The outermost expression is left, and one for each opening bracket. -/
theorem levelsLeft_eq (range : Range) (text : List Char) :
    levelsLeft range text =
      (run range (.start (skipBlanks text))).tokens.countP Token.isOpening + 1 :=
  countP_leaves_trace range (.start (skipBlanks text))

/-- There are no more tokens than characters that are not blank. -/
theorem length_tokens_le (range : Range) (text : List Char) :
    (run range (.start (skipBlanks text))).tokens.length ≤ visible text := by
  have hrun : _ ≤ 0 + visible (skipBlanks text) :=
    length_tokens_run_le range (.start (skipBlanks text))
  have hskip := visible_le_of_suffix (suffix_skipBlanks text)
  omega

theorem length_tokens_parseChars_le (range : Range) (text : List Char) :
    (parseChars range text).tokens.length ≤ visible text := by
  by_cases h : skipBlanks text = []
  · simp [parseChars, h]
  · rw [tokens_parseChars h, List.length_reverse]
    exact length_tokens_le range text

theorem termsStarted_le (range : Range) (text : List Char) :
    termsStarted range text ≤ text.length + 1 := by
  have hcount := (run range (.start (skipBlanks text))).tokens.countP_le_length
    (p := Token.awaitsTerm)
  have htokens := length_tokens_le range text
  have hvisible := visible_le_length text
  rw [termsStarted_eq]
  omega

theorem levelsLeft_eq_of_ne_nil (h : skipBlanks text ≠ []) :
    levelsLeft range text = (parseChars range text).tokens.countP Token.isOpening + 1 := by
  rw [levelsLeft_eq, tokens_parseChars h, List.countP_reverse]

/-- The number of moves is at most two for each character and two more. -/
theorem length_trace_start_le (range : Range) (text : List Char) :
    (trace range (.start (skipBlanks text))).length ≤ 2 * text.length + 2 := by
  have htrace := length_trace_le range (.start (skipBlanks text))
  have hmeasure : (State.start (skipBlanks text)).measure = 2 * (skipBlanks text).length + 1 := rfl
  have hskip := length_skipBlanks_le text
  omega

end Parse

end IntCalc
