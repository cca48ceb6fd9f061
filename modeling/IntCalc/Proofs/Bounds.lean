import IntCalc.Proofs.Cursor

/-!
# The reading ends, inside the text

`State.of` is the state with a cursor that stands for a state of the machine. The machine
with a cursor makes the same moves, without a fault (`step_of`), so a whole reading goes
through the states of `trace` and has the result of `parseChars` (`exists_read`). What is
counted along the moves is therefore counted along the reading, and the cursor never goes
back (`pairwise_positions`).

`read_bounded` collects the bounds on a reading.
-/

namespace IntCalc.Parse.Cursor

variable {range : Range} {text : List Char} {s t : Parse.State}

/-! ## The states of the machine with a cursor -/

/-- The phase of a machine that has the text `rest` in front. -/
def Phase.of (text rest : List Char) : Parse.Phase → Phase
  | .term => .term
  | .afterTerm => .ended .ok 0
  | .failed status => .ended status (columnOf text rest)

/-- What the cursor has in front. -/
def ahead (s : Parse.State) : List Char :=
  match s.phase with
  | .failed status => reached status s.rest
  | _ => s.rest

/-- The state of the machine with a cursor. -/
def State.of (text : List Char) (s : Parse.State) : State :=
  ⟨.of text s.rest s.phase, columnOf text (ahead s), s.level :: s.outer, s.tokens⟩

/-- The end of the machine with a cursor. -/
def Finish.of (text : List Char) (f : Parse.Finish) : Finish :=
  ⟨f.status, if f.status = .ok then 0 else columnOf text f.rest,
    columnOf text (reached f.status f.rest), f.tokens⟩

/-- The move of the machine with a cursor. -/
def Move.of (text : List Char) : Parse.Move → Move
  | .next s => .next (.of text s)
  | .finish f => .finish (.of text f)

/-- A state that a reading of `text` can be in. -/
structure Fits (text : List Char) (s : Parse.State) : Prop where
  suffix : s.rest <:+ text
  status_ne_ok : s.phase ≠ .failed .ok

theorem passLevel_ne_ok (level atEnd : Bool) {status : ParseStatus} (h : status ≠ .ok) :
    passLevel level atEnd status ≠ .ok := by
  unfold passLevel
  split
  · decide
  · exact h

theorem status_ne_ok_startTerm (hs : s.phase = .term) :
    (Parse.startTerm range s).phase ≠ .failed .ok := by
  unfold Parse.startTerm
  split
  · simp [hs]
  · split
    · simp
    · next failure hint => rcases status_of_integer_error hint with h | h <;> simp [h]

theorem Fits.of_step (h : Fits text s) (hstep : Parse.step range s = .next t) : Fits text t := by
  refine ⟨(moves_of_step hstep).suffix.trans h.suffix, ?_⟩
  unfold Parse.step at hstep
  split at hstep
  · next hs =>
    cases hstep
    exact status_ne_ok_startTerm hs
  · next hs =>
    unfold Parse.endTerm at hstep
    split at hstep
    · cases hstep
      simp
    · split at hstep
      · cases hstep
      · split at hstep <;> cases hstep <;> simp [hs]
  · next status hs =>
    have hstatus : status ≠ .ok := fun heq => h.status_ne_ok (heq ▸ hs)
    unfold Parse.leaveLevel at hstep
    dsimp only at hstep
    split at hstep
    · cases hstep
    · cases hstep
      simpa using passLevel_ne_ok _ _ hstatus

/-! ## One move -/

theorem startTerm_of (h : s.rest <:+ text) (hs : s.phase = .term) :
    startTerm range text (.of text s) = .ok (.of text (Parse.startTerm range s)) := by
  have hskip := (suffix_skipBlanks s.rest).trans h
  have hpos : (State.of text s).pos = columnOf text s.rest := by simp [State.of, ahead, hs]
  rw [startTerm, hpos, skipBlanks_columnOf h, ok_bind, expect_columnOf _ hskip,
    expect?_skipBlanks, skipBlanks_skipBlanks, Parse.startTerm]
  cases hopen : expect? .opening s.rest with
  | some rest => simp [landing, State.of, ahead, hs, pure_eq_ok, Phase.of]
  | none =>
    simp only [landing, ok_bind, Bool.false_eq_true, if_false, integer_columnOf hskip]
    cases Parse.integer range (Parse.skipBlanks s.rest) with
    | ok found => rfl
    | error failure => rfl

theorem endTerm_of (h : s.rest <:+ text) (hs : s.phase = .afterTerm) :
    endTerm text 0 (.of text s) = .ok (.of text (Parse.endTerm s)) := by
  have hskip := (suffix_skipBlanks s.rest).trans h
  have hpos : (State.of text s).pos = columnOf text s.rest := by simp [State.of, ahead, hs]
  rw [endTerm, hpos, operator_columnOf h, ok_bind, Parse.endTerm]
  cases hop : operator? s.rest with
  | some found => simp [landingOperator, innermost, State.of, Move.of, ahead, pure_eq_ok, Phase.of]
  | none =>
    simp only [landingOperator, leaveLevel]
    cases houter : s.outer with
    | nil => simp [State.of, innermost, houter, Move.of, Finish.of, reached, pure_eq_ok]
    | cons level outer =>
      simp only [State.of, innermost, houter, ok_bind, List.isEmpty_cons, Bool.false_eq_true,
        if_false, if_true, expect_columnOf _ hskip, expect?_skipBlanks, skipBlanks_skipBlanks]
      cases hclose : expect? .closing s.rest with
      | some rest => simp [landing, pure_eq_ok, Move.of, State.of, ahead, Phase.of, hs]
      | none => simp [landing, pure_eq_ok, Move.of, State.of, ahead, Phase.of, reached]

/-- Behind a number out of range it plays no part whether the cursor is at the end. -/
theorem passLevel_reached (level : Bool) (status : ParseStatus) (h : s.rest <:+ text) :
    passLevel level (atEnd text (columnOf text (reached status s.rest))) status =
      passLevel level s.rest.isEmpty status := by
  by_cases hstatus : status = .integerOutOfRange
  · simp [passLevel, hstatus]
  · rw [reached, if_neg hstatus, atEnd_columnOf h]

/-- Leaving an expression does not move the cursor. -/
theorem reached_passLevel (level atEnd : Bool) (status : ParseStatus) (rest : List Char) :
    reached (passLevel level atEnd status) rest = reached status rest := by
  unfold passLevel
  split
  · next h => simp [reached, h.2.2]
  · rfl

theorem failTerm_of {status : ParseStatus} (h : s.rest <:+ text) (hs : s.phase = .failed status)
    (hstatus : status ≠ .ok) :
    failTerm text status (columnOf text s.rest) (.of text s) =
      .ok (.of text (Parse.leaveLevel status s)) := by
  have hahead : ahead s = reached status s.rest := by simp [ahead, hs]
  have hne := passLevel_ne_ok s.level s.rest.isEmpty hstatus
  have hreached := reached_passLevel s.level s.rest.isEmpty status s.rest
  simp only [failTerm, leaveLevel, State.of, hahead, innermost, ok_bind,
    passLevel_reached s.level status h, Parse.leaveLevel]
  cases houter : s.outer with
  | nil => simp [Move.of, Finish.of, hne, hreached, pure_eq_ok]
  | cons level outer => simp [Move.of, State.of, Phase.of, hne, hreached, ahead, pure_eq_ok]

/-- The machine with a cursor makes the moves of the machine, without a fault. -/
theorem step_of (h : Fits text s) :
    step range text (.of text s) = .ok (.of text (Parse.step range s)) := by
  have hphase : (State.of text s).phase = .of text s.rest s.phase := rfl
  unfold step Parse.step
  rw [hphase]
  cases hs : s.phase with
  | term =>
    show (startTerm range text (.of text s)).map Move.next = _
    rw [startTerm_of h.suffix hs]
    rfl
  | afterTerm => exact endTerm_of h.suffix hs
  | failed status =>
    have hstatus : status ≠ .ok := fun heq => h.status_ne_ok (heq ▸ hs)
    cases status with
    | ok => exact absurd rfl hstatus
    | _ => exact failTerm_of h.suffix hs hstatus

/-! ## All moves -/

theorem trace_of_next {s t : State} {states : List State} {f : Finish}
    (h : step range text s = .ok (.next t)) (ht : trace range text t = .ok (states, f)) :
    trace range text s = .ok (s :: states, f) := by
  rw [trace]
  split <;> simp_all [Except.map]

theorem trace_of_finish {s : State} {f : Finish} (h : step range text s = .ok (.finish f)) :
    trace range text s = .ok ([s], f) := by
  rw [trace]
  split <;> simp_all

theorem trace_of (h : Fits text s) :
    trace range text (.of text s) =
      .ok ((Parse.trace range s).map (.of text), .of text (run range s)) := by
  fun_induction Parse.trace range s with
  | case1 s t hstep ih =>
    have hmove : step range text (.of text s) = .ok (.next (.of text t)) := by
      rw [step_of h, hstep]
      rfl
    rw [trace_of_next hmove (ih (h.of_step hstep)), run_of_next hstep]
    rfl
  | case2 s f hstep =>
    have hmove : step range text (.of text s) = .ok (.finish (.of text f)) := by
      rw [step_of h, hstep]
      rfl
    rw [trace_of_finish hmove, run_of_finish hstep]
    rfl

theorem startsTerm_of (text : List Char) (s : Parse.State) :
    (State.of text s).startsTerm = s.startsTerm := by
  cases hs : s.phase <;> simp [State.startsTerm, Parse.State.startsTerm, State.of, Phase.of, hs]

theorem leaves_of (h : Fits text s) : (State.of text s).leaves text = s.leaves := by
  cases hs : s.phase with
  | term => simp [State.leaves, Parse.State.leaves, State.of, Phase.of, hs]
  | afterTerm =>
    have hop := operator_columnOf h.suffix
    cases hfound : operator? s.rest <;>
      simp [State.leaves, Parse.State.leaves, State.of, Phase.of, ahead, hs, hop, hfound,
        landingOperator]
  | failed status =>
    have hstatus : status ≠ .ok := fun heq => h.status_ne_ok (heq ▸ hs)
    cases status with
    | ok => exact absurd rfl hstatus
    | _ => simp [State.leaves, Parse.State.leaves, State.of, Phase.of, hs]

theorem Fits.mem_trace (h : Fits text s) (ht : t ∈ Parse.trace range s) : Fits text t := by
  fun_induction Parse.trace range s with
  | case1 s u hstep ih =>
    rcases List.mem_cons.1 ht with rfl | ht
    · exact h
    · exact ih (h.of_step hstep) ht
  | case2 s f hstep =>
    obtain rfl := List.mem_singleton.1 ht
    exact h

/-- The cursor does not go back, from one state to the next and to the end. -/
theorem pairwise_trace {s : State} {states : List State} {f : Finish}
    (h : trace range text s = .ok (states, f)) :
    (states.map State.pos ++ [f.pos]).Pairwise (· ≤ ·) ∧
      ∀ pos ∈ states.map State.pos ++ [f.pos], s.pos ≤ pos := by
  fun_induction trace range text s generalizing states with
  | case1 s t hstep ih =>
    obtain ⟨⟨states', f'⟩, htrace, heq⟩ := map_eq_ok_iff.1 h
    cases heq
    obtain ⟨hsorted, hle⟩ := ih htrace
    have hmove : s.pos ≤ t.pos := (progress_step hstep).1
    have hall : ∀ pos ∈ states'.map State.pos ++ [f.pos], s.pos ≤ pos :=
      fun pos hpos => Nat.le_trans hmove (hle pos hpos)
    exact ⟨List.pairwise_cons.2 ⟨hall, hsorted⟩, List.forall_mem_cons.2 ⟨Nat.le_refl _, hall⟩⟩
  | case2 s f' hstep =>
    cases h
    have hmove : s.pos ≤ f.pos := (progress_step hstep).1
    simp [hmove]
  | case3 s fault hstep => cases h

/-! ## The whole reading -/

theorem columnOf_self (text : List Char) : columnOf text text = 0 :=
  Nat.sub_self _

theorem columnOf_le (text rest : List Char) : columnOf text rest ≤ text.length :=
  Nat.sub_le _ _

theorem fits_start (text : List Char) : Fits text (.start (Parse.skipBlanks text)) :=
  ⟨suffix_skipBlanks text, by simp [Parse.State.start]⟩

theorem skipBlanks_zero (text : List Char) :
    skipBlanks text 0 = .ok (columnOf text (Parse.skipBlanks text)) := by
  rw [← columnOf_self text]
  exact skipBlanks_columnOf List.suffix_rfl

/-- A text of blanks is passed. -/
theorem read_of_blanks (h : Parse.skipBlanks text = []) :
    read range text = .ok ⟨[], text.length, parseChars range text⟩ := by
  have hend : columnOf text [] = text.length := rfl
  rw [read, skipBlanks_zero, ok_bind, atEnd_columnOf (suffix_skipBlanks text), h]
  simp [parseChars, h, hend, pure_eq_ok]

/-- Where the cursor is at the end of a reading that has left the outermost expression. -/
def stop (f : Parse.Finish) : List Char :=
  if f.status = .ok then Parse.skipBlanks f.rest else reached f.status f.rest

theorem read_of_not_blanks (h : Parse.skipBlanks text ≠ []) :
    read range text = .ok
      ⟨(Parse.trace range (.start (Parse.skipBlanks text))).map (.of text),
        columnOf text (stop (run range (.start (Parse.skipBlanks text)))),
        parseChars range text⟩ := by
  have hstart : (⟨.term, columnOf text (Parse.skipBlanks text), [false], []⟩ : State) =
      .of text (.start (Parse.skipBlanks text)) := rfl
  have hsuffix := (suffix_run range (.start (Parse.skipBlanks text))).trans (suffix_skipBlanks text)
  have hskip := (suffix_skipBlanks _).trans hsuffix
  rw [read, skipBlanks_zero, ok_bind, atEnd_columnOf (suffix_skipBlanks text), hstart,
    trace_of (fits_start text), ok_bind, parseChars_eq_conclude h, if_neg (by simpa using h)]
  generalize run range (.start (Parse.skipBlanks text)) = f at hsuffix hskip ⊢
  by_cases hok : f.status = .ok
  · have hpos : (Finish.of text f).pos = columnOf text f.rest := by
      simp [Finish.of, reached, hok]
    simp only [hpos, skipBlanks_columnOf hsuffix, ok_bind, atEnd_columnOf hskip]
    cases hrest : Parse.skipBlanks f.rest <;>
      simp [Finish.of, Parse.Finish.result, conclude, stop, hok, hrest, pure_eq_ok]
  · simp [Finish.of, Parse.Finish.result, conclude, stop, hok, pure_eq_ok]

/-- Every text is read without a fault, and with the result and the states of the machine. -/
theorem exists_read (range : Range) (text : List Char) :
    ∃ r, read range text = .ok r ∧ r.result = parseChars range text ∧ r.pos ≤ text.length ∧
      (r.states = [] ∨ Parse.skipBlanks text ≠ [] ∧
        r.states = (Parse.trace range (.start (Parse.skipBlanks text))).map (.of text)) := by
  by_cases h : Parse.skipBlanks text = []
  · exact ⟨_, read_of_blanks h, rfl, Nat.le_refl _, Or.inl rfl⟩
  · exact ⟨_, read_of_not_blanks h, rfl, columnOf_le _ _, Or.inr ⟨h, rfl⟩⟩

theorem pairwise_concat_of_le {l : List Nat} {m n : Nat} (h : (l ++ [m]).Pairwise (· ≤ ·))
    (hle : m ≤ n) : (l ++ [n]).Pairwise (· ≤ ·) := by
  simp only [List.pairwise_append, List.mem_singleton, forall_eq] at h ⊢
  exact ⟨h.1, List.pairwise_singleton _ _, fun k hk => Nat.le_trans (h.2.2 k hk) hle⟩

/-- The cursor never goes back. -/
theorem pairwise_positions {r : Reading} (h : read range text = .ok r) :
    r.positions.Pairwise (· ≤ ·) := by
  obtain ⟨start, -, h⟩ := bind_eq_ok_iff.1 h
  dsimp only at h
  split at h
  · cases h
    exact List.pairwise_singleton _ _
  · obtain ⟨⟨states, f⟩, htrace, h⟩ := bind_eq_ok_iff.1 h
    have hsorted := (pairwise_trace htrace).1
    split at h
    · cases h
      exact hsorted
    · obtain ⟨pos, hskip, h⟩ := bind_eq_ok_iff.1 h
      have hlast := pairwise_concat_of_le hsorted (le_of_skipWhile hskip)
      split at h <;> cases h <;> exact hlast

theorem countP_startsTerm_map (text : List Char) (states : List Parse.State) :
    (states.map (State.of text)).countP State.startsTerm =
      states.countP Parse.State.startsTerm := by
  rw [List.countP_map]
  exact List.countP_congr fun s _ => by simp [startsTerm_of]

theorem countP_leaves_map (text : List Char) {states : List Parse.State}
    (h : ∀ s ∈ states, Fits text s) :
    (states.map (State.of text)).countP (State.leaves text) =
      states.countP Parse.State.leaves := by
  rw [List.countP_map]
  exact List.countP_congr fun s hs => by simp [leaves_of (h s hs)]

theorem visible_eq (text : List Char) :
    visible text = text.countP fun c => c ≠ ' ' ∧ c ≠ '\t' :=
  List.countP_congr fun c _ => by
    have hblank := Symbol.isBlank_ofChar_iff (c := c)
    simp [← not_or, ← hblank]

/-- Every text is read to the end, in at most two moves for each character and two more,
with the result of `parse`. No character is looked up outside the text, no open expression
is used where none is open, and the cursor neither goes back nor leaves the text. At most
one term more is started than there are characters, at most one expression more is left
than opening brackets are emitted, and no more tokens are emitted than there are characters
other than blanks and tabs. -/
theorem read_bounded (range : Range) (text : String) :
    ∃ r, read range text.toList = .ok r ∧ r.result = parse range text ∧
      r.states.length ≤ 2 * text.length + 2 ∧
      r.positions.Pairwise (· ≤ ·) ∧ (∀ pos ∈ r.positions, pos ≤ text.length) ∧
      r.states.countP State.startsTerm ≤ text.length + 1 ∧
      r.states.countP (State.leaves text.toList) ≤ r.result.tokens.countP Token.isOpening + 1 ∧
      r.result.tokens.length ≤ text.toList.countP fun c => c ≠ ' ' ∧ c ≠ '\t' := by
  obtain ⟨r, hread, hresult, hpos, hstates⟩ := exists_read range text.toList
  have htokens := length_tokens_parseChars_le range text.toList
  have hsorted := pairwise_positions hread
  rw [← hresult] at htokens
  rw [← visible_eq, ← String.length_toList]
  refine ⟨r, hread, hresult, ?_⟩
  rcases hstates with hnil | ⟨hne, hmap⟩
  · have hinside : ∀ pos ∈ r.positions, pos ≤ text.toList.length := by
      simpa [Reading.positions, hnil] using hpos
    simp only [hnil, List.length_nil, List.countP_nil]
    exact ⟨Nat.zero_le _, hsorted, hinside, Nat.zero_le _, Nat.zero_le _, htokens⟩
  · have hinside : ∀ pos ∈ r.positions, pos ≤ text.toList.length := by
      simp only [Reading.positions, hmap, List.map_map, List.forall_mem_append, List.forall_mem_map,
        List.forall_mem_singleton]
      exact ⟨fun s _ => columnOf_le _ _, hpos⟩
    have hstarted : r.states.countP State.startsTerm = termsStarted range text.toList := by
      rw [hmap, countP_startsTerm_map, termsStarted]
    have hleft : r.states.countP (State.leaves text.toList) = levelsLeft range text.toList := by
      rw [hmap, countP_leaves_map _ fun s hs => (fits_start text.toList).mem_trace hs, levelsLeft]
    have hmoves := length_trace_start_le range text.toList
    refine ⟨?_, hsorted, hinside, ?_, ?_, htokens⟩
    · rwa [hmap, List.length_map]
    · exact hstarted ▸ termsStarted_le range text.toList
    · rw [hleft, levelsLeft_eq_of_ne_nil hne, hresult]

/-- Two brackets and no literal reach all of the bounds. -/
example :
    (read IntType.int16.range "((".toList).map (fun r =>
      (r.positions, r.states.countP State.startsTerm,
        r.states.countP (State.leaves "((".toList), r.result.tokens.length)) =
      .ok ([0, 1, 2, 2, 2, 2, 2], 3, 3, 2) := by
  decide +kernel

end IntCalc.Parse.Cursor
