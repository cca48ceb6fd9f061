import IntCalc.Parse.Scan

/-!
# The expression parser

An expression is a term, then any number of operators each followed by a
term; a term is a literal or an expression between `(` and `)`. Nesting has
no limit, so the open expressions are kept in a list instead of a
recursion: `State.level` belongs to the innermost open expression and
`State.outer` to those around it, innermost first. All that is remembered
of an open expression is whether one of its operators has been read.

`step` makes one move of the machine and `run` all of them. When a term
fails, the failure passes through every open expression: at the end of the
text it becomes a missing term in an expression that has an operator,
unless a literal was out of range. `parse` is the whole reading.
-/

namespace IntCalc.Parse

/-- What the machine does next. -/
inductive Phase
  /-- A term must start here. -/
  | term
  /-- A term has just ended. -/
  | afterTerm
  /-- The open expressions are left after a failure. -/
  | failed (status : ParseStatus)
  deriving DecidableEq, Repr

/-- A state of the machine. Of an open expression the flag says whether an
operator of its own has been read. -/
structure State where
  phase : Phase
  /-- The unread text. -/
  rest : List Char
  /-- The innermost open expression. -/
  level : Bool
  /-- The open expressions around it, innermost first. -/
  outer : List Bool
  /-- The tokens read, latest first. -/
  tokens : List Token
  deriving DecidableEq, Repr

/-- The state in front of a text. -/
def State.start (text : List Char) : State :=
  ⟨.term, text, false, [], []⟩

/-- The end of the outermost expression. -/
structure Finish where
  status : ParseStatus
  /-- The text left unread, and on failure the text at which it was noticed. -/
  rest : List Char
  /-- The tokens read, latest first. -/
  tokens : List Token
  deriving DecidableEq, Repr

/-- One move: to another state or to the end. -/
inductive Move
  | next (state : State)
  | finish (finish : Finish)
  deriving DecidableEq, Repr

/-- A term starts with `(`, which opens an expression, or is a literal. -/
def startTerm (range : Range) (s : State) : State :=
  match expect? .opening s.rest with
  | some rest =>
    { s with
      rest := rest
      level := false
      outer := s.level :: s.outer
      tokens := .opening :: s.tokens }
  | none =>
    match integer range (skipBlanks s.rest) with
    | .ok (numeral, rest) =>
      { s with phase := .afterTerm, rest := rest, tokens := .operand numeral :: s.tokens }
    | .error failure => { s with phase := .failed failure.status, rest := failure.rest }

/-- After a term either an operator goes on with the expression, or the
expression ends and the one around it takes its `)`. -/
def endTerm (s : State) : Move :=
  match operator? s.rest with
  | some (op, rest) =>
    .next { s with
      phase := .term
      rest := rest
      level := true
      tokens := .ofOperator op :: s.tokens }
  | none =>
    match s.outer with
    | [] => .finish ⟨.ok, skipBlanks s.rest, s.tokens⟩
    | level :: outer =>
      match expect? .closing s.rest with
      | some rest =>
        .next { s with
          rest := rest
          level := level
          outer := outer
          tokens := .closing :: s.tokens }
      | none =>
        .next { s with
          phase := .failed .missingClosing
          rest := skipBlanks s.rest
          level := level
          outer := outer }

/-- The status of a failure as it leaves an open expression. -/
def passLevel (level atEnd : Bool) (status : ParseStatus) : ParseStatus :=
  if level ∧ atEnd ∧ status ≠ .integerOutOfRange then .missingTerm else status

/-- A failure leaves the innermost open expression. -/
def leaveLevel (status : ParseStatus) (s : State) : Move :=
  let status := passLevel s.level s.rest.isEmpty status
  match s.outer with
  | [] => .finish ⟨status, s.rest, s.tokens⟩
  | level :: outer =>
    .next { s with phase := .failed status, level := level, outer := outer }

/-- One move of the machine. -/
def step (range : Range) (s : State) : Move :=
  match s.phase with
  | .term => .next (startTerm range s)
  | .afterTerm => endTerm s
  | .failed status => leaveLevel status s

/-! ## Every move makes progress -/

/-- The weight of a phase. A failure is noticed without reading on. -/
def Phase.weight : Phase → Nat
  | .term => 1
  | _ => 0

/-- The work left in a state. A character counts twice, because reading
`(` opens an expression. -/
def State.measure (s : State) : Nat :=
  2 * s.rest.length + s.outer.length + s.phase.weight

/-- Starting a term reads on or changes the phase. -/
theorem measure_startTerm_lt {range : Range} {s : State} (hs : s.phase = .term) :
    (startTerm range s).measure < s.measure := by
  unfold startTerm
  split
  · next rest h =>
    have := length_expect? h
    simp only [State.measure, hs, List.length_cons, Phase.weight]
    omega
  · have hle := length_skipBlanks_le s.rest
    split
    · next numeral rest h =>
      have := length_integer_ok h
      simp only [State.measure, hs, Phase.weight]
      omega
    · next failure h =>
      have := length_integer_error h
      simp only [State.measure, hs, Phase.weight]
      omega

/-- Going on after a term reads on or leaves an open expression. -/
theorem measure_endTerm_lt {s t : State} (h : endTerm s = .next t) :
    t.measure < s.measure := by
  unfold endTerm at h
  split at h
  · next op rest hop =>
    have := length_operator? hop
    simp only [Move.next.injEq] at h
    subst h
    simp only [State.measure, Phase.weight]
    omega
  · split at h
    · simp at h
    · next level outer houter =>
      split at h
      · next rest hclose =>
        have := length_expect? hclose
        simp only [Move.next.injEq] at h
        subst h
        simp only [State.measure, houter, List.length_cons]
        omega
      · have := length_skipBlanks_le s.rest
        simp only [Move.next.injEq] at h
        subst h
        simp only [State.measure, houter, List.length_cons, Phase.weight]
        omega

/-- A failure leaves an open expression. -/
theorem measure_leaveLevel_lt {status : ParseStatus} {s t : State}
    (h : leaveLevel status s = .next t) : t.measure < s.measure := by
  unfold leaveLevel at h
  dsimp only at h
  split at h
  · simp at h
  · next level outer houter =>
    simp only [Move.next.injEq] at h
    subst h
    simp only [State.measure, houter, List.length_cons, Phase.weight]
    omega

/-- Every move leaves less work. -/
theorem measure_step_lt {range : Range} {s t : State} (h : step range s = .next t) :
    t.measure < s.measure := by
  unfold step at h
  split at h
  · next hs =>
    simp only [Move.next.injEq] at h
    exact h ▸ measure_startTerm_lt hs
  · exact measure_endTerm_lt h
  · exact measure_leaveLevel_lt h

/-- All moves from a state. -/
def run (range : Range) (s : State) : Finish :=
  match _h : step range s with
  | .next t => run range t
  | .finish f => f
termination_by s.measure
decreasing_by exact measure_step_lt _h

/-! ## The whole reading -/

/-- The number of characters of `text` in front of the unread `rest`. -/
def columnOf (text rest : List Char) : Nat :=
  text.length - rest.length

theorem columnOf_append (front rest : List Char) : columnOf (front ++ rest) rest = front.length := by
  simp [columnOf]

/-- Reads a text: blanks, one expression, blanks. -/
def parseChars (range : Range) (text : List Char) : ParseResult :=
  match skipBlanks text with
  | [] => ⟨.unexpectedEnd, columnOf text [], []⟩
  | start =>
    let finish := run range (.start start)
    let tokens := finish.tokens.reverse
    if finish.status ≠ .ok then ⟨finish.status, columnOf text finish.rest, tokens⟩
    else
      match skipBlanks finish.rest with
      | [] => ⟨.ok, 0, tokens⟩
      | rest => ⟨.extraneousSymbol, columnOf text rest, tokens⟩

/-- Reads a text whose literals must lie strictly inside `range`. -/
def parse (range : Range) (text : String) : ParseResult :=
  parseChars range text.toList

end IntCalc.Parse
