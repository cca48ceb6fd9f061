import IntCalc.Fallible
import IntCalc.Parse.Machine

/-!
# Reading with a cursor

The machine of `run` is handed the unread text and takes it apart. Here the text
stays whole, a cursor moves over it, and all open expressions are in one list.
Nothing about a number keeps it inside a text, and nothing about a list keeps it
from being empty, so every look at a character and every use of the innermost
open expression is checked, and a look at what is not there is a `Fault`.

`step` makes one move, `trace` all of them, and `read` is the whole reading: the
states it goes through, where the cursor ends up, and the result.
-/

namespace IntCalc.Parse.Cursor

/-- A look at what is not there. -/
inductive Fault
  /-- A character at or behind the end of the text. -/
  | noCharacter (pos : Nat)
  /-- The innermost open expression where none is open. -/
  | noLevel
  deriving DecidableEq, Repr

/-! ## Characters -/

/-- Whether nothing is left to read. -/
def atEnd (text : List Char) (pos : Nat) : Bool :=
  text.length ≤ pos

/-- The class of the character at the cursor. -/
def current (text : List Char) (pos : Nat) : Except Fault Symbol :=
  match text[pos]? with
  | some c => .ok (Symbol.ofChar c)
  | none => .error (.noCharacter pos)

/-- Whether a character is left to read and its class is one of `p`. -/
def peek (p : Symbol → Bool) (text : List Char) (pos : Nat) : Except Fault Bool :=
  if atEnd text pos then .ok false else (current text pos).map p

/-- What is seen is in the text. -/
theorem lt_of_peek {p : Symbol → Bool} {text : List Char} {pos : Nat}
    (h : peek p text pos = .ok true) : pos < text.length := by
  unfold peek at h
  split at h
  · cases h
  · next hend => simpa [atEnd] using hend

/-- Moves over characters as long as their class is one of `p`. -/
def skipWhile (p : Symbol → Bool) (text : List Char) (pos : Nat) : Except Fault Nat :=
  match _h : peek p text pos with
  | .ok true => skipWhile p text (pos + 1)
  | .ok false => .ok pos
  | .error fault => .error fault
termination_by text.length - pos
decreasing_by
  have := lt_of_peek _h
  omega

/-- Moves over blanks and tabs. -/
def skipBlanks (text : List Char) (pos : Nat) : Except Fault Nat :=
  skipWhile Symbol.isBlank text pos

/-- Reads a character of the given class, if there is one at the cursor. -/
def accept (symbol : Symbol) (text : List Char) (pos : Nat) : Except Fault (Bool × Nat) := do
  if ← peek (· = symbol) text pos then return (true, pos + 1) else return (false, pos)

/-- Reads a character of the given class after any blanks. -/
def expect (symbol : Symbol) (text : List Char) (pos : Nat) : Except Fault (Bool × Nat) := do
  accept symbol text (← skipBlanks text pos)

/-- Reads one of the given operators after any blanks. They are tried in turn. -/
def anyOperator (text : List Char) : List Operator → Nat → Except Fault (Option Operator × Nat)
  | [], pos => return (none, pos)
  | op :: ops, pos => do
    let (found, pos) ← expect (.operator op) text pos
    if found then return (some op, pos) else anyOperator text ops pos

/-- Reads an operator after any blanks. -/
def operator (text : List Char) (pos : Nat) : Except Fault (Option Operator × Nat) :=
  anyOperator text Operator.all pos

/-! ## The cursor moves on -/

section Progress

variable {text : List Char} {pos next : Nat}

theorem le_of_skipWhile {p : Symbol → Bool} (h : skipWhile p text pos = .ok next) :
    pos ≤ next := by
  fun_induction skipWhile p text pos with
  | case1 pos _ ih => exact Nat.le_of_succ_le (ih h)
  | case2 pos _ => cases h; exact Nat.le_refl _
  | case3 pos _ _ => cases h

/-- A character that is read is in the text and behind the cursor. -/
theorem accept_cases {symbol : Symbol} {found : Bool}
    (h : accept symbol text pos = .ok (found, next)) :
    found = true ∧ pos < text.length ∧ next = pos + 1 ∨ found = false ∧ next = pos := by
  obtain ⟨b, hpeek, h⟩ := bind_eq_ok_iff.1 h
  cases b with
  | true =>
    cases h
    exact Or.inl ⟨rfl, lt_of_peek hpeek, rfl⟩
  | false =>
    cases h
    exact Or.inr ⟨rfl, rfl⟩

theorem le_of_accept {symbol : Symbol} {found : Bool}
    (h : accept symbol text pos = .ok (found, next)) : pos ≤ next := by
  rcases accept_cases h with ⟨-, -, rfl⟩ | ⟨-, rfl⟩ <;> omega

theorem le_of_expect {symbol : Symbol} {found : Bool}
    (h : expect symbol text pos = .ok (found, next)) : pos ≤ next := by
  obtain ⟨start, hskip, h⟩ := bind_eq_ok_iff.1 h
  exact Nat.le_trans (le_of_skipWhile hskip) (le_of_accept h)

/-- A character that is read moves the cursor, from inside the text. -/
theorem lt_of_expect {symbol : Symbol} (h : expect symbol text pos = .ok (true, next)) :
    pos < text.length ∧ pos < next := by
  obtain ⟨start, hskip, h⟩ := bind_eq_ok_iff.1 h
  have hle := le_of_skipWhile hskip
  rcases accept_cases h with ⟨-, hlt, rfl⟩ | ⟨hfound, -⟩
  · omega
  · cases hfound

/-- An operator that is read moves the cursor, from inside the text. -/
theorem lt_of_anyOperator {ops : List Operator} {op : Operator}
    (h : anyOperator text ops pos = .ok (some op, next)) : pos < text.length ∧ pos < next := by
  induction ops generalizing pos with
  | nil => cases h
  | cons op' ops ih =>
    obtain ⟨⟨found, start⟩, hexpect, h⟩ := bind_eq_ok_iff.1 h
    cases found with
    | true =>
      cases h
      exact lt_of_expect hexpect
    | false =>
      have hle := le_of_expect hexpect
      have hlt := ih h
      omega

theorem le_of_anyOperator {ops : List Operator} {op : Option Operator}
    (h : anyOperator text ops pos = .ok (op, next)) : pos ≤ next := by
  induction ops generalizing pos with
  | nil => cases h; exact Nat.le_refl _
  | cons op' ops ih =>
    obtain ⟨⟨found, start⟩, hexpect, h⟩ := bind_eq_ok_iff.1 h
    have hle := le_of_expect hexpect
    cases found with
    | true => cases h; exact hle
    | false => exact Nat.le_trans hle (ih h)

end Progress

/-! ## Literals -/

/-- Reads a run of minus signs and blanks. The sign so far is `negative`. -/
def signs (text : List Char) (negative : Bool) (pos : Nat) : Except Fault (Bool × Nat) :=
  match _h : expect (.operator .sub) text pos with
  | .ok (true, next) => signs text (!negative) next
  | .ok (false, next) => .ok (negative, next)
  | .error fault => .error fault
termination_by text.length - pos
decreasing_by
  have := lt_of_expect _h
  omega

/-- How a literal ended that is none: why, and at which column. -/
structure Halt where
  status : ParseStatus
  column : Nat
  deriving DecidableEq, Repr

/-- Reads a number that does not start with `0`, whose sign is known. A number out of
range is read to its end, and the column is where it starts. -/
def natural (range : Range) (text : List Char) (negative : Bool) (pos : Nat) :
    Except Fault (Except Halt String × Nat) := do
  let (found, next) ← accept .nonZeroDigit text pos
  if found then
    let stop ← skipWhile Symbol.isDigit text next
    let digits := text.extract pos stop
    if range.Interior (literalValue negative digits) then
      return (.ok (literalText negative digits), stop)
    else return (.error ⟨.integerOutOfRange, pos⟩, stop)
  else return (.error ⟨.illFormedInteger, pos⟩, pos)

/-- Reads a literal. After `0` it ends, whatever follows. -/
def integer (range : Range) (text : List Char) (pos : Nat) :
    Except Fault (Except Halt String × Nat) := do
  let (zero, next) ← accept .zero text pos
  if zero then return (.ok "0", next)
  else
    let (negative, next) ← signs text false next
    natural range text negative next

theorem le_of_signs {text : List Char} {negative negative' : Bool} {pos next : Nat}
    (h : signs text negative pos = .ok (negative', next)) : pos ≤ next := by
  fun_induction signs text negative pos with
  | case1 negative pos start hexpect ih => exact Nat.le_trans (le_of_expect hexpect) (ih h)
  | case2 negative pos start hexpect =>
    cases h
    exact le_of_expect hexpect
  | case3 negative pos fault => cases h

theorem le_of_natural {range : Range} {text : List Char} {negative : Bool} {pos next : Nat}
    {r : Except Halt String} (h : natural range text negative pos = .ok (r, next)) :
    pos ≤ next := by
  obtain ⟨⟨found, start⟩, haccept, h⟩ := bind_eq_ok_iff.1 h
  cases found with
  | false => cases h; exact Nat.le_refl _
  | true =>
    obtain ⟨stop, hskip, h⟩ := bind_eq_ok_iff.1 h
    have hle := Nat.le_trans (le_of_accept haccept) (le_of_skipWhile hskip)
    dsimp only at h
    split at h <;> cases h <;> exact hle

theorem le_of_integer {range : Range} {text : List Char} {pos next : Nat}
    {r : Except Halt String} (h : integer range text pos = .ok (r, next)) : pos ≤ next := by
  obtain ⟨⟨zero, start⟩, haccept, h⟩ := bind_eq_ok_iff.1 h
  have hle := le_of_accept haccept
  cases zero with
  | true => cases h; exact hle
  | false =>
    obtain ⟨⟨negative, start'⟩, hsigns, h⟩ := bind_eq_ok_iff.1 h
    have hsigns' := le_of_signs hsigns
    have hnatural := le_of_natural h
    omega

/-! ## Expressions -/

/-- The innermost of the open expressions, and those around it. -/
def innermost : List Bool → Except Fault (Bool × List Bool)
  | [] => .error .noLevel
  | level :: outer => .ok (level, outer)

/-- What the machine does next. -/
inductive Phase
  /-- A term must start here. -/
  | term
  /-- A term has ended, well if the status is `ok`, or with an error at a column. -/
  | ended (status : ParseStatus) (column : Nat)
  deriving DecidableEq, Repr

/-- A state of the machine. -/
structure State where
  phase : Phase
  /-- Where the cursor is. -/
  pos : Nat
  /-- The open expressions, innermost first. The flag says whether an operator of
  its own has been read. -/
  levels : List Bool
  /-- The tokens read, latest first. -/
  tokens : List Token
  deriving DecidableEq, Repr

/-- The end of the outermost expression. -/
structure Finish where
  status : ParseStatus
  column : Nat
  /-- Where the cursor is. -/
  pos : Nat
  /-- The tokens read, latest first. -/
  tokens : List Token
  deriving DecidableEq, Repr

/-- One move: to another state or to the end. -/
inductive Move
  | next (state : State)
  | finish (finish : Finish)
  deriving DecidableEq, Repr

/-- A term starts with `(`, which opens an expression, or is a literal. -/
def startTerm (range : Range) (text : List Char) (s : State) : Except Fault State := do
  let (opens, pos) ← expect .opening text (← skipBlanks text s.pos)
  if opens then
    return { s with pos := pos, levels := false :: s.levels, tokens := .opening :: s.tokens }
  else
    let (literal, pos) ← integer range text pos
    match literal with
    | .ok numeral =>
      return { s with phase := .ended .ok 0, pos := pos, tokens := .operand numeral :: s.tokens }
    | .error halt => return { s with phase := .ended halt.status halt.column, pos := pos }

/-- The innermost open expression is left. The one around it takes its `)`, unless
there was an error. -/
def leaveLevel (text : List Char) (status : ParseStatus) (column : Nat) (s : State) :
    Except Fault Move := do
  let (_, outer) ← innermost s.levels
  if outer.isEmpty then return .finish ⟨status, column, s.pos, s.tokens⟩
  else if status = .ok then
    let (closes, pos) ← expect .closing text s.pos
    if closes then
      return .next ⟨.ended .ok column, pos, outer, .closing :: s.tokens⟩
    else return .next ⟨.ended .missingClosing pos, pos, outer, s.tokens⟩
  else return .next ⟨.ended status column, s.pos, outer, s.tokens⟩

/-- After a term either an operator goes on with the innermost open expression and
marks it, or this expression is left. -/
def endTerm (text : List Char) (column : Nat) (s : State) : Except Fault Move := do
  let (op, pos) ← operator text s.pos
  match op with
  | some op =>
    let (_, outer) ← innermost s.levels
    return .next ⟨.term, pos, true :: outer, .ofOperator op :: s.tokens⟩
  | none => leaveLevel text .ok column { s with pos := pos }

/-- After an error the innermost open expression is left, which may turn the error
into a missing term. -/
def failTerm (text : List Char) (status : ParseStatus) (column : Nat) (s : State) :
    Except Fault Move := do
  let (level, _) ← innermost s.levels
  leaveLevel text (passLevel level (atEnd text s.pos) status) column s

/-- One move of the machine. -/
def step (range : Range) (text : List Char) (s : State) : Except Fault Move :=
  match s.phase with
  | .term => (startTerm range text s).map .next
  | .ended .ok column => endTerm text column s
  | .ended status column => failTerm text status column s

/-! ## Every move makes progress -/

/-- The weight of a phase. A failure is noticed without reading on. -/
def Phase.weight : Phase → Nat
  | .term => 1
  | .ended _ _ => 0

/-- The work left in a state. A character counts twice, because reading `(` opens
an expression. -/
def State.measure (text : List Char) (s : State) : Nat :=
  2 * (text.length - s.pos) + s.levels.length + s.phase.weight

/-- Where the cursor is after a move. -/
def Move.pos : Move → Nat
  | .next s => s.pos
  | .finish f => f.pos

/-- The work left after a move. -/
def Move.measure (text : List Char) : Move → Nat
  | .next s => s.measure text
  | .finish _ => 0

/-- In the move from `s` the cursor does not go back, and less work is left. -/
def State.Progress (text : List Char) (s : State) (m : Move) : Prop :=
  s.pos ≤ m.pos ∧ m.measure text < s.measure text

section Progress

variable {range : Range} {text : List Char} {status : ParseStatus} {column : Nat} {s t : State}
  {m : Move}

theorem innermost_eq_ok {levels outer : List Bool} {level : Bool}
    (h : innermost levels = .ok (level, outer)) : levels = level :: outer := by
  cases levels with
  | nil => cases h
  | cons _ _ => cases h; rfl

theorem progress_startTerm (hs : s.phase = .term) (h : startTerm range text s = .ok t) :
    s.Progress text (.next t) := by
  obtain ⟨start, hskip, h⟩ := bind_eq_ok_iff.1 h
  obtain ⟨⟨opens, pos⟩, hexpect, h⟩ := bind_eq_ok_iff.1 h
  have hle := le_of_skipWhile hskip
  cases opens with
  | true =>
    cases h
    have hlt := lt_of_expect hexpect
    refine ⟨by simp only [Move.pos]; omega, ?_⟩
    simp only [Move.measure, State.measure, List.length_cons]
    omega
  | false =>
    obtain ⟨⟨literal, next⟩, hinteger, h⟩ := bind_eq_ok_iff.1 h
    have hexpect' := le_of_expect hexpect
    have hinteger' := le_of_integer hinteger
    have hmeasure : 2 * (text.length - next) + s.levels.length < s.measure text := by
      simp only [State.measure, hs, Phase.weight]
      omega
    cases literal <;> cases h <;>
      exact ⟨by simp only [Move.pos]; omega, hmeasure⟩

/-- Leaving an expression leaves less work than there is behind the cursor and in the
open expressions, whatever the phase. -/
theorem progress_leaveLevel (h : leaveLevel text status column s = .ok m) :
    s.pos ≤ m.pos ∧ m.measure text < 2 * (text.length - s.pos) + s.levels.length := by
  obtain ⟨⟨level, outer⟩, hlevels, h⟩ := bind_eq_ok_iff.1 h
  rw [innermost_eq_ok hlevels, List.length_cons]
  dsimp only at h
  split at h
  · cases h
    exact ⟨Nat.le_refl _, Nat.succ_pos _⟩
  · split at h
    · obtain ⟨⟨closes, pos⟩, hexpect, h⟩ := bind_eq_ok_iff.1 h
      have hle := le_of_expect hexpect
      cases closes <;> cases h <;>
        exact ⟨hle, by simp only [Move.measure, State.measure, Phase.weight]; omega⟩
    · cases h
      exact ⟨Nat.le_refl _, by simp only [Move.measure, State.measure, Phase.weight]; omega⟩

theorem progress_endTerm (h : endTerm text column s = .ok m) : s.Progress text m := by
  obtain ⟨⟨op, pos⟩, hop, h⟩ := bind_eq_ok_iff.1 h
  cases op with
  | some op =>
    obtain ⟨⟨level, outer⟩, hlevels, h⟩ := bind_eq_ok_iff.1 h
    have hlt := lt_of_anyOperator hop
    cases h
    refine ⟨Nat.le_of_lt hlt.2, ?_⟩
    simp only [Move.measure, State.measure, innermost_eq_ok hlevels, List.length_cons, Phase.weight]
    omega
  | none =>
    have hle := le_of_anyOperator hop
    have hleave := progress_leaveLevel h
    refine ⟨Nat.le_trans hle hleave.1, Nat.lt_of_lt_of_le hleave.2 ?_⟩
    simp only [State.measure]
    omega

theorem progress_failTerm (h : failTerm text status column s = .ok m) : s.Progress text m := by
  obtain ⟨⟨level, outer⟩, -, h⟩ := bind_eq_ok_iff.1 h
  have hleave := progress_leaveLevel h
  exact ⟨hleave.1, Nat.lt_of_lt_of_le hleave.2 (Nat.le_add_right _ _)⟩

/-- Every move makes progress. -/
theorem progress_step (h : step range text s = .ok m) : s.Progress text m := by
  unfold step at h
  split at h
  · next hs =>
    obtain ⟨t, ht, rfl⟩ := map_eq_ok_iff.1 h
    exact progress_startTerm hs ht
  · exact progress_endTerm h
  · exact progress_failTerm h

end Progress

/-- The states from `s` on, `s` included, and the end. -/
def trace (range : Range) (text : List Char) (s : State) : Except Fault (List State × Finish) :=
  match _h : step range text s with
  | .ok (.next t) => (trace range text t).map fun (states, finish) => (s :: states, finish)
  | .ok (.finish finish) => .ok ([s], finish)
  | .error fault => .error fault
termination_by s.measure text
decreasing_by exact (progress_step _h).2

/-! ## The whole reading -/

/-- A reading of a text. -/
structure Reading where
  /-- The states gone through, in order. A text of blanks has none. -/
  states : List State
  /-- Where the cursor ends up. -/
  pos : Nat
  result : ParseResult
  deriving DecidableEq, Repr

/-- Reads a text: blanks, one expression, blanks. -/
def read (range : Range) (text : List Char) : Except Fault Reading := do
  let start ← skipBlanks text 0
  if atEnd text start then return ⟨[], start, ⟨.unexpectedEnd, start, []⟩⟩
  else
    let (states, finish) ← trace range text ⟨.term, start, [false], []⟩
    let tokens := finish.tokens.reverse
    if finish.status ≠ .ok then
      return ⟨states, finish.pos, ⟨finish.status, finish.column, tokens⟩⟩
    else
      let pos ← skipBlanks text finish.pos
      if atEnd text pos then return ⟨states, pos, ⟨.ok, finish.column, tokens⟩⟩
      else return ⟨states, pos, ⟨.extraneousSymbol, pos, tokens⟩⟩

/-- Where the cursor was, from the first term to the end. -/
def Reading.positions (r : Reading) : List Nat :=
  r.states.map State.pos ++ [r.pos]

/-- Whether a term is started from a state. -/
def State.startsTerm (s : State) : Bool :=
  s.phase = .term

/-- Whether the move from a state leaves the innermost open expression. -/
def State.leaves (text : List Char) (s : State) : Bool :=
  match s.phase with
  | .term => false
  | .ended .ok _ =>
    match operator text s.pos with
    | .ok (some _, _) => false
    | _ => true
  | .ended _ _ => true

end IntCalc.Parse.Cursor
