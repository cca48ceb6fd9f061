import IntCalc.Parse.Descent

/-!
# The rules of reading

`Reads range part text ts r` says that reading a part of an expression at the front
of `text` emits the tokens `ts` and ends with `r` : the unread rest of the text, or a
failure. There is one rule for each way a part can go on or end, so what a reading
does with any text is proved by induction on its rules.

Every part of every text has a reading (`exists_reads`), and what it leaves is
shorter than what it was given (`Reads.length_lt`). `Reads.read_eq` says that the
functions of the recursive descent follow the rules.
-/

namespace IntCalc.Parse

/-- The parts of an expression, as the recursive descent reads them. -/
inductive Part
  | expression
  | operators
  | term
  deriving DecidableEq, Repr

/-- Reading `part` at the front of `text` emits `ts` and ends with `r`. -/
inductive Reads (range : Range) :
    Part → List Char → List Token → Except Failure (List Char) → Prop
  | expression {text rest : List Char} {ts us : List Token} {r : Except Failure (List Char)} :
      Reads range .term text ts (.ok rest) → Reads range .operators rest us r →
      Reads range .expression text (ts ++ us) r
  | expressionFailed {text : List Char} {ts : List Token} {f : Failure} :
      Reads range .term text ts (.error f) → Reads range .expression text ts (.error f)
  | operatorsEnd {text : List Char} :
      operator? text = none → Reads range .operators text [] (.ok text)
  | operator {text rest rest' : List Char} {op : Operator} {ts us : List Token}
      {r : Except Failure (List Char)} :
      operator? text = some (op, rest) → Reads range .term rest ts (.ok rest') →
      Reads range .operators rest' us r →
      Reads range .operators text (.ofOperator op :: (ts ++ us)) r
  | operatorFailed {text rest : List Char} {op : Operator} {ts : List Token} {f : Failure} :
      operator? text = some (op, rest) → Reads range .term rest ts (.error f) →
      Reads range .operators text (.ofOperator op :: ts) (.error f.afterOperator)
  | scope {text rest rest' rest'' : List Char} {ts : List Token} :
      expect? .opening text = some rest → Reads range .expression rest ts (.ok rest') →
      expect? .closing rest' = some rest'' →
      Reads range .term text (.opening :: (ts ++ [.closing])) (.ok rest'')
  | scopeUnclosed {text rest rest' : List Char} {ts : List Token} :
      expect? .opening text = some rest → Reads range .expression rest ts (.ok rest') →
      expect? .closing rest' = none →
      Reads range .term text (.opening :: ts) (.error ⟨.missingClosing, skipBlanks rest'⟩)
  | scopeFailed {text rest : List Char} {ts : List Token} {f : Failure} :
      expect? .opening text = some rest → Reads range .expression rest ts (.error f) →
      Reads range .term text (.opening :: ts) (.error f)
  | literal {text rest : List Char} {numeral : String} :
      expect? .opening text = none → integer range (skipBlanks text) = .ok (numeral, rest) →
      Reads range .term text [.operand numeral] (.ok rest)
  | literalFailed {text : List Char} {f : Failure} :
      expect? .opening text = none → integer range (skipBlanks text) = .error f →
      Reads range .term text [] (.error f)

variable {range : Range} {part : Part} {text rest : List Char} {ts : List Token}
  {r : Except Failure (List Char)}

/-! ## Every text has a reading -/

/-- How far the rest of a part may reach beyond a shorter text. Only operators may
read nothing. -/
def Part.slack : Part → Nat
  | .operators => 1
  | _ => 0

/-- What a reading leaves is shorter than its text. -/
theorem Reads.length_lt (h : Reads range part text ts (.ok rest)) :
    rest.length < text.length + part.slack := by
  generalize hr : Except.ok rest = r at h
  induction h generalizing rest with
  | expression _ _ iht iho =>
    have h1 := iht rfl
    have h2 := iho hr
    simp only [Part.slack] at h1 h2 ⊢
    omega
  | operatorsEnd _ =>
    cases hr
    exact Nat.lt_succ_self _
  | operator hop _ _ iht iho =>
    have h0 := length_operator? hop
    have h1 := iht rfl
    have h2 := iho hr
    simp only [Part.slack] at h1 h2 ⊢
    omega
  | scope hopen _ hclose ih =>
    cases hr
    have h0 := length_expect? hopen
    have h1 := ih rfl
    have h2 := length_expect? hclose
    simp only [Part.slack] at h1 ⊢
    omega
  | @literal text _ _ _ hint =>
    cases hr
    have h0 := length_skipBlanks_le text
    have h1 := length_integer_ok hint
    simp only [Part.slack]
    omega
  | expressionFailed | operatorFailed | scopeUnclosed | scopeFailed | literalFailed => cases hr

/-- A term can be read if every shorter text has a reading of an expression. -/
theorem exists_reads_term
    (ih : ∀ rest : List Char, rest.length < text.length →
      ∃ ts r, Reads range .expression rest ts r) :
    ∃ ts r, Reads range .term text ts r := by
  cases hopen : expect? .opening text with
  | none =>
    cases hint : integer range (skipBlanks text) with
    | ok a => exact ⟨_, _, .literal hopen hint⟩
    | error f => exact ⟨_, _, .literalFailed hopen hint⟩
  | some rest =>
    obtain ⟨ts, r, h⟩ := ih rest (length_expect? hopen)
    cases r with
    | error f => exact ⟨_, _, .scopeFailed hopen h⟩
    | ok rest' =>
      cases hclose : expect? .closing rest' with
      | some rest'' => exact ⟨_, _, .scope hopen h hclose⟩
      | none => exact ⟨_, _, .scopeUnclosed hopen h hclose⟩

/-- Every part of every text has a reading. -/
theorem exists_reads (range : Range) (part : Part) (text : List Char) :
    ∃ ts r, Reads range part text ts r := by
  induction hn : text.length using Nat.strongRecOn generalizing part text with
  | ind n ih =>
    -- An expression starts with a term of the same text, so the term comes first.
    have hterm : ∃ ts r, Reads range .term text ts r :=
      exists_reads_term fun rest hlt => ih _ (hn ▸ hlt) .expression rest rfl
    have hexpression : ∃ ts r, Reads range .expression text ts r := by
      obtain ⟨ts, r, h⟩ := hterm
      cases r with
      | error f => exact ⟨_, _, .expressionFailed h⟩
      | ok rest =>
        obtain ⟨us, r', h'⟩ := ih _ (hn ▸ h.length_lt) .operators rest rfl
        exact ⟨_, _, .expression h h'⟩
    have hoperators : ∃ ts r, Reads range .operators text ts r := by
      cases hop : operator? text with
      | none => exact ⟨_, _, .operatorsEnd hop⟩
      | some p =>
        obtain ⟨op, rest⟩ := p
        have hrest := length_operator? hop
        obtain ⟨ts, r, h⟩ := ih _ (hn ▸ hrest) .term rest rfl
        cases r with
        | error f => exact ⟨_, _, .operatorFailed hop h⟩
        | ok rest' =>
          have hlt : rest'.length < n := hn ▸ Nat.lt_trans h.length_lt hrest
          obtain ⟨us, r', h'⟩ := ih _ hlt .operators rest' rfl
          exact ⟨_, _, .operator hop h h'⟩
    cases part with
    | expression => exact hexpression
    | operators => exact hoperators
    | term => exact hterm

/-! ## The recursive descent follows the rules -/

/-- What was read, without the bound on its rest. -/
def Read.forget {n : Nat} : Read n → Except Failure (List Char) × List Token
  | .ok rest tokens _ => (.ok rest, tokens)
  | .failed failure tokens => (.error failure, tokens)

@[simp] theorem Read.forget_ok {n : Nat} (rest : List Char) (tokens : List Token)
    (shorter : rest.length < n) : (Read.ok rest tokens shorter).forget = (.ok rest, tokens) :=
  rfl

@[simp] theorem Read.forget_failed {n : Nat} (f : Failure) (tokens : List Token) :
    (Read.failed f tokens : Read n).forget = (.error f, tokens) :=
  rfl

@[simp] theorem Read.forget_widen {m n : Nat} (h : m ≤ n) (read : Read m) :
    (read.widen h).forget = read.forget := by
  cases read <;> rfl

/-- A part read by recursive descent. -/
def Part.read (range : Range) (text : List Char) (tokens : List Token) :
    Part → Except Failure (List Char) × List Token
  | .expression => (Parse.expression range text tokens).forget
  | .operators => (Parse.operators range text tokens).forget
  | .term => (Parse.term range text tokens).forget

/-- An expression is a term and the operators behind it. -/
theorem Part.read_expression (range : Range) (text : List Char) (tokens : List Token) :
    Part.expression.read range text tokens =
      match Part.term.read range text tokens with
      | (.ok rest, tokens) => Part.operators.read range rest tokens
      | (.error f, tokens) => (.error f, tokens) := by
  simp only [Part.read]
  rw [Parse.expression]
  cases Parse.term range text tokens with
  | ok rest tokens shorter => simp
  | failed f tokens => simp

/-- Each operator is followed by a term. -/
theorem Part.read_operators (range : Range) (text : List Char) (tokens : List Token) :
    Part.operators.read range text tokens =
      match operator? text with
      | none => (.ok text, tokens)
      | some (op, rest) =>
        match Part.term.read range rest (.ofOperator op :: tokens) with
        | (.ok rest', tokens) => Part.operators.read range rest' tokens
        | (.error f, tokens) => (.error f.afterOperator, tokens) := by
  simp only [Part.read]
  rw [Parse.operators]
  split
  · next hop => simp [hop]
  · next op rest hop =>
    simp only [hop]
    cases Parse.term range rest (.ofOperator op :: tokens) with
    | ok rest' tokens shorter => simp
    | failed f tokens => simp

/-- A term is a literal or an expression between brackets. -/
theorem Part.read_term (range : Range) (text : List Char) (tokens : List Token) :
    Part.term.read range text tokens =
      match expect? .opening text with
      | some rest =>
        match Part.expression.read range rest (.opening :: tokens) with
        | (.ok rest', tokens) =>
          match expect? .closing rest' with
          | some rest'' => (.ok rest'', .closing :: tokens)
          | none => (.error ⟨.missingClosing, skipBlanks rest'⟩, tokens)
        | (.error f, tokens) => (.error f, tokens)
      | none =>
        match integer range (skipBlanks text) with
        | .ok (numeral, rest) => (.ok rest, .operand numeral :: tokens)
        | .error f => (.error f, tokens) := by
  simp only [Part.read]
  rw [Parse.term]
  split
  · next rest hopen =>
    simp only [hopen]
    cases Parse.expression range rest (.opening :: tokens) with
    | ok rest' tokens shorter =>
      simp only [Read.forget_ok]
      split
      · next rest'' hclose => simp [hclose]
      · next hclose => simp [hclose]
    | failed f tokens => simp
  · next hopen =>
    simp only [hopen]
    split
    · next numeral rest hint => simp [hint]
    · next f hint => simp [hint]

/-- The recursive descent follows the rules, and puts what it emits in front of the
tokens read before. -/
theorem Reads.read_eq (h : Reads range part text ts r) (tokens : List Token) :
    part.read range text tokens = (r, ts.reverse ++ tokens) := by
  induction h generalizing tokens with
  | expression _ _ iht iho =>
    rw [Part.read_expression, iht]
    simp [iho]
  | expressionFailed _ iht => rw [Part.read_expression, iht]
  | operatorsEnd hop =>
    rw [Part.read_operators, hop]
    rfl
  | operator hop _ _ iht iho =>
    rw [Part.read_operators, hop]
    simp [iht, iho]
  | operatorFailed hop _ iht =>
    rw [Part.read_operators, hop]
    simp [iht]
  | scope hopen _ hclose ih =>
    rw [Part.read_term, hopen]
    simp [ih, hclose]
  | scopeUnclosed hopen _ hclose ih =>
    rw [Part.read_term, hopen]
    simp [ih, hclose]
  | scopeFailed hopen _ ih =>
    rw [Part.read_term, hopen]
    simp [ih]
  | literal hopen hint =>
    rw [Part.read_term, hopen]
    simp [hint]
  | literalFailed hopen hint =>
    rw [Part.read_term, hopen]
    simp [hint]

end IntCalc.Parse
