import IntCalc.Proofs.Dialogue
import IntCalc.Proofs.Messages
import IntCalc.Proofs.Reports

/-!
# The message tells the result

A message tells one of three things (`Verdict`) : a value, a fault of the evaluation, or an error
of the parser with its column. A value has no space in it and only an error has a bracket, so
the three are told apart. The words in front of the bracket tell which error it is, and the
decimal form behind it tells the column (`Verdict.eq_of_message_eq`).

What a calculator says to a text never ends with the parser unless that found an error
(`Calculator.proper_verdict`). So two texts with the same message have the same result, whoever
evaluates them (`Dialogue.message_determines_result`).
-/

namespace IntCalc

open Text

variable {c : Calculator} {text : String} {o o' : Outcome} {n : Int}

/-! ## Decimal forms -/

namespace Numeral

theorem space_not_mem_ofInt (n : Int) : ' ' ∉ (ofInt n).toList :=
  fun h => absurd (eq_minus_or_isDigit h) (by decide)

theorem opening_not_mem_ofInt (n : Int) : '(' ∉ (ofInt n).toList :=
  fun h => absurd (eq_minus_or_isDigit h) (by decide)

end Numeral

/-! ## Words -/

/-- What is told about an error of the parser in front of its column. -/
def ParseStatus.words : ParseStatus → String
  | ok => ""
  | unexpectedEnd => "Unexpected end of input"
  | illFormedInteger => "Ill formed integer"
  | missingTerm => "Missing <term>"
  | extraneousSymbol => "Extraneous symbol after valid expression found"
  | missingClosing => "Missing closing \")\""
  | integerOutOfRange => "Integer constant out of range beginning"

theorem ParseStatus.find?_words (status : ParseStatus) :
    all.find? (·.words == status.words) = some status := by
  cases status <;> decide

theorem ParseStatus.words_injective : Function.Injective ParseStatus.words := by
  intro status status' h
  exact Option.some.inj (by rw [← find?_words status, h, find?_words status'])

theorem ParseStatus.opening_not_mem_words (status : ParseStatus) : '(' ∉ status.words.toList := by
  cases status <;> decide

/-- The message of an error names its column behind its words. -/
theorem ParseResult.message_eq {r : ParseResult} (h : r.status ≠ .ok) :
    r.message = r.status.words ++ " at column (" ++ Numeral.ofInt r.shownColumn ++ ")!" := by
  have hcolumn : " at column (" = " at column " ++ "(" := by decide
  have hassoc : ∀ column : String, r.status.words ++ " at column (" ++ column ++ ")!" =
      (r.status.words ++ " at column ") ++ ("(" ++ column ++ ")!") := by
    simp only [hcolumn, String.append_assoc, implies_true]
  rw [hassoc, message]
  cases hstatus : r.status with
  | ok => exact absurd hstatus h
  | _ => exact congrArg (· ++ _) (by decide)

theorem EvalStatus.find?_message (status : EvalStatus) :
    all.find? (·.message == status.message) = some status := by
  cases status <;> decide

theorem EvalStatus.message_injective : Function.Injective EvalStatus.message := by
  intro status status' h
  exact Option.some.inj (by rw [← find?_message status, h, find?_message status'])

/-! ## What is told -/

/-- What the message of an outcome tells. -/
inductive Verdict
  | value (n : Int)
  | fault (status : EvalStatus)
  | error (status : ParseStatus) (column : Int)

namespace Verdict

variable {v w : Verdict}

/-- The line shown for it. -/
def message : Verdict → String
  | value n => Numeral.ofInt n
  | fault status => status.message
  | error status column => (ParseResult.mk status column []).message

/-- No fault and no error has the status of success. -/
def Proper : Verdict → Prop
  | value _ => True
  | fault status => status ≠ .ok
  | error status _ => status ≠ .ok

/-- The words of an error stand in front of a bracket and the column behind it. -/
theorem toList_message_error {status : ParseStatus} (h : status ≠ .ok) (column : Int) :
    (error status column).message.toList = (status.words ++ " at column ").toList ++
      '(' :: (Numeral.ofInt (column + 1) ++ ")!").toList := by
  rw [message, ParseResult.message_eq h]
  simp [ParseResult.shownColumn]

/-- Only a value is told without a space. -/
theorem space_not_mem_message_iff (hv : v.Proper) :
    ' ' ∉ v.message.toList ↔ ∃ n, v = .value n := by
  cases v with
  | value n => exact iff_of_true (Numeral.space_not_mem_ofInt n) ⟨n, rfl⟩
  | fault status =>
    refine iff_of_false (not_not.2 ?_) (by simp)
    cases status <;> decide
  | error status column =>
    refine iff_of_false (not_not.2 ?_) (by simp)
    rw [toList_message_error hv]
    simp

/-- Only an error is told with a bracket. -/
theorem opening_mem_message_iff (hv : v.Proper) :
    '(' ∈ v.message.toList ↔ ∃ status column, v = .error status column := by
  cases v with
  | value n => exact iff_of_false (Numeral.opening_not_mem_ofInt n) (by simp)
  | fault status =>
    refine iff_of_false ?_ (by simp)
    cases status <;> decide
  | error status column =>
    refine iff_of_true ?_ ⟨status, column, rfl⟩
    rw [toList_message_error hv]
    simp

/-- An error and its column are told by the words and the number. -/
theorem error_eq_of_message_eq {status status' : ParseStatus} {column column' : Int}
    (hv : (error status column).Proper) (hw : (error status' column').Proper)
    (h : (error status column).message = (error status' column').message) :
    error status column = error status' column' := by
  have hfront : '(' ∉ (status.words ++ " at column ").toList := by
    simpa using status.opening_not_mem_words
  have hback : '(' ∉ (Numeral.ofInt (column + 1) ++ ")!").toList := by
    simpa using Numeral.opening_not_mem_ofInt (column + 1)
  have hlist := congrArg String.toList h
  rw [toList_message_error hv, toList_message_error hw] at hlist
  obtain ⟨hwords, -, hcolumn⟩ := (List.append_cons_inj_of_notMem hfront hback).1 hlist
  have hstatus := ParseStatus.words_injective
    ((String.append_left_inj _).1 (String.toList_inj.1 hwords))
  have hshown := Numeral.ofInt_injective
    ((String.append_left_inj _).1 (String.toList_inj.1 hcolumn))
  rw [hstatus, (Int.add_left_inj 1).1 hshown]

/-- What is told is determined by the message. -/
theorem eq_of_message_eq (hv : v.Proper) (hw : w.Proper) (h : v.message = w.message) : v = w := by
  have hvalue := space_not_mem_message_iff hv
  have herror := opening_mem_message_iff hv
  rw [h, space_not_mem_message_iff hw] at hvalue
  rw [h, opening_mem_message_iff hw] at herror
  cases v with
  | value n =>
    obtain ⟨m, rfl⟩ := hvalue.2 ⟨n, rfl⟩
    rw [Numeral.ofInt_injective h]
  | fault status =>
    cases w with
    | value m => simp at hvalue
    | fault status' => rw [EvalStatus.message_injective h]
    | error status' column' => simp at herror
  | error status column =>
    obtain ⟨status', column', rfl⟩ := herror.2 ⟨status, column, rfl⟩
    exact error_eq_of_message_eq hv hw h

/-- No text with a space and without a bracket is a message, unless it is that of a fault. -/
theorem message_ne {text : String} (hv : v.Proper) (hspace : ' ' ∈ text.toList)
    (hopening : '(' ∉ text.toList) (hfault : ∀ status : EvalStatus, status ≠ .ok →
      text ≠ status.message) : v.message ≠ text := by
  rintro rfl
  cases v with
  | value n => exact Numeral.space_not_mem_ofInt n hspace
  | fault status => exact hfault status hv rfl
  | error status column => exact hopening ((opening_mem_message_iff hv).2 ⟨status, column, rfl⟩)

/-- The texts for unknown errors are no messages. -/
theorem message_ne_unhandled (hv : v.Proper) :
    v.message ≠ ">>> Unhandled error found!" ∧ v.message ≠ "Unhandled error found!" := by
  refine ⟨message_ne hv (by decide) (by decide) fun status _ => ?_,
    message_ne hv (by decide) (by decide) fun status hstatus h => ?_⟩
  · cases status <;> decide
  · have hok : EvalStatus.ok.message = status.message := h
    exact hstatus (EvalStatus.message_injective hok).symm

end Verdict

/-! ## Outcomes -/

namespace Outcome

/-- What the message of an outcome tells. -/
def verdict (o : Outcome) : Verdict :=
  match o.eval with
  | none => .error o.parse.status o.parse.column
  | some r => if r.ok then .value r.value else .fault r.status

theorem message_eq_verdict (o : Outcome) : o.message = o.verdict.message := by
  unfold message verdict
  cases o.eval with
  | none => rfl
  | some r =>
    dsimp only
    split <;> rfl

theorem verdict_eq_value_iff : o.verdict = .value n ↔ o.value = some n := by
  unfold verdict value
  cases o.eval with
  | none => simp
  | some r =>
    dsimp only
    split <;> simp

/-- The result of an outcome is what its message tells. -/
theorem result_eq_of_verdict_eq (h : o.verdict = o'.verdict) :
    o.stage = o'.stage ∧ o.statusName = o'.statusName ∧ o.column = o'.column ∧
      o.value = o'.value := by
  unfold verdict at h
  unfold stage statusName column value
  cases heval : o.eval with
  | none =>
    cases heval' : o'.eval with
    | none => simp_all
    | some r' =>
      simp only [heval, heval'] at h
      split at h <;> cases h
  | some r =>
    cases heval' : o'.eval with
    | none =>
      simp only [heval, heval'] at h
      split at h <;> cases h
    | some r' =>
      simp only [heval, heval'] at h
      split at h <;> split at h <;> simp_all [EvalResult.ok]

end Outcome

namespace Calculator

/-- What ends with the parser is an error, and what is no value is a fault. -/
theorem proper_verdict (c : Calculator) (text : String) : (c.outcome text).verdict.Proper := by
  by_cases hok : (c.parse text).ok
  · obtain ⟨rpn, result, -, -, -, ho⟩ := exists_outcome_of_ok hok
    rw [ho, Outcome.verdict]
    dsimp only
    split
    · trivial
    · next hfault => exact mt EvalResult.ok_iff.2 hfault
  · rw [outcome_of_not_ok hok]
    exact mt ParseResult.ok_iff.2 hok

/-- Outcomes with the same message have the same result. -/
theorem result_eq_of_message_eq {c' : Calculator} {text' : String}
    (h : (c.outcome text).message = (c'.outcome text').message) :
    (c.outcome text).stage = (c'.outcome text').stage ∧
      (c.outcome text).statusName = (c'.outcome text').statusName ∧
      (c.outcome text).column = (c'.outcome text').column ∧
      (c.outcome text).value = (c'.outcome text').value := by
  rw [Outcome.message_eq_verdict, Outcome.message_eq_verdict] at h
  exact Outcome.result_eq_of_verdict_eq
    (Verdict.eq_of_message_eq (c.proper_verdict text) (c'.proper_verdict text') h)

/-- The message is the decimal form of the value, and otherwise of no number. -/
theorem message_eq_ofInt_iff :
    (c.outcome text).message = Numeral.ofInt n ↔ (c.outcome text).value = some n := by
  rw [Outcome.message_eq_verdict, ← Outcome.verdict_eq_value_iff]
  refine ⟨fun h => ?_, fun h => by rw [h, Verdict.message]⟩
  exact Verdict.eq_of_message_eq (w := .value n) (c.proper_verdict text) trivial h

/-- The message of a syntax error ends with its column, which is that of a character of the
text or of its end. -/
theorem exists_column_of_stage (h : (c.outcome text).stage = .parse) :
    ∃ words column, (c.outcome text).message =
        words ++ " at column (" ++ Numeral.ofInt column ++ ")!" ∧
      (c.outcome text).shownColumn = some column ∧ 1 ≤ column ∧ column ≤ text.length + 1 := by
  have hok : ¬(c.parse text).ok := by
    intro hok
    obtain ⟨rpn, result, -, -, -, ho⟩ := exists_outcome_of_ok hok
    rw [ho] at h
    cases h
  have hstatus : (c.parse text).status ≠ .ok := mt ParseResult.ok_iff.2 hok
  have hcolumn : (c.outcome text).shownColumn = some (c.parse text).shownColumn := by
    rw [outcome_of_not_ok hok]
    rfl
  obtain ⟨hpos, hle⟩ := shownColumn_outcome hcolumn
  refine ⟨(c.parse text).status.words, _, ?_, hcolumn, hpos, hle⟩
  rw [outcome_of_not_ok hok]
  exact ParseResult.message_eq hstatus

end Calculator

/-! ## Dialogues -/

/-- Any two evaluators, whatever they have been asked before, say the same to two texts only if
the texts have the same stage, status, column and value. A text that has a value is answered
with its decimal form and no other text with that of a number. No answer is one of the texts
for unknown errors, each is one line, and that for a syntax error names a column from one to
one more than the length of the text. -/
theorem Dialogue.message_determines_result (c c' : Calculator) (n n' : Int)
    (commands commands' : List Command) (text text' : String) :
    ∃ answers d answers' d' o s o' s',
      (start c n).runAll commands = .ok (answers, d) ∧ d.session.evaluate text = .ok (o, s) ∧
      (start c' n').runAll commands' = .ok (answers', d') ∧
      d'.session.evaluate text' = .ok (o', s') ∧
      (o.message = o'.message → o.stage = o'.stage ∧ o.statusName = o'.statusName ∧
        o.column = o'.column ∧ o.value = o'.value) ∧
      (o.ok ↔ ∃ m, o.message = Numeral.ofInt m) ∧
      (∀ m, o.message = Numeral.ofInt m ↔ o.value = some m) ∧
      o.message ≠ ">>> Unhandled error found!" ∧ o.message ≠ "Unhandled error found!" ∧
      IsLine o.message.toList ∧
      (o.stage = .parse → ∃ words column,
        o.message = words ++ " at column (" ++ Numeral.ofInt column ++ ")!" ∧
          o.shownColumn = some column ∧ 1 ≤ column ∧ column ≤ text.length + 1) := by
  obtain ⟨answers, held, hrun, -⟩ := runAll_start c n commands
  obtain ⟨answers', held', hrun', -⟩ := runAll_start c' n' commands'
  have hunhandled := Verdict.message_ne_unhandled (c.proper_verdict text)
  rw [← Outcome.message_eq_verdict] at hunhandled
  refine ⟨answers, _, answers', _, _, _, _, _, hrun, evaluate_cacheOf c n commands text, hrun',
    evaluate_cacheOf c' n' commands' text', Calculator.result_eq_of_message_eq, ?_,
    fun m => Calculator.message_eq_ofInt_iff, hunhandled.1, hunhandled.2,
    (c.outcome text).isLine_message, Calculator.exists_column_of_stage⟩
  simp only [Calculator.message_eq_ofInt_iff, Outcome.ok, Option.isSome_iff_exists]

end IntCalc
