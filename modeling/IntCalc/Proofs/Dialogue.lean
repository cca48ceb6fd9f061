import IntCalc.Proofs.Cache
import IntCalc.Proofs.Pipeline
import IntCalc.Session.History
import Mathlib.Data.List.Forall2

/-!
# Dialogues

As long as the cache of a session agrees with the outcomes of its calculator, a text is
answered with its outcome whether or not it is cached (`Session.evaluate_eq_ok`), and the
cache agrees after any command. So no dialogue fails : its answers are the outcomes of
what was asked, and its cache is that of the same commands on their outcomes alone
(`Dialogue.runAll_start`).

Every text has an outcome at the end of every dialogue, and none of the failures behind
the parser can arise (`Dialogue.exists_outcome`).
-/

namespace IntCalc

variable {c : Calculator} {s : Session} {d : Dialogue}

/-! ## Sessions -/

namespace Session

/-- Every cached outcome is that of its text. -/
def Faithful (s : Session) : Prop :=
  s.cache.Agrees s.calculator.outcome

/-- A faithful session answers with the outcome of the text. -/
theorem evaluate_eq_ok (h : s.Faithful) (text : String) :
    s.evaluate text = .ok (s.calculator.outcome text,
      { s with cache := s.cache.use text (s.calculator.outcome text) }) := by
  unfold evaluate Cache.use
  cases hhit : s.cache.hit? text with
  | some answer =>
    obtain ⟨o, cache⟩ := answer
    simp [Cache.Agrees.eq_of_hit? h hhit]
  | none =>
    simp only [s.calculator.evaluate_eq_ok text]
    rfl

/-- So it does for one text after another. -/
theorem evaluateAll_eq_ok (h : s.Faithful) (texts : List String) :
    s.evaluateAll texts = .ok (texts.map s.calculator.outcome,
      { s with cache := s.cache.useAll s.calculator.outcome texts }) := by
  induction texts generalizing s with
  | nil => rfl
  | cons text texts ih =>
    exact evaluateAll_cons (evaluate_eq_ok h text)
      (ih (s := { s with cache := s.cache.use text (s.calculator.outcome text) })
        (Cache.Agrees.use h text))

end Session

/-! ## Commands -/

namespace Command

/-- The cache after a command, for known values of the texts. -/
def cacheAfter {ν : Type} (value : String → ν) (cache : Cache String ν) :
    Command → Cache String ν
  | .evaluate text => cache.use text (value text)
  | .evaluateAll texts => cache.useAll value texts
  | .clear => cache.clear
  | .resize n => cache.resize n
  | .edit _ _ => cache

theorem agrees_cacheAfter {ν : Type} {value : String → ν} {cache : Cache String ν}
    (h : cache.Agrees value) (command : Command) :
    (command.cacheAfter value cache).Agrees value := by
  cases command with
  | evaluate text => exact h.use text
  | evaluateAll texts => exact h.useAll texts
  | clear => exact Cache.agrees_empty value _
  | resize n => exact h
  | edit index change => exact h

theorem agrees_foldl {ν : Type} {value : String → ν} {cache : Cache String ν}
    (h : cache.Agrees value) (commands : List Command) :
    (commands.foldl (cacheAfter value) cache).Agrees value := by
  induction commands generalizing cache with
  | nil => exact h
  | cons command commands ih => exact ih (agrees_cacheAfter h command)

/-- The answer to a command is what the calculator says to it. An outcome that the caller
has changed is not the calculator's. -/
def Answered (c : Calculator) (command : Command) (answer : List Outcome) : Prop :=
  (∃ index change, command = .edit index change) ∨ History.spoken c command = .ok answer

theorem mapM_evaluate (c : Calculator) (texts : List String) :
    texts.mapM c.evaluate = .ok (texts.map c.outcome) := by
  induction texts with
  | nil => rfl
  | cons text texts ih =>
    rw [List.mapM_cons, c.evaluate_eq_ok, ih]
    rfl

end Command

/-! ## Dialogues -/

namespace Dialogue

/-- A command is answered by the calculator, and its cache is known. -/
theorem run_eq_ok (h : d.session.Faithful) (command : Command) :
    ∃ answer held, d.run command = .ok (answer, ⟨{ d.session with
        cache := command.cacheAfter d.session.calculator.outcome d.session.cache }, held⟩) ∧
      command.Answered d.session.calculator answer := by
  cases command with
  | evaluate text =>
    refine ⟨[d.session.calculator.outcome text], d.session.calculator.outcome text :: d.held,
      ?_, Or.inr ?_⟩
    · rw [run, Session.evaluate_eq_ok h]
      rfl
    · rw [History.spoken, d.session.calculator.evaluate_eq_ok]
      rfl
  | evaluateAll texts =>
    refine ⟨texts.map d.session.calculator.outcome,
      (texts.map d.session.calculator.outcome).reverse ++ d.held, ?_, Or.inr ?_⟩
    · rw [run, Session.evaluateAll_eq_ok h]
      rfl
    · exact Command.mapM_evaluate d.session.calculator texts
  | clear => exact ⟨[], d.held, rfl, Or.inr rfl⟩
  | resize n => exact ⟨[], d.held, rfl, Or.inr rfl⟩
  | edit index change => exact ⟨_, _, rfl, Or.inl ⟨index, change, rfl⟩⟩

/-- So are all commands of a dialogue. -/
theorem runAll_eq_ok (h : d.session.Faithful) (commands : List Command) :
    ∃ answers held, d.runAll commands = .ok (answers, ⟨{ d.session with
        cache := commands.foldl (Command.cacheAfter d.session.calculator.outcome)
          d.session.cache }, held⟩) ∧
      List.Forall₂ (Command.Answered d.session.calculator) commands answers := by
  induction commands generalizing d with
  | nil => exact ⟨[], d.held, rfl, .nil⟩
  | cons command commands ih =>
    obtain ⟨answer, held, hrun, hanswer⟩ := run_eq_ok h command
    obtain ⟨answers, held', hrest, hanswers⟩ := ih (d := ⟨{ d.session with
      cache := command.cacheAfter d.session.calculator.outcome d.session.cache }, held⟩)
      (Command.agrees_cacheAfter h command)
    exact ⟨answer :: answers, held', runAll_cons hrun hrest, .cons hanswer hanswers⟩

/-- The cache after commands that begin with an empty one of the size `n`. -/
def cacheOf (c : Calculator) (n : Int) (commands : List Command) : Cache String Outcome :=
  commands.foldl (Command.cacheAfter c.outcome) { capacity := n }

theorem agrees_cacheOf (c : Calculator) (n : Int) (commands : List Command) :
    (cacheOf c n commands).Agrees c.outcome :=
  Command.agrees_foldl (Cache.agrees_empty _ n) commands

/-- With that cache a text is answered with its outcome. -/
theorem evaluate_cacheOf (c : Calculator) (n : Int) (commands : List Command) (text : String) :
    (Session.mk c (cacheOf c n commands)).evaluate text =
      .ok (c.outcome text, ⟨c, (cacheOf c n commands).use text (c.outcome text)⟩) :=
  Session.evaluate_eq_ok (s := ⟨c, cacheOf c n commands⟩) (agrees_cacheOf c n commands) text

/-- A dialogue ends with the cache of its commands, and each command is answered by the
calculator. -/
theorem runAll_start (c : Calculator) (n : Int) (commands : List Command) :
    ∃ answers held, (start c n).runAll commands =
        .ok (answers, ⟨⟨c, cacheOf c n commands⟩, held⟩) ∧
      List.Forall₂ (Command.Answered c) commands answers :=
  runAll_eq_ok (d := start c n) (Cache.agrees_empty _ n) commands

/-- An accepted text is converted to well-formed reverse Polish form and evaluated without
a failure. At the end of every dialogue every text has an outcome, which ends with the
parser exactly if the text is not accepted and then has nothing else. -/
theorem exists_outcome (c : Calculator) (text : String) :
    ((c.parse text).ok → ∃ rpn result, toRpn (c.parse text).tokens = .ok rpn ∧
      Tokens.wellFormed rpn ∧ c.evaluator.evaluate rpn = .ok result) ∧
    ∀ n commands, ∃ answers d o s, (start c n).runAll commands = .ok (answers, d) ∧
      d.session.evaluate text = .ok (o, s) ∧ o.expression = text ∧ o.parse = c.parse text ∧
      (o.stage = .parse ↔ ¬(c.parse text).ok) ∧
      (o.stage = .parse → o.rpn = [] ∧ o.eval = none) := by
  refine ⟨fun h => ?_, fun n commands => ?_⟩
  · obtain ⟨rpn, result, hrpn, hform, hresult, -⟩ := Calculator.exists_outcome_of_ok h
    exact ⟨rpn, result, hrpn, hform, hresult⟩
  · obtain ⟨answers, held, hrun, -⟩ := runAll_start c n commands
    refine ⟨answers, _, _, _, hrun, evaluate_cacheOf c n commands text, ?_⟩
    by_cases h : (c.parse text).ok
    · obtain ⟨rpn, result, -, -, -, ho⟩ := Calculator.exists_outcome_of_ok h
      simp [ho, Outcome.stage, h]
    · simp [Calculator.outcome_of_not_ok h, Outcome.stage, h]

end Dialogue

end IntCalc
