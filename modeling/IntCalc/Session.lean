import IntCalc.Cache
import IntCalc.Calculator

/-!
# Sessions

A `Session` is a calculator with a cache of outcomes. `Session.evaluate`
answers from the cache if it can. A caller may change an outcome it was
given; the session is a value of its own and is not touched by that.

`Command` lists what a caller can do, and `Dialogue` is a session together
with the outcomes the caller holds.
-/

namespace IntCalc

/-- A calculator with a cache of the outcomes of texts. -/
structure Session where
  calculator : Calculator := {}
  cache : Cache String Outcome := { capacity := Settings.default.cacheSize }
  deriving DecidableEq, Repr

namespace Session

/-- A session with a given cache size. -/
def ofCacheSize (n : Int) : Session :=
  { cache := { capacity := n } }

/-- The outcome of a text, and the session after it. -/
def evaluate (s : Session) (text : String) : Except EvaluationError (Outcome × Session) :=
  match s.cache.hit? text with
  | some (outcome, cache) => .ok (outcome, { s with cache := cache })
  | none => do
    let outcome ← s.calculator.evaluate text
    return (outcome, { s with cache := s.cache.miss text outcome })

/-- The outcomes of texts in order, and the session after them. -/
def evaluateAll (s : Session) : List String → Except EvaluationError (List Outcome × Session)
  | [] => return ([], s)
  | text :: texts => do
    let (outcome, s) ← s.evaluate text
    let (outcomes, s) ← s.evaluateAll texts
    return (outcome :: outcomes, s)

theorem evaluateAll_cons {s s' s'' : Session} {text : String} {texts : List String} {o : Outcome}
    {os : List Outcome} (h : s.evaluate text = .ok (o, s'))
    (hrest : s'.evaluateAll texts = .ok (os, s'')) :
    s.evaluateAll (text :: texts) = .ok (o :: os, s'') := by
  rw [evaluateAll, h]
  show (s'.evaluateAll texts >>= _) = _
  rw [hrest]
  rfl

/-- Empties the cache and sets its counters to zero. -/
def clear (s : Session) : Session :=
  { s with cache := s.cache.clear }

/-- Changes the cache size. -/
def resize (s : Session) (n : Int) : Session :=
  { s with cache := s.cache.resize n }

/-! ## Log records -/

/-- The records of evaluating a text. -/
def evaluateRecords (s : Session) (text : String) : List Log.Record :=
  match s.cache.hit? text with
  | some _ =>
    [⟨.debug, "pipeline.evaluator", "Cache hit for expression: " ++ Text.truncate 50 text⟩]
  | none => s.calculator.records text

/-- The records of evaluating texts in order. -/
def evaluateAllRecords (s : Session) : List String → List Log.Record
  | [] => []
  | text :: texts =>
    s.evaluateRecords text ++
      match s.evaluate text with
      | .error _ => []
      | .ok (_, s) => s.evaluateAllRecords texts

/-- The record of emptying the cache. -/
def clearRecord (s : Session) : Log.Record :=
  ⟨.info, "pipeline.evaluator",
    "Cache cleared. Hits: " ++ Numeral.ofInt s.cache.hits ++ ", Misses: " ++
      Numeral.ofInt s.cache.misses⟩

end Session

/-- What the caller of a session can do. -/
inductive Command
  | evaluate (text : String)
  | evaluateAll (texts : List String)
  | clear
  | resize (n : Int)
  /-- Changes an outcome the caller holds. -/
  | edit (index : Nat) (change : Outcome → Outcome)

/-- A session and the outcomes its caller holds, latest first. -/
structure Dialogue where
  session : Session
  held : List Outcome := []

namespace Dialogue

/-- The start of a dialogue with a calculator, at the cache size `n`. -/
def start (c : Calculator) (n : Int) : Dialogue :=
  ⟨{ calculator := c, cache := { capacity := n } }, []⟩

/-- The outcomes a command answers with, and the dialogue after it. -/
def run (d : Dialogue) : Command → Except EvaluationError (List Outcome × Dialogue)
  | .evaluate text => do
    let (outcome, session) ← d.session.evaluate text
    return ([outcome], ⟨session, outcome :: d.held⟩)
  | .evaluateAll texts => do
    let (outcomes, session) ← d.session.evaluateAll texts
    return (outcomes, ⟨session, outcomes.reverse ++ d.held⟩)
  | .clear => return ([], { d with session := d.session.clear })
  | .resize n => return ([], { d with session := d.session.resize n })
  | .edit index change =>
    let held := d.held.modify index change
    return (held[index]?.toList, { d with held := held })

/-- The log records of a command. -/
def records (d : Dialogue) : Command → List Log.Record
  | .evaluate text => d.session.evaluateRecords text
  | .evaluateAll texts => d.session.evaluateAllRecords texts
  | .clear => [d.session.clearRecord]
  | .resize _ => []
  | .edit _ _ => []

/-- The answers to a list of commands, and the dialogue after them. -/
def runAll (d : Dialogue) : List Command → Except EvaluationError (List (List Outcome) × Dialogue)
  | [] => return ([], d)
  | command :: commands => do
    let (answer, d) ← d.run command
    let (answers, d) ← d.runAll commands
    return (answer :: answers, d)

theorem runAll_cons {d d' d'' : Dialogue} {command : Command} {commands : List Command}
    {answer : List Outcome} {answers : List (List Outcome)} (h : d.run command = .ok (answer, d'))
    (hrest : d'.runAll commands = .ok (answers, d'')) :
    d.runAll (command :: commands) = .ok (answer :: answers, d'') := by
  rw [runAll, h]
  show (d'.runAll commands >>= _) = _
  rw [hrest]
  rfl

end Dialogue

end IntCalc
