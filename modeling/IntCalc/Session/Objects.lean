import IntCalc.Session

/-!
# Outcomes as objects

A caller can change an outcome it holds, part by part, and two outcomes may have a part in
common. In a `Store` an outcome is therefore an object that refers to its parts : what was
read, the list of its tokens, the list of its reverse Polish form, and the result.
`Store.outcome` follows the references. `Store.add` stores an outcome with new parts only,
and `Store.overwrite` changes the parts of an outcome where they are, so that any other
outcome that refers to one of them changes as well.

`ObjectSession` is a session that hands out references to its outcomes, and
`ObjectDialogue` one with the references its caller holds. What the cache refers to is
never handed out : it is a copy, and what is answered from the cache is a copy of it.
-/

namespace IntCalc

/-- The number of an object among those of its kind. -/
abbrev Place := Nat

/-- The objects of one kind. -/
structure Region (α : Type) where
  get : Place → α
  /-- The place of the next new object. -/
  next : Place := 0

namespace Region

variable {α : Type} {r : Region α} {p q : Place} {a : α}

/-- Adds a new object, at the place `next`. -/
def add (r : Region α) (a : α) : Region α :=
  ⟨fun p => if p = r.next then a else r.get p, r.next + 1⟩

/-- Changes an object where it is. -/
def set (r : Region α) (p : Place) (a : α) : Region α :=
  ⟨fun q => if q = p then a else r.get q, r.next⟩

@[simp] theorem next_add : (r.add a).next = r.next + 1 :=
  rfl

@[simp] theorem next_set : (r.set p a).next = r.next :=
  rfl

@[simp] theorem get_add_next : (r.add a).get r.next = a :=
  if_pos rfl

/-- The others stay as they are. -/
theorem get_add_of_lt (h : p < r.next) : (r.add a).get p = r.get p :=
  if_neg (Nat.ne_of_lt h)

@[simp] theorem get_set_self : (r.set p a).get p = a :=
  if_pos rfl

theorem get_set_of_ne (h : q ≠ p) : (r.set p a).get q = r.get q :=
  if_neg h

end Region

/-- What was read of a text, with a reference to the list of its tokens. -/
structure ParseObject where
  status : ParseStatus
  column : Int
  tokens : Place
  deriving DecidableEq, Repr

/-- An outcome, with references to its parts. -/
structure OutcomeObject where
  expression : String
  parse : Place
  rpn : Place
  eval : Option Place
  deriving DecidableEq, Repr

/-- The objects of every kind. -/
structure Store where
  lists : Region (List Token) := ⟨fun _ => [], 0⟩
  parses : Region ParseObject := ⟨fun _ => ⟨.ok, 0, 0⟩, 0⟩
  evals : Region EvalResult := ⟨fun _ => ⟨0, .ok⟩, 0⟩
  outcomes : Region OutcomeObject := ⟨fun _ => ⟨"", 0, 0, none⟩, 0⟩

namespace Store

/-- The outcome at a place, with its parts as they are now. -/
def outcome (s : Store) (p : Place) : Outcome :=
  let object := s.outcomes.get p
  let parse := s.parses.get object.parse
  { expression := object.expression
    parse := ⟨parse.status, parse.column, s.lists.get parse.tokens⟩
    rpn := s.lists.get object.rpn
    eval := object.eval.map s.evals.get }

/-- Stores an outcome with new parts, at the next place for outcomes. -/
def add (s : Store) (o : Outcome) : Store where
  lists := (s.lists.add o.parse.tokens).add o.rpn
  parses := s.parses.add ⟨o.parse.status, o.parse.column, s.lists.next⟩
  evals := match o.eval with
    | none => s.evals
    | some r => s.evals.add r
  outcomes := s.outcomes.add
    ⟨o.expression, s.parses.next, s.lists.next + 1, o.eval.map fun _ => s.evals.next⟩

/-- Copies an outcome. The copy has no part in common with it. -/
def copy (s : Store) (p : Place) : Store :=
  s.add (s.outcome p)

/-- Changes an outcome into `o`, each part where it is. -/
def overwrite (s : Store) (p : Place) (o : Outcome) : Store :=
  let object := s.outcomes.get p
  let parse := s.parses.get object.parse
  { lists := (s.lists.set parse.tokens o.parse.tokens).set object.rpn o.rpn
    parses := s.parses.set object.parse ⟨o.parse.status, o.parse.column, parse.tokens⟩
    evals := match object.eval, o.eval with
      | _, none => s.evals
      | none, some r => s.evals.add r
      | some e, some r => s.evals.set e r
    outcomes := s.outcomes.set p
      ⟨o.expression, object.parse, object.rpn, o.eval.map fun _ => object.eval.getD s.evals.next⟩ }

end Store

/-- A session whose outcomes are objects. -/
structure ObjectSession where
  calculator : Calculator
  store : Store := {}
  cache : Cache String Place

namespace ObjectSession

/-- The place of the outcome of a text, and the session after it. A new outcome is handed
out and a copy of it goes to the cache, which keeps it if it stores anything. A cached one
stays where it is and a copy of it is handed out. -/
def evaluate (s : ObjectSession) (text : String) : Except EvaluationError (Place × ObjectSession) :=
  match s.cache.hit? text with
  | some (p, cache) =>
    .ok (s.store.outcomes.next, { s with store := s.store.copy p, cache := cache })
  | none => do
    let outcome ← s.calculator.evaluate text
    let store := s.store.add outcome
    return (s.store.outcomes.next,
      { s with
        store := store.copy s.store.outcomes.next
        cache := s.cache.miss text store.outcomes.next })

/-- The outcome that a text is answered with. -/
def answer (s : ObjectSession) (text : String) : Except EvaluationError Outcome :=
  (s.evaluate text).map fun (p, s) => s.store.outcome p

/-- The places of the outcomes of texts in order, and the session after them. -/
def evaluateAll (s : ObjectSession) :
    List String → Except EvaluationError (List Place × ObjectSession)
  | [] => return ([], s)
  | text :: texts => do
    let (place, s) ← s.evaluate text
    let (places, s) ← s.evaluateAll texts
    return (place :: places, s)

theorem evaluateAll_cons {s s' s'' : ObjectSession} {text : String} {texts : List String}
    {p : Place} {ps : List Place} (h : s.evaluate text = .ok (p, s'))
    (hrest : s'.evaluateAll texts = .ok (ps, s'')) :
    s.evaluateAll (text :: texts) = .ok (p :: ps, s'') := by
  rw [evaluateAll, h]
  show (s'.evaluateAll texts >>= _) = _
  rw [hrest]
  rfl

end ObjectSession

/-- A session whose outcomes are objects, and the places of those its caller holds, latest
first. -/
structure ObjectDialogue where
  session : ObjectSession
  held : List Place := []

namespace ObjectDialogue

/-- The start of a dialogue with a calculator, at the cache size `n`. -/
def start (c : Calculator) (n : Int) : ObjectDialogue :=
  ⟨{ calculator := c, cache := { capacity := n } }, []⟩

/-- The outcomes a command answers with, as they are then, and the dialogue after it. A
caller changes an outcome it holds where it is. -/
def run (d : ObjectDialogue) : Command → Except EvaluationError (List Outcome × ObjectDialogue)
  | .evaluate text => do
    let (place, session) ← d.session.evaluate text
    return ([session.store.outcome place], ⟨session, place :: d.held⟩)
  | .evaluateAll texts => do
    let (places, session) ← d.session.evaluateAll texts
    return (places.map session.store.outcome, ⟨session, places.reverse ++ d.held⟩)
  | .clear => return ([], { d with session.cache := d.session.cache.clear })
  | .resize n => return ([], { d with session.cache := d.session.cache.resize n })
  | .edit index change =>
    match d.held[index]? with
    | none => return ([], d)
    | some p =>
      let store := d.session.store.overwrite p (change (d.session.store.outcome p))
      return ([store.outcome p], { d with session.store := store })

/-- The answers to a list of commands, and the dialogue after them. -/
def runAll (d : ObjectDialogue) :
    List Command → Except EvaluationError (List (List Outcome) × ObjectDialogue)
  | [] => return ([], d)
  | command :: commands => do
    let (answer, d) ← d.run command
    let (answers, d) ← d.runAll commands
    return (answer :: answers, d)

theorem runAll_cons {d d' d'' : ObjectDialogue} {command : Command} {commands : List Command}
    {answer : List Outcome} {answers : List (List Outcome)} (h : d.run command = .ok (answer, d'))
    (hrest : d'.runAll commands = .ok (answers, d'')) :
    d.runAll (command :: commands) = .ok (answer :: answers, d'') := by
  rw [runAll, h]
  show (d'.runAll commands >>= _) = _
  rw [hrest]
  rfl

end ObjectDialogue

end IntCalc
