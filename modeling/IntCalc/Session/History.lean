import IntCalc.Cache.History
import IntCalc.Session

/-!
# What a session has been asked

`History.texts` lists the texts a list of commands evaluates after the last
time it empties the cache, and `History.sizes` the cache sizes that were in
force in that time. `History.spoken` goes by the outcomes of the calculator
alone: it lists what each command of a dialogue is answered with when
nothing is kept in a cache.
-/

namespace IntCalc.History

/-- The texts evaluated since the last clearing, after one more command. -/
def textsStep (texts : List String) : Command → List String
  | .evaluate text => texts ++ [text]
  | .evaluateAll more => texts ++ more
  | .clear => []
  | .resize _ => texts
  | .edit _ _ => texts

/-- The texts evaluated since the last clearing, in order. -/
def texts (commands : List Command) : List String :=
  commands.foldl textsStep []

/-- The sizes in force since the last clearing, latest first, after one more
command. -/
def sizesStep (sizes : List Int) : Command → List Int
  | .clear => sizes.take 1
  | .resize n => n :: sizes
  | _ => sizes

/-- The cache sizes in force since the last clearing, latest first, for a
session that starts with the size `initial`. -/
def sizes (initial : Int) (commands : List Command) : List Int :=
  commands.foldl sizesStep [initial]

/-- The answer to a command that evaluates, without a cache. -/
def spoken (c : Calculator) : Command → Except EvaluationError (List Outcome)
  | .evaluate text => (c.evaluate text).map ([·])
  | .evaluateAll texts => texts.mapM c.evaluate
  | _ => .ok []

end IntCalc.History
