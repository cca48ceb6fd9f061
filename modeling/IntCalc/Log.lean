/-!
# Log records

A record has a level, the name of the part of the program it comes from
and a text.
-/

namespace IntCalc.Log

/-- The importance of a record. -/
inductive Level
  | debug
  | info
  | warning
  | error
  deriving DecidableEq, Repr

namespace Level

/-- Levels are ordered from `debug` to `error`. -/
def rank : Level → Nat
  | debug => 0
  | info => 1
  | warning => 2
  | error => 3

/-- The name of a level. -/
def name : Level → String
  | debug => "DEBUG"
  | info => "INFO"
  | warning => "WARNING"
  | error => "ERROR"

/-- Every level, least important first. -/
def all : List Level :=
  [debug, info, warning, error]

/-- The level with a given name. -/
def ofName? (s : String) : Option Level :=
  all.find? (·.name == s)

end Level

/-- One log record. -/
structure Record where
  level : Level
  logger : String
  text : String
  deriving DecidableEq, Repr

/-- The records that matter at a threshold. -/
def atLeast (threshold : Level) (records : List Record) : List Record :=
  records.filter fun r => threshold.rank ≤ r.level.rank

/-- A record on the console. -/
def Record.line (r : Record) : String :=
  r.logger ++ " - " ++ r.level.name ++ " - " ++ r.text

end IntCalc.Log
