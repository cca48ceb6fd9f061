import IntCalc.Files
import IntCalc.Log
import IntCalc.Outcome

/-!
# Reports

A report has one `Row` for each outcome. A `TableLibrary` makes a table of
the rows and saves it: what it does is not part of the program, which hands
over the rows and names the place. `Report.header` are the names of the
columns.
-/

namespace IntCalc

/-- One row of a report. -/
structure Row where
  expression : String
  stage : String
  status : String
  /-- The column of a syntax error, counted from one. -/
  column : Option Int
  /-- The value of an expression that has one. -/
  value : Option Int
  message : String
  deriving DecidableEq, Repr

/-- The row of an outcome. -/
def Row.ofOutcome (o : Outcome) : Row where
  expression := o.expression
  stage := o.stage.name
  status := o.statusName
  column := o.shownColumn
  value := o.value
  message := o.message

/-- The text of an optional number, empty if there is none. -/
def Row.numberText : Option Int → String
  | none => ""
  | some n => Numeral.ofInt n

/-- The fields of a row. -/
def Row.fields (r : Row) : List (List Char) :=
  [r.expression, r.stage, r.status, numberText r.column, numberText r.value, r.message].map
    String.toList

/-- What is raised when a table cannot be made or saved. -/
structure TableError where
  kind : String
  text : String
  deriving DecidableEq, Repr

/-- What saving a table leaves behind, also if it fails. -/
structure Saving where
  files : FileArea
  failure : Option TableError := none

/-- A library for tables. -/
structure TableLibrary where
  /-- The table of the rows. Its columns of numbers hold 64-bit integers, and
  gaps where a row has no number. -/
  table : List Row → Except TableError (List Row)
  /-- The written form of a table, as comma-separated fields. -/
  csv : List Row → String
  /-- Saves a written form under a path. -/
  save : FileArea → String → String → Saving

namespace Report

/-- The names of the columns. -/
def header : List String :=
  ["expression", "stage", "status", "column", "value", "message"]

/-- The records of a written report, the header first. -/
def records (rows : List Row) : List (List (List Char)) :=
  header.map String.toList :: rows.map Row.fields

/-- The table of the outcomes. -/
def ofOutcomes (library : TableLibrary) (outcomes : List Outcome) :
    Except TableError (List Row) :=
  library.table (outcomes.map Row.ofOutcome)

/-- The record of saving a report. -/
def saveRecord (rows : List Row) (path : String) : Log.Record :=
  ⟨.info, "data.data_loader",
    "Saving " ++ Numeral.ofInt rows.length ++ " results to " ++ path⟩

end Report

end IntCalc
