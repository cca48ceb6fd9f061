import IntCalc.CommandLine.Options
import IntCalc.Input
import IntCalc.Report
import IntCalc.Session

/-!
# A run of the program

`process` takes the input to everything the program does with it: the lines
it prints, its log, how it ends, and the report it wants to save. It works on
values alone. `run` is a whole run over a file area, from the arguments to
the files it leaves behind. Both are given the library that makes and saves
the table of a report.
-/

namespace IntCalc.CommandLine

/-- How a run ends. -/
inductive Ending
  | exit (code : Nat)
  /-- There is no level for the log, and so no run. -/
  | noLogLevel
  /-- The input is no text. -/
  | undecodable
  /-- An expression could not be taken through the pipeline. -/
  | evaluation (error : EvaluationError)
  /-- The path of the input is none. -/
  | invalidPath (error : FileError)
  /-- The report could not be made. -/
  | reporting (error : TableError)
  | saving (error : TableError)
  deriving DecidableEq, Repr

/-- The text of a run that has no level for the log. -/
def noLogLevelText : String :=
  "attribute name must be string, not 'list'"

/-- What a run does with its input. -/
structure Processed where
  ending : Ending
  /-- The printed lines. -/
  lines : List String := []
  log : List Log.Record := []
  /-- The path and the text of the report to be saved. -/
  report : Option (String × String) := none
  deriving DecidableEq, Repr

/-- The record of an input that cannot be opened. -/
def unreadableRecord (message : String) : Log.Record :=
  ⟨.error, "main", "Failed to read expressions: " ++ message⟩

/-- The record of having evaluated the input. -/
def evaluatedRecord (outcomes : List Outcome) : Log.Record :=
  ⟨.info, "main",
    "Evaluated " ++ Numeral.ofInt outcomes.length ++ " expressions, " ++
      Numeral.ofInt (outcomes.countP Outcome.ok) ++ " succeeded"⟩

/-- Makes the report on the outcomes, if it is to be saved. -/
def report (library : TableLibrary) (o : Options) (outcomes : List Outcome) (p : Processed) :
    Processed :=
  if o.saveResults then
    match Report.ofOutcomes library outcomes with
    | .error e => { p with ending := .reporting e }
    | .ok rows =>
      { p with
        log := p.log ++ [Report.saveRecord rows o.resultsPath]
        report := some (o.resultsPath, library.csv rows) }
  else p

/-- Evaluates the expressions and prints a line for each. -/
def evaluate (library : TableLibrary) (o : Options) (expressions : List String) : Processed :=
  let session : Session := {}
  let log := session.evaluateAllRecords expressions
  match session.evaluateAll expressions with
  | .error e => { ending := .evaluation e, log := log }
  | .ok (outcomes, _) =>
    report library o outcomes
      { ending := .exit 0
        lines := outcomes.map Outcome.message
        log := log ++ [evaluatedRecord outcomes] }

/-- What is done with an input. One that cannot be opened is logged, unless
its path is none. -/
def process (library : TableLibrary) (o : Options) (input : Except FileError TextStream) :
    Processed :=
  let opening := o.inputPath.toList.map Input.openRecord
  match input with
  | .error .nullCharacter => { ending := .invalidPath .nullCharacter, log := opening }
  | .error e => { ending := .exit 1, log := opening ++ [unreadableRecord e.message] }
  | .ok stream =>
    match Input.ofStream? Settings.default.quitCommands stream with
    | none => { ending := .undecodable, log := opening }
    | some expressions =>
      let p := evaluate library o expressions
      { p with log := opening ++ Input.loadedRecord expressions :: p.log }

/-- The lines of a text, each ended by a newline. -/
def printed (lines : List String) : String :=
  String.join (lines.map (· ++ "\n"))

/-- The lines a record takes up in the log. -/
def logLines (record : Log.Record) : List String :=
  record.line.splitOn "\n"

/-- What can be seen of a whole run. -/
structure Transcript where
  ending : Ending
  /-- The printed text. -/
  output : String := ""
  /-- The log lines. -/
  log : List String := []
  files : FileArea

/-- The input. -/
def input (o : Options) (stdin : TextStream) (files : FileArea) : Except FileError TextStream :=
  match o.inputPath with
  | none => .ok stdin
  | some path => (files.read path).map TextStream.ofFile

/-- Runs the program as the options ask, with a log from `level` on. -/
def runOptions (library : TableLibrary) (o : Options) (level : Log.Level) (stdin : TextStream)
    (files : FileArea) : Transcript :=
  let p := process library o (input o stdin files)
  let output := printed p.lines
  let log := (Log.atLeast level p.log).flatMap logLines
  match p.report with
  | none => ⟨p.ending, output, log, files⟩
  | some (path, text) =>
    let saving := library.save files path text
    ⟨saving.failure.elim p.ending .saving, output, log, saving.files⟩

/-- A run of the program in a file area. Wrong arguments, or no level for the
log, end it at once. -/
def run (library : TableLibrary) (arguments : List String) (stdin : TextStream)
    (files : FileArea) : Transcript :=
  match Request.ofArguments arguments with
  | .run o =>
    match o.logLevel with
    | none => { ending := .noLogLevel, files := files }
    | some level => runOptions library o level stdin files
  | .help => { ending := .exit 0, files := files }
  | .misuse => { ending := .exit 2, files := files }

end IntCalc.CommandLine
