import IntCalc.Log
import IntCalc.Settings
import IntCalc.Text.DecimalDigit

/-!
# Command-line options

`Request.ofArguments` reads the arguments. An option may be shortened as
long as only one option starts that way, and its value is the next argument
or stands after `=`. Of repeated options the last one counts. An argument
that looks like an option is never taken as a value, and `--` after `=`
stands for no value.

Not every mistake counts at once. A shortened option that is ambiguous is
found before any option is read, a missing or wrong value when its option is
read, and an argument that is none of the options only at the end. Help is
given as soon as it is asked for.
-/

namespace IntCalc.CommandLine

/-- The options. -/
inductive Opt
  | help
  | inputPath
  | saveResults
  | resultsPath
  | logLevel
  deriving DecidableEq, Repr

namespace Opt

/-- The written forms of the options. -/
def spellings : List (String × Opt) :=
  [("-h", help), ("--help", help), ("--input_path", inputPath), ("--save_results", saveResults),
    ("--results_path", resultsPath), ("--log_level", logLevel)]

/-- The option with exactly this written form. -/
def ofSpelling? (s : String) : Option Opt :=
  (spellings.find? (·.1 == s)).map Prod.snd

/-- The options whose written form starts with `s`. -/
def startingWith (s : String) : List Opt :=
  (spellings.filter fun p => s.toList.isPrefixOf p.1.toList).map Prod.snd

end Opt

/-- What a single argument is. -/
inductive Argument
  /-- An option, with the value attached to it. -/
  | option (opt : Opt) (attached : Option String)
  /-- A value, for an option or standing alone. -/
  | value
  /-- It looks like an option but is none. -/
  | unknown
  /-- It may be short for more than one option. -/
  | ambiguous
  deriving DecidableEq, Repr

namespace Argument

/-- The parts of an argument around its first `=`. -/
def splitAtEquals (s : String) : String × Option String :=
  let cs := s.toList
  let name := cs.takeWhile (· ≠ '=')
  match cs.drop name.length with
  | [] => (s, none)
  | _ :: attached => (String.ofList name, some (String.ofList attached))

/-- The characters of a text without one newline at the end. -/
def withoutNewline (s : String) : List Char :=
  if s.toList.getLast? = some '\n' then s.toList.dropLast else s.toList

/-- A minus sign, digits, and digits after a point if there is one. The
digits may be those of any script, and a newline may follow. -/
def isNegativeNumber (s : String) : Bool :=
  match withoutNewline s with
  | '-' :: cs =>
    let whole := cs.takeWhile Text.isDecimalDigit
    match cs.drop whole.length with
    | [] => !whole.isEmpty
    | '.' :: fraction => !fraction.isEmpty && fraction.all Text.isDecimalDigit
    | _ => false
  | _ => false

/-- The short help option with a text behind it. The text stands for more
options of one letter, up to one that is none. It must not go on with a minus
or with a value, which help has no use for. -/
def helpWith (letters : String) : Argument :=
  match letters.toList.dropWhile (· = 'h') with
  | '=' :: _ | '-' :: _ => .option .help (some letters)
  | _ => .option .help none

/-- An argument that no option starts with. -/
def ofOther (s : String) : Argument :=
  if isNegativeNumber s || s.contains ' ' then .value else .unknown

/-- What an argument is that starts with a minus and is no exact option. -/
def ofShortened (s : String) : Argument :=
  let (name, attached) := splitAtEquals s
  match Opt.ofSpelling? name with
  | some opt => .option opt attached
  | none =>
    if s.startsWith "--" then
      match Opt.startingWith name with
      | [] => ofOther s
      | [opt] => .option opt attached
      | _ => .ambiguous
    else if s.startsWith "-h" then helpWith (String.ofList (s.toList.drop 2))
    else ofOther s

/-- What an argument is. A lone minus and the empty text are values. -/
def ofText (s : String) : Argument :=
  if s = "" ∨ s = "-" ∨ !s.startsWith "-" then .value
  else
    match Opt.ofSpelling? s with
    | some opt => .option opt none
    | none => ofShortened s

end Argument

/-- What the options ask for. -/
structure Options where
  /-- The file to read, or else the standard input. -/
  inputPath : Option String := none
  saveResults : Bool := false
  resultsPath : String := Settings.default.resultsPath
  /-- The level from which on records are shown, or none if the option for it
  was given no value. -/
  logLevel : Option Log.Level := some .warning
  deriving DecidableEq, Repr

namespace Options

/-- The value that is attached to an option. -/
def attachedValue (s : String) : Option String :=
  if s = "--" then none else some s

/-- Gives an option a value, or none. An empty path is no path, and a level
must be one of the named ones. -/
def set (o : Options) (opt : Opt) (value : Option String) : Option Options :=
  let path := value.filter (· ≠ "")
  match opt, value with
  | .inputPath, _ => some { o with inputPath := path }
  | .resultsPath, _ => some { o with resultsPath := path.getD Settings.default.resultsPath }
  | .logLevel, none => some { o with logLevel := none }
  | .logLevel, some name =>
    (Log.Level.ofName? name).map fun level => { o with logLevel := some level }
  | .help, _ | .saveResults, _ => none

end Options

/-- What a command line asks for. -/
inductive Request
  | run (options : Options)
  | help
  /-- The arguments are wrong. -/
  | misuse
  deriving DecidableEq, Repr

namespace Request

/-- Reads the arguments after the options read so far. `extra` says whether
an argument has been found that is no option. -/
def read (o : Options) (extra : Bool) : List String → Request
  | [] => if extra then .misuse else .run o
  | argument :: rest =>
    if argument = "--" then .misuse
    else
      match Argument.ofText argument with
      | .value | .unknown => read o true rest
      | .ambiguous => .misuse
      | .option .help none => .help
      | .option .saveResults none => read { o with saveResults := true } extra rest
      | .option opt (some value) =>
        match o.set opt (Options.attachedValue value) with
        | some o => read o extra rest
        | none => .misuse
      | .option opt none =>
        match rest with
        | [] => .misuse
        | value :: rest =>
          if value ≠ "--" ∧ Argument.ofText value = .value then
            match o.set opt (some value) with
            | some o => read o extra rest
            | none => .misuse
          else .misuse

/-- Reads the arguments of a command line. -/
def ofArguments (arguments : List String) : Request :=
  if (arguments.takeWhile (· ≠ "--")).any (Argument.ofText · = .ambiguous) then .misuse
  else read {} false arguments

end Request

end IntCalc.CommandLine
