import IntCalc.CommandLine.Run
import IntCalc.Report.Reference

/-!
# The program

Reads the arguments, opens the input, prints what `CommandLine.process`
makes of it and saves the report. Log records go to the standard error
stream.
-/

namespace IntCalc

/-- How the program is called. -/
def usage : String :=
  "usage: intcalc [-h] [--input_path FILE] [--save_results] [--results_path FILE] " ++
    "[--log_level DEBUG|INFO|WARNING|ERROR]"

/-- The pieces of a stream after those already read, latest first. -/
partial def readPieces (stream : IO.FS.Stream) (pieces : List (List UInt8)) :
    IO (List (List UInt8)) := do
  let piece ← stream.read TextStream.pieceSize.toUSize
  if piece.isEmpty then return pieces.reverse
  readPieces stream (piece.data.toList :: pieces)

/-- The reason behind an error met on a path. -/
def fileError (path : String) : IO.Error → FileError
  | .noFileOrDirectory .. => .missing path
  | e => .other (toString e)

/-- The input, or why it cannot be opened. -/
def openInput (o : CommandLine.Options) : IO (Except FileError TextStream) := do
  match o.inputPath with
  | none => return .ok ⟨← readPieces (← IO.getStdin) [], .newlineOnly⟩
  | some path =>
    match Path.check path with
    | .error e => return .error e
    | .ok _ =>
      try
        return .ok (.ofFile (← IO.FS.readBinFile path))
      catch e =>
        return .error (fileError path e)

/-- Saves a report and gives the exit code. -/
def saveReport (path text : String) : IO UInt32 := do
  try
    IO.FS.writeFile path text
    return 0
  catch e =>
    IO.eprintln (fileError path e).message
    return 1

/-- Does what the options ask for and gives the exit code. -/
def runProgram (o : CommandLine.Options) (level : Log.Level) : IO UInt32 := do
  let p := CommandLine.process .reference o (← openInput o)
  for record in Log.atLeast level p.log do
    IO.eprintln record.line
  IO.print (CommandLine.printed p.lines)
  let failed (message : String) : IO UInt32 := do
    IO.eprintln message
    return 1
  match p.ending, p.report with
  | .exit 0, some (path, text) => saveReport path text
  | .exit code, _ => return code.toUInt32
  | .noLogLevel, _ => failed CommandLine.noLogLevelText
  | .undecodable, _ => failed "the input is not valid UTF-8"
  | .evaluation e, _ => failed e.message
  | .invalidPath e, _ => failed e.message
  | .reporting e, _ => failed e.text
  | .saving e, _ => failed e.text

end IntCalc

def main (arguments : List String) : IO UInt32 := do
  match IntCalc.CommandLine.Request.ofArguments arguments with
  | .run o =>
    match o.logLevel with
    | some level => IntCalc.runProgram o level
    | none =>
      IO.eprintln IntCalc.CommandLine.noLogLevelText
      return 1
  | .help =>
    IO.println IntCalc.usage
    return 0
  | .misuse =>
    IO.eprintln IntCalc.usage
    return 2
