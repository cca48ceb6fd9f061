import IntCalc.Csv

/-!
# Reading tables of comma-separated fields

`Csv.read` splits a text into records and fields. A field that starts with
a quote goes on to the closing quote, in between two quotes stand for one
and line ends are kept. Outside quotes a newline, a return or a return and
a newline end a record.
-/

namespace IntCalc.Csv

/-- Where the reader is. -/
inductive Mode
  /-- In front of a record. -/
  | recordStart
  /-- In front of a record, just after a return. -/
  | afterReturn
  /-- In front of a field that is not the first of its record. -/
  | fieldStart
  /-- In a field without quotes. -/
  | bare
  /-- Between quotes. -/
  | quoted
  /-- Just after a quote that may be the closing one. -/
  | quoteSeen
  deriving DecidableEq, Repr

/-- What has been read, everything latest first. -/
structure Reader where
  records : List (List (List Char)) := []
  fields : List (List Char) := []
  field : List Char := []
  mode : Mode := .recordStart
  deriving DecidableEq, Repr

namespace Reader

/-- Adds a character to the field. -/
def push (r : Reader) (c : Char) (mode : Mode) : Reader :=
  { r with field := c :: r.field, mode := mode }

/-- Ends the field. -/
def endField (r : Reader) : Reader :=
  { r with fields := r.field.reverse :: r.fields, field := [], mode := .fieldStart }

/-- Ends the field and the record. -/
def endRecord (r : Reader) (mode : Mode) : Reader :=
  let r := r.endField
  { records := r.fields.reverse :: r.records, mode := mode }

/-- A character outside quotes. -/
def outside (r : Reader) (c : Char) : Reader :=
  if c = ',' then r.endField
  else if c = '\n' then r.endRecord .recordStart
  else if c = '\r' then r.endRecord .afterReturn
  else r.push c .bare

/-- Reads one character. -/
def step (r : Reader) (c : Char) : Reader :=
  match r.mode with
  | .recordStart | .fieldStart => if c = '"' then { r with mode := .quoted } else r.outside c
  | .afterReturn =>
    if c = '\n' then { r with mode := .recordStart }
    else if c = '"' then { r with mode := .quoted }
    else r.outside c
  | .bare => r.outside c
  | .quoted => if c = '"' then { r with mode := .quoteSeen } else r.push c .quoted
  | .quoteSeen => if c = '"' then r.push c .quoted else r.outside c

/-- The records, with the last one ended by the end of the text. -/
def finish (r : Reader) : List (List (List Char)) :=
  match r.mode with
  | .recordStart | .afterReturn => r.records.reverse
  | _ => (r.endRecord .recordStart).records.reverse

end Reader

/-- The records of a text. -/
def read (text : List Char) : List (List (List Char)) :=
  (text.foldl Reader.step {}).finish

end IntCalc.Csv
