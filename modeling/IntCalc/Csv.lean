/-!
# Tables of comma-separated fields

`Csv.render` writes a table of fields with commas between fields and a
newline after each record. A field is put in quotes if it holds a comma, a
quote or a newline, and a quote inside such a field is written twice.
-/

namespace IntCalc

namespace Csv

/-- Whether a field has to be put in quotes. -/
def needsQuotes (field : List Char) : Bool :=
  field.any fun c => c = ',' ∨ c = '"' ∨ c = '\n'

/-- A character inside quotes. -/
def escapeChar (c : Char) : List Char :=
  if c = '"' then ['"', '"'] else [c]

/-- The written form of a field. -/
def field (cs : List Char) : List Char :=
  if needsQuotes cs then '"' :: cs.flatMap escapeChar ++ ['"'] else cs

/-- The written form of the fields of a record, without its end. -/
def fields : List (List Char) → List Char
  | [] => []
  | [f] => field f
  | f :: fs => field f ++ ',' :: fields fs

/-- The written form of a record. -/
def record (fs : List (List Char)) : List Char :=
  fields fs ++ ['\n']

/-- The written form of a table. -/
def render (records : List (List (List Char))) : List Char :=
  records.flatMap record

end Csv

end IntCalc
