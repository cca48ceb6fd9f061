import IntCalc.Csv
import IntCalc.Report
import IntCalc.Report.NumberColumn

/-!
# A table library

`TableLibrary.reference` makes tables whose columns of numbers are stored as
`NumberColumn.storage` says, writes them with `Csv.render` and saves them as
plain files. A path may start with `~`, and the directory of the file has to
exist, which is checked first.
-/

namespace IntCalc

/-- Why a file cannot be saved. -/
inductive SaveError
  /-- The directory of the file does not exist. -/
  | noDirectory (directory : String)
  | file (error : FileError)
  deriving DecidableEq, Repr

/-- The text of a failure to save a file. -/
def SaveError.message : SaveError → String
  | noDirectory directory =>
    "Cannot save file into a non-existent directory: '" ++ directory ++ "'"
  | file error => error.message

/-- The class of a failure to open a file. -/
def FileError.kind : FileError → String
  | missing _ => "FileNotFoundError"
  | notADirectory _ => "NotADirectoryError"
  | isADirectory _ => "IsADirectoryError"
  | nullCharacter => "ValueError"
  | nameTooLong _ | other _ => "OSError"

/-- The class of a failure to save a file. -/
def SaveError.kind : SaveError → String
  | noDirectory _ => "OSError"
  | file error => error.kind

namespace FileArea

/-- Checks that a path leads to a directory. It does not matter why it does
not, as long as its names are not too long. -/
def checkDirectory (area : FileArea) (path : String) : Except SaveError Unit :=
  match area.place path with
  | .error (.nameTooLong path) => .error (.file (.nameTooLong path))
  | .error _ => .error (.noDirectory path)
  | .ok place =>
    match area.node? place with
    | some .directory => .ok ()
    | _ => .error (.noDirectory path)

/-- The area after a file has been saved into an existing directory. -/
def save (area : FileArea) (path : String) (bytes : ByteArray) : Except SaveError FileArea := do
  let path := area.expandHome path
  area.checkDirectory (Path.parent path)
  (area.write path bytes).mapError .file

end FileArea

/-- The row with its numbers as their columns keep them. -/
def Row.storedAs (columns values : Storage) (r : Row) : Row :=
  { r with column := r.column.map columns.kept, value := r.value.map values.kept }

namespace TableLibrary

/-- The rows with their numbers as their columns store them. -/
def stored (rows : List Row) : Except ColumnError (List Row) := do
  let columns := NumberColumn.storage (rows.map Row.column)
  let values := NumberColumn.storage (rows.map Row.value)
  columns.check (rows.map Row.column)
  values.check (rows.map Row.value)
  return rows.map (Row.storedAs columns values)

/-- The library. -/
def reference : TableLibrary where
  table rows := (stored rows).mapError fun e => ⟨e.kind, e.message⟩
  csv rows := String.ofList (Csv.render (Report.records rows))
  save files path text :=
    match files.save path text.toUTF8 with
    | .ok files => ⟨files, none⟩
    | .error e => ⟨files, some ⟨e.kind, e.message⟩⟩

end TableLibrary

end IntCalc
