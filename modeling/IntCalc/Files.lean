import IntCalc.Text.Quoted

/-!
# A file area

A `FileArea` holds files and directories, each at a place: the list of names
that leads to it from the root. Paths that do not start at the root start at
the current directory. `read` gives the bytes of a file and `write` writes
one. What is written to the place of the standard output is no file; the area
keeps it apart.

`FileArea.follow` is the one way to find what a path means: it goes from
directory to directory, so a name is looked up only once everything in front
of it has been found.
-/

namespace IntCalc

/-- Why a file cannot be opened. -/
inductive FileError
  | missing (path : String)
  | notADirectory (path : String)
  | isADirectory (path : String)
  | nameTooLong (path : String)
  /-- The path holds a NUL and so is none. -/
  | nullCharacter
  /-- Any other reason, in words. -/
  | other (text : String)
  deriving DecidableEq, Repr

/-- The text of a failure to open a file. -/
def FileError.message : FileError → String
  | missing path => "[Errno 2] No such file or directory: " ++ Text.quoted path
  | notADirectory path => "[Errno 20] Not a directory: " ++ Text.quoted path
  | isADirectory path => "[Errno 21] Is a directory: " ++ Text.quoted path
  | nameTooLong path => "[Errno 36] File name too long: " ++ Text.quoted path
  | nullCharacter => "embedded null byte"
  | other text => text

/-! ## Paths -/

namespace Path

/-- The most bytes a path may have. -/
def maxBytes : Nat := 4095

/-- The most bytes a name may have. -/
def maxNameBytes : Nat := 255

/-- Puts one character in front of the texts between slashes. -/
def pushChar (c : Char) (ls : List (List Char)) : List (List Char) :=
  if c = '/' then [] :: ls
  else
    match ls with
    | [] => [[c]]
    | l :: ls => (c :: l) :: ls

/-- The steps of a path: names, `.` and `..`. -/
def steps (path : String) : List String :=
  ((path.toList.foldr pushChar []).filter (· ≠ [])).map String.ofList

/-- Whether a path starts at the root. -/
def isAbsolute (path : String) : Bool :=
  path.startsWith "/"

/-- Whether a path asks for a directory. -/
def endsInSlash (path : String) : Bool :=
  path.endsWith "/"

/-- Whether a path ends in a name with a slash behind it. -/
def endsInDirectoryName (path : String) : Bool :=
  endsInSlash path && (steps path).getLast?.any fun step => step ≠ "." ∧ step ≠ ".."

/-- The written form of the root from which a path starts. Exactly two
slashes are a root of their own; more of them count as one. -/
def root (path : String) : String :=
  match (path.toList.takeWhile (· = '/')).length with
  | 0 => ""
  | 2 => "//"
  | _ => "/"

/-- The path of the directory in which the last name of a path stands,
without the steps that lead nowhere. -/
def parent (path : String) : String :=
  let text := root path ++ "/".intercalate ((steps path).filter (· ≠ ".")).dropLast
  if text = "" then "." else text

/-- Checks that a text can be a path at all. -/
def check (path : String) : Except FileError Unit :=
  if path.toList.contains '\x00' then .error .nullCharacter
  else if maxBytes < path.utf8ByteSize then .error (.nameTooLong path)
  else if path = "" then .error (.missing path)
  else .ok ()

end Path

/-! ## The area -/

/-- What stands at a place. -/
inductive FileNode
  | file (bytes : ByteArray)
  | directory
  /-- It is always empty and forgets what is written to it. -/
  | sink
  /-- The standard output of the program. -/
  | output

/-- Files and directories, each with the names that lead to it from the root. -/
structure FileArea where
  nodes : List (List String × FileNode) := []
  /-- The place of the current directory. -/
  current : List String := []
  /-- The directory that `~` stands for in a path to save to. -/
  home : String := ""
  /-- What has been written to the place of the standard output. -/
  output : ByteArray := .empty

namespace FileArea

/-- What stands at a place. The root is a directory. -/
def node? (area : FileArea) (place : List String) : Option FileNode :=
  if place = [] then some .directory
  else (area.nodes.find? (·.1 = place)).map Prod.snd

/-- The place one step away from a directory. The root is its own parent. -/
def next (place : List String) (step : String) : List String :=
  if step = "." then place else if step = ".." then place.dropLast else place ++ [step]

/-- Follows steps from a directory. All but the last have to lead to
directories again. -/
def follow (area : FileArea) (path : String) (place : List String) :
    List String → Except FileError (List String)
  | [] => .ok place
  | step :: steps =>
    if Path.maxNameBytes < step.utf8ByteSize then .error (.nameTooLong path)
    else if steps = [] then .ok (next place step)
    else
      match area.node? (next place step) with
      | none => .error (.missing path)
      | some .directory => area.follow path (next place step) steps
      | some _ => .error (.notADirectory path)

/-- The place a path leads to. -/
def place (area : FileArea) (path : String) : Except FileError (List String) := do
  Path.check path
  area.follow path (if Path.isAbsolute path then [] else area.current) (Path.steps path)

/-- The bytes of a file. -/
def read (area : FileArea) (path : String) : Except FileError ByteArray := do
  let contents (bytes : ByteArray) : Except FileError ByteArray :=
    if Path.endsInSlash path then .error (.notADirectory path) else .ok bytes
  match area.node? (← area.place path) with
  | none => throw (.missing path)
  | some .directory => throw (.isADirectory path)
  | some .sink | some .output => contents .empty
  | some (.file bytes) => contents bytes

/-- Puts a file at a place. -/
def put (area : FileArea) (place : List String) (bytes : ByteArray) : FileArea :=
  { area with nodes := area.nodes.filter (·.1 ≠ place) ++ [(place, .file bytes)] }

/-- The area after a file has been written into an existing directory. A
name with a slash behind it is refused before it is looked up. -/
def write (area : FileArea) (path : String) (bytes : ByteArray) :
    Except FileError FileArea := do
  Path.check path
  if Path.endsInDirectoryName path then throw (.isADirectory path)
  let place ← area.place path
  match area.node? place with
  | some .directory => throw (.isADirectory path)
  | some .sink => return area
  | some .output => return { area with output := area.output ++ bytes }
  | some (.file _) | none => return area.put place bytes

/-- Puts the home directory in place of `~` at the start of a path. -/
def expandHome (area : FileArea) (path : String) : String :=
  match path.toList with
  | ['~'] => area.home
  | '~' :: '/' :: rest => area.home ++ String.ofList ('/' :: rest)
  | _ => path

/-- The path from the current directory to a place below it. -/
def relativePath? (area : FileArea) (place : List String) : Option String :=
  if area.current.isPrefixOf place then
    some ("/".intercalate (place.drop area.current.length))
  else none

/-- Whether a file stands at a place with these bytes. -/
def hasFile (area : FileArea) (place : List String) (bytes : ByteArray) : Bool :=
  match area.node? place with
  | some (.file old) => old.data = bytes.data
  | _ => false

/-- The files below the current directory that `after` has and `before` does
not have with the same bytes. -/
def changes (before after : FileArea) : List (String × ByteArray) :=
  after.nodes.filterMap fun (place, node) =>
    match node with
    | .file bytes =>
      if before.hasFile place bytes then none
      else (before.relativePath? place).map fun path => (path, bytes)
    | .directory | .sink | .output => none

end FileArea

end IntCalc
