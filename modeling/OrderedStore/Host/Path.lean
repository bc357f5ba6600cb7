/-!
# Paths

A path has two sides: the text in which it is shown, and the way that the text describes, step by
step from the working directory or from the top of the file tree. Both grow together when a name is
appended (`Path.child`). Where the way ends is not a matter of the path alone: a step back leads out
of the directory that was really reached, and no step leads out of a file.
-/

namespace OrderedStore

/-- A place in a file tree: the names on the way down from the top. -/
abbrev Location := List String

/-- A step of a path. -/
inductive PathStep where
  | here
  | up
  | entry (name : String)
deriving DecidableEq

namespace PathStep

def text : PathStep → String
  | .here => "."
  | .up => ".."
  | .entry name => name

/-- The step written between two slashes, if there is one. -/
def ofText? (text : String) : Option PathStep :=
  if text = "" then none
  else if text = "." then some .here
  else if text = ".." then some .up
  else some (.entry text)

end PathStep

/-- A path as it is written together with the way that it describes. -/
structure Path where
  text : String
  /-- Whether the way starts at the top of the tree and not in the working directory. -/
  absolute : Bool
  steps : List PathStep
  /-- Whether a slash stands at the end, so that only a directory can be meant. -/
  trailingSlash : Bool
deriving DecidableEq

namespace Path

def pieces : List Char → List (List Char)
  | [] => [[]]
  | c :: rest =>
    if c = '/' then [] :: pieces rest
    else
      match pieces rest with
      | [] => [[c]]
      | piece :: others => (c :: piece) :: others

def ofText (text : String) : Path where
  text
  absolute := text.toList.head? = some '/'
  steps := (pieces text.toList).filterMap fun piece => PathStep.ofText? (String.ofList piece)
  trailingSlash := text.toList.getLast? = some '/'

def ofSteps (absolute : Bool) (steps : List PathStep) : Path where
  text := (if absolute then "/" else "") ++ "/".intercalate (steps.map PathStep.text)
  absolute
  steps
  trailingSlash := false

/-- The path of the entry `name` in the directory `dir`. -/
def child (dir : Path) (name : String) : Path where
  text :=
    if dir.text.isEmpty || dir.trailingSlash then dir.text ++ name else dir.text ++ "/" ++ name
  absolute := dir.absolute
  steps := dir.steps ++ [.entry name]
  trailingSlash := false

/-- The steps that count in comparing paths: staying in place counts only where a path would be
empty without it. -/
def plainSteps (path : Path) : List PathStep :=
  let moves := path.steps.filter (· ≠ .here)
  if path.absolute then moves
  else
    match path.steps with
    | .here :: _ => .here :: moves
    | _ => moves

/-- The paths above a path, the longest first, as far as they name something. -/
def above (path : Path) : List Path :=
  let steps := path.plainSteps
  (List.range steps.length).reverse.filterMap fun count =>
    if count = 0 then none else some (ofSteps path.absolute (steps.take count))

/-- A path with the paths above it, the longest first; nothing for a path without steps. -/
def lineage (path : Path) : List Path :=
  if path.plainSteps.isEmpty then [] else path :: path.above

@[simp]
theorem steps_child (dir : Path) (name : String) :
    (dir.child name).steps = dir.steps ++ [.entry name] :=
  rfl

@[simp]
theorem absolute_child (dir : Path) (name : String) : (dir.child name).absolute = dir.absolute :=
  rfl

@[simp]
theorem trailingSlash_child (dir : Path) (name : String) :
    (dir.child name).trailingSlash = false :=
  rfl

end Path

end OrderedStore
