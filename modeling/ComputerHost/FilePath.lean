import ComputerHost.Text

/-! # File paths

Paths on the machine of the host are text. Joining keeps the spelling of both parts; two spellings
name the same path if they have the same components (`Same`), where repeated slashes and `.` count
for nothing except a `.` at the start of a relative path.
-/

namespace ComputerHost.FilePath

def isAbsolute (path : String) : Bool :=
  path.toList.head? = some '/'

/-- A path below another one. An absolute path replaces what it is joined to. -/
def join (base path : String) : String :=
  if isAbsolute path then path
  else if base = "" ∨ base.toList.getLast? = some '/' then base ++ path
  else base ++ "/" ++ path

/-- The components that count, without the root. -/
def components (path : String) : List String :=
  let pieces := Text.piecesOf (· == '/') path
  let kept := pieces.filter fun piece => piece != "" && piece != "."
  if pieces.head? = some "." then "." :: kept else kept

/-- Do two spellings name the same path? -/
def same (a b : String) : Bool :=
  isAbsolute a == isAbsolute b && components a == components b

/-- The name of the file that a path leads to, if it ends in a name. -/
def fileName? (path : String) : Option String :=
  match (components path).getLast? with
  | some name => if name = ".." ∨ name = "." then none else some name
  | none => none

end ComputerHost.FilePath
