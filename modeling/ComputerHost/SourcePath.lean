import ComputerHost.Text

/-! # Canonical source paths

Programs report where they are by the canonical name of a chunk: `@/` and the components of its path.
Both slashes separate, empty components and `.` are dropped, and `..` takes back the component before
it, or nothing at the root.
-/

namespace ComputerHost.SourcePath

def isSeparator (c : Char) : Bool :=
  c == '/' || c == '\\'

/-- What one component does to the components kept so far, the last one first. -/
def push (kept : List (List Char)) (component : List Char) : List (List Char) :=
  if component = [] ∨ component = ['.'] then kept
  else if component = ['.', '.'] then kept.tail
  else component :: kept

/-- The kept components of a path, in order. -/
def components (path : List Char) : List (List Char) :=
  ((Text.splitAt isSeparator path).foldl push []).reverse

/-- A chunk name from components. -/
def name (components : List (List Char)) : List Char :=
  '@' :: '/' :: Text.joinWith '/' components

/-- The canonical chunk name of a path. -/
def canonical (path : List Char) : List Char :=
  name (components path)

/-- The canonical chunk name of a path, as a string. -/
def canonicalName (path : String) : String :=
  String.ofList (canonical path.toList)

end ComputerHost.SourcePath
