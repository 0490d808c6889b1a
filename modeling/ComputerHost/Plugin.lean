import ComputerHost.FilePath
import ComputerHost.Value

/-! # Plugins

Plugins run when a computer boots and leave globals behind. Those that could not be loaded are
recorded with a message, and programs see the record as a table by plugin name.
-/

namespace ComputerHost.Plugin

/-- A plugin that could not be loaded. -/
structure Failure where
  path : String
  message : String
deriving DecidableEq, Repr

/-- The name of a plugin: its file name up to the first dot. -/
def name (path : String) : String :=
  match FilePath.fileName? path with
  | some file => String.ofList (file.toList.takeWhile (· != '.'))
  | none => ""

/-- The failures as a table, if there are any. -/
def table? (failures : List Failure) : Option Value :=
  if failures.isEmpty then none
  else some (.table (failures.map fun f => (.text (name f.path), .text f.message)))

end ComputerHost.Plugin
