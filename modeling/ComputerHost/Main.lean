import ComputerHost.Command.Execution

/-! # The command line

A command works on a tree of files. What is at the paths that it looks at is read into the tree before it
is executed, and what has changed in the tree is written back afterwards.
-/

namespace ComputerHost.Command

/-- A tree with what is at a path on the machine. -/
def look (tree : FileTree) (path : String) : IO FileTree := do
  let place := (← IO.currentDir) / path
  if ← place.isDir then
    return (tree.makeDirectories path).toOption.getD tree
  else if ← place.pathExists then
    return (tree.plant path (← IO.FS.readBinFile place)).toOption.getD tree
  else return tree

/-- A tree with what is at a path and at those above it. -/
def lookAlong (tree : FileTree) (path : String) : IO FileTree :=
  (FileTree.cuts path).reverse.foldlM look tree

/-- Write what is in a tree and was not in an earlier one. -/
def writeBack (before after : FileTree) : IO Unit :=
  for (loc, node) in after.nodes do
    let path := "/" ++ String.intercalate "/" loc
    match before.node? loc, node with
    | some .directory, .directory => pure ()
    | _, .directory => IO.FS.createDirAll path
    | some (.file old), .file new => if old != new then IO.FS.writeBinFile path new
    | _, .file new => IO.FS.writeBinFile path new

/-- A directory of the user: where a variable says, if it is an absolute path, and else in the home. -/
def userDir (name inHome : String) : IO (Option String) := do
  let home := (← IO.getEnv "HOME").filter (· != "")
  match (← IO.getEnv name).filter FilePath.isAbsolute with
  | some dir => return some dir
  | none => return home.map (FilePath.join · inHome)

/-- Execute what arguments ask for on the machine: the exit code. -/
def perform (args : List String) : IO UInt32 := do
  let s : Surroundings :=
    ⟨← userDir "XDG_CONFIG_HOME" ".config", ← userDir "XDG_DATA_HOME" ".local/share"⟩
  let cwd := (← IO.currentDir).toString
  let tree ← lookAlong { FileTree.empty with workingDir := FilePath.components cwd } cwd
  let request := (parse args).toOption
  let file := match request with
    | some (.run options) => options.config
    | some (.config file) => file
    | _ => none
  let tree ← (file.toList ++ s.settingsFile.toList).foldlM lookAlong tree
  let tree ← match request with
    | some (.run options) =>
      match loadConfig s tree options.config with
      | .ok config => (paths options s config).foldlM lookAlong tree
      | .error _ => pure tree
    | _ => pure tree
  let outcome := execute 1000000000 s tree args
  match outcome.output with
  | .ok text => IO.print text
  | .error e => IO.eprintln s!"Error: {e.message}"
  writeBack tree outcome.tree
  return UInt32.ofNat outcome.code

end ComputerHost.Command

def main (args : List String) : IO UInt32 := ComputerHost.Command.perform args
