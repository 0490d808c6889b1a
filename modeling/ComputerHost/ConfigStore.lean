import ComputerHost.ComputerConfig
import ComputerHost.FileTree

/-! # Stores of computers' settings

Settings are kept in memory, or each computer's in a file named by its id. Either way a computer that
nothing is kept about has the defaults.
-/

namespace ComputerHost

inductive ConfigStore where
  /-- In memory, the last settings saved first. -/
  | memory (saved : List (UInt32 × ComputerConfig))
  /-- In the files of a directory. -/
  | files (directory : String)
deriving DecidableEq, Repr

namespace ConfigStore

instance : Inhabited ConfigStore := ⟨.memory []⟩

/-- The settings that are in memory for a computer. -/
def get? (store : ConfigStore) (id : UInt32) : Option ComputerConfig :=
  match store with
  | .memory saved => saved.lookup id
  | .files _ => none

/-- The file that keeps the settings of a computer. -/
def path (directory : String) (id : UInt32) : String :=
  FilePath.join directory s!"{id.toNat}.json"

/-- The settings of a computer. -/
def load (store : ConfigStore) (tree : FileTree) (id : UInt32) :
    Except ConfigError ComputerConfig :=
  match store with
  | .memory saved => .ok ((saved.lookup id).getD .default)
  | .files directory =>
    let file := path directory id
    if tree.holds file then
      match tree.readText file with
      | .error e => .error e.toConfigError
      | .ok text =>
        match ComputerConfig.ofText? text with
        | some config => .ok config
        | none => .error (.malformedComputer "malformed document")
    else .ok .default

/-- Keep the settings of a computer, in place of those kept before. Directories that were made before a
failure stay. -/
def save (store : ConfigStore) (tree : FileTree) (id : UInt32) (config : ComputerConfig) :
    Except ConfigError Unit × ConfigStore × FileTree :=
  match store with
  | .memory saved => (.ok (), .memory ((id, config) :: saved.filter (·.1 != id)), tree)
  | .files directory =>
    match tree.makePath directory with
    | (.error e, tree) => (.error e.toConfigError, store, tree)
    | (.ok (), tree) =>
      match tree.writeText (path directory id) config.toText with
      | .error e => (.error e.toConfigError, store, tree)
      | .ok tree => (.ok (), store, tree)

end ConfigStore

end ComputerHost
