import ComputerHost.FileTree
import ComputerHost.HostConfig
import ComputerHost.TomlTree.Printer
import ComputerHost.TomlTree.Reader

/-! # The document of a host's settings

The settings as a TOML document. Printing writes every setting under its name, except options without
a value. Reading takes what the document has and the defaults for the rest; entries that mean nothing
are passed over, and a value of the wrong kind is refused.
-/

namespace ComputerHost

namespace TomlTree

/-! ## Values by kind -/

def text? : TomlTree → Option String
  | .string text => some text
  | _ => none

def bool? : TomlTree → Option Bool
  | .boolean b => some b
  | _ => none

/-- An integer that fits in a word of 64 bits. -/
def word64? : TomlTree → Option UInt64
  | .integer i => if 0 ≤ i ∧ i < UInt64.size then some (UInt64.ofNat i.toNat) else none
  | _ => none

/-- An integer that fits in a word of 32 bits. -/
def word32? : TomlTree → Option UInt32
  | .integer i => if 0 ≤ i ∧ i < UInt32.size then some (UInt32.ofNat i.toNat) else none
  | _ => none

/-- The spelling of a choice: a string, or the only name of a table that has nothing under it. -/
def choice? : TomlTree → Option String
  | .string text => some text
  | .table [(name, .table [])] => some name
  | .table [(name, .array [])] => some name
  | _ => none

/-- The items of an array. -/
def items? : TomlTree → Option (List TomlTree)
  | .array items => some items
  | _ => none

/-- The entries of a record. An array counts for a record with its values in order. -/
def entries? (names : List String) : TomlTree → Option (List (String × TomlTree))
  | .table entries => some entries
  | .array items => some (names.zip items)
  | _ => none

/-! ## Entries -/

/-- The value under a name, or another one if there is none. -/
def setting? {α : Type} (entries : List (String × TomlTree)) (name : String)
    (read : TomlTree → Option α) (other : α) : Option α :=
  match entries.lookup name with
  | some v => read v
  | none => some other

/-- The value under a name that must be there. -/
def required? {α : Type} (entries : List (String × TomlTree)) (name : String)
    (read : TomlTree → Option α) : Option α :=
  (entries.lookup name).bind read

/-- A list of records. -/
def listOf? {α : Type} (read : TomlTree → Option α) (tree : TomlTree) : Option (List α) := do
  (← tree.items?).mapM read

end TomlTree

/-! ## Records of the settings -/

def CustomDataDir.toTree (d : CustomDataDir) : TomlTree :=
  .table [("id", .integer d.id.toNat), ("path", .string d.path)]

def CustomMount.toTree (m : CustomMount) : TomlTree :=
  .table [("mount_point", .string m.mountPoint), ("host_path", .string m.hostPath),
    ("policy", .string m.policy.name)]

def CustomDataDir.ofTree? (tree : TomlTree) : Option CustomDataDir := do
  let entries ← tree.entries? ["id", "path"]
  let id ← TomlTree.required? entries "id" TomlTree.word32?
  let path ← TomlTree.required? entries "path" TomlTree.text?
  return ⟨id, path⟩

def CustomMount.ofTree? (tree : TomlTree) : Option CustomMount := do
  let entries ← tree.entries? ["mount_point", "host_path", "policy"]
  let mountPoint ← TomlTree.required? entries "mount_point" TomlTree.text?
  let hostPath ← TomlTree.required? entries "host_path" TomlTree.text?
  let policy ←
    TomlTree.setting? entries "policy" (fun v => v.choice?.bind MountPolicy.ofName?) .default
  return ⟨mountPoint, hostPath, policy⟩

namespace HostConfig

open TomlTree (setting? listOf?)

/-! ## Writing -/

/-- An entry for an option, if it has a value. -/
def optional (name : String) (text : Option String) : List (String × TomlTree) :=
  (text.map fun s => (name, TomlTree.string s)).toList

/-- The entries of the settings, in order. -/
def entries (c : HostConfig) : List (String × TomlTree) :=
  [("standards_mode", .boolean c.standardsMode),
   ("vanilla", .boolean c.vanilla),
   ("server_mode", .boolean c.serverMode),
   ("http_enable", .boolean c.httpEnable),
   ("debug_enable", .boolean c.debugEnable),
   ("mount_mode", .string c.mountMode.name),
   ("rom_read_only", .boolean c.romReadOnly),
   ("abort_timeout_ms", .integer c.abortTimeoutMs.toNat),
   ("standards_timeout_ms", .integer c.standardsTimeoutMs.toNat),
   ("default_computer_settings", .string c.defaultComputerSettings),
   ("disable_lua51_features", .boolean c.disableLua51Features),
   ("computer_root", .string c.computerRoot),
   ("rom_path", .string c.romPath),
   ("render_mode", .string c.renderMode.name),
   ("custom_data_dirs", .array (c.customDataDirs.map CustomDataDir.toTree)),
   ("custom_mounts", .array (c.customMounts.map CustomMount.toTree))] ++
  optional "startup_script" c.startupScript ++
  optional "startup_args" c.startupArgs

/-- The document of the settings. -/
def toTree (c : HostConfig) : TomlTree := .table c.entries

/-- The text of the settings. -/
def toText (c : HostConfig) : String := TomlTree.print c.entries

/-! ## Reading -/

/-- The settings with those replaced that entries name. -/
def amend? (c : HostConfig) (entries : List (String × TomlTree)) : Option HostConfig := do
  let standardsMode ← setting? entries "standards_mode" TomlTree.bool? c.standardsMode
  let vanilla ← setting? entries "vanilla" TomlTree.bool? c.vanilla
  let serverMode ← setting? entries "server_mode" TomlTree.bool? c.serverMode
  let httpEnable ← setting? entries "http_enable" TomlTree.bool? c.httpEnable
  let debugEnable ← setting? entries "debug_enable" TomlTree.bool? c.debugEnable
  let mountMode ← setting? entries "mount_mode" (fun v => v.choice?.bind MountMode.ofName?)
    c.mountMode
  let romReadOnly ← setting? entries "rom_read_only" TomlTree.bool? c.romReadOnly
  let abortTimeoutMs ← setting? entries "abort_timeout_ms" TomlTree.word64? c.abortTimeoutMs
  let standardsTimeoutMs ←
    setting? entries "standards_timeout_ms" TomlTree.word64? c.standardsTimeoutMs
  let defaultComputerSettings ←
    setting? entries "default_computer_settings" TomlTree.text? c.defaultComputerSettings
  let disableLua51Features ←
    setting? entries "disable_lua51_features" TomlTree.bool? c.disableLua51Features
  let computerRoot ← setting? entries "computer_root" TomlTree.text? c.computerRoot
  let romPath ← setting? entries "rom_path" TomlTree.text? c.romPath
  let renderMode ← setting? entries "render_mode" (fun v => v.choice?.bind RenderMode.ofName?)
    c.renderMode
  let customDataDirs ←
    setting? entries "custom_data_dirs" (listOf? CustomDataDir.ofTree?) c.customDataDirs
  let customMounts ← setting? entries "custom_mounts" (listOf? CustomMount.ofTree?) c.customMounts
  let startupScript ← setting? entries "startup_script" (·.text?.map some) c.startupScript
  let startupArgs ← setting? entries "startup_args" (·.text?.map some) c.startupArgs
  return { standardsMode, vanilla, serverMode, httpEnable, debugEnable, mountMode, romReadOnly,
           abortTimeoutMs, standardsTimeoutMs, defaultComputerSettings, disableLua51Features,
           computerRoot, romPath, renderMode, customDataDirs, customMounts, startupScript,
           startupArgs }

/-- The settings of a document. -/
def ofTree? : TomlTree → Option HostConfig
  | .table entries => default.amend? entries
  | _ => none

/-- The settings that a text holds. -/
def ofText? (text : String) : Option HostConfig := (TomlTree.parse text).bind ofTree?

/-- The settings in a file. -/
def load (tree : FileTree) (path : String) : Except ConfigError HostConfig :=
  match tree.readText path with
  | .error e => .error e.toConfigError
  | .ok text =>
    match ofText? text with
    | some c => .ok c
    | none => .error (.malformedHost "malformed document")

end HostConfig

end ComputerHost
