import ComputerHost.Command.Arguments
import ComputerHost.Host.Run
import ComputerHost.HostConfig.Document

/-! # Executing commands

A run boots computers with ids in a row, lets them run until they have all stopped, and prints what each
of them has logged. A computer that cannot be started is passed over; a run in which none can be
started fails.
-/

namespace ComputerHost.Command

/-- What a user has on the machine. -/
structure Surroundings where
  /-- The directory for settings. -/
  configDir : Option String
  /-- The directory for data. -/
  dataDir : Option String
deriving DecidableEq, Repr

/-- The directories in a user's home. -/
def Surroundings.ofHome (home : String) : Surroundings :=
  ⟨some (FilePath.join home ".config"), some (FilePath.join home ".local/share")⟩

namespace Surroundings

/-- The directory for the settings of hosts. -/
def settingsDir (s : Surroundings) : Option String :=
  s.configDir.map (FilePath.join · "tinkerbox")

/-- The file of a host's settings if no other one is given. -/
def settingsFile (s : Surroundings) : Option String :=
  s.settingsDir.map (FilePath.join · "config.toml")

/-- The directory for the settings of computers. -/
def computersDir (s : Surroundings) (config : HostConfig) : String :=
  match s.settingsDir with
  | some dir => FilePath.join dir "computers"
  | none => FilePath.join config.computerRoot ".config"

end Surroundings

/-- Why a command failed. -/
inductive CommandError where
  | usage (error : UsageError)
  | config (path : String) (error : ConfigError)
  | nothingStarted
  /-- Computers were still running after as many steps as were allowed. -/
  | stillRunning
deriving DecidableEq, Repr

def CommandError.message : CommandError → String
  | .usage error => error.message
  | .config path error => s!"Failed to read config {path}: {error.message}"
  | .nothingStarted => "No computer could be started"
  | .stillRunning => "The computers did not stop"

/-- The exit code of a failure. -/
def CommandError.code : CommandError → Nat
  | .usage _ => 2
  | _ => 1

/-- The settings of the host: from the file that is given, else from the user's file, else the defaults
with the computers in the user's data directory. -/
def loadConfig (s : Surroundings) (tree : FileTree) (file : Option String) :
    Except CommandError HostConfig :=
  let read (path : String) : Except CommandError HostConfig :=
    (HostConfig.load tree path).mapError (.config path)
  match file, s.settingsFile.filter tree.holds with
  | some path, _ => read path
  | none, some path => read path
  | none, none =>
    .ok (match s.dataDir with
      | some dir =>
        { HostConfig.default with computerRoot := FilePath.join dir "tinkerbox/computer" }
      | none => HostConfig.default)

/-- The ids of a run: as many as asked for, below the largest id there is. -/
def ids (first count : UInt32) : List UInt32 :=
  let bound := min (first.toNat + count.toNat) (UInt32.size - 1)
  (List.range' first.toNat (bound - first.toNat)).map UInt32.ofNat

/-- The paths that a run looks at when it has its settings. -/
def paths (options : RunOptions) (s : Surroundings) (config : HostConfig) : List String :=
  [config.romDir, config.debugRomDir, options.bios.getD config.biosPath] ++
  config.startupScript.toList ++
  config.customMounts.map (·.hostPath) ++
  (ids options.first options.count).flatMap fun id =>
    [config.dataDir id, ConfigStore.path (s.computersDir config) id]

/-- The host of a run. -/
def host (options : RunOptions) (s : Surroundings) (config : HostConfig) (tree : FileTree) : Host :=
  let setup := HostSetup.standard config
  let setup := match options.bios with
    | some path => { setup with bios := .file path }
    | none => setup
  Host.new setup tree
    (if options.ephemeral then .memory [] else .files (s.computersDir config))

/-- Start computers in order: those that could be started, and the host. -/
def startAll (isDebugger : Bool) : List UInt32 → Host → List Handle × Host
  | [], h => ([], h)
  | id :: rest, h =>
    match h.spawn id isDebugger with
    | (.ok who, h) =>
      let (started, h) := startAll isDebugger rest h
      (who :: started, h)
    | (.error _, h) => startAll isDebugger rest h

/-- The lines that a computer has logged, each behind its id. -/
def report (h : Host) (who : Handle) : List String :=
  (h.transcript who.id).map fun line => s!"[{who.id.toNat}] {line}"

/-- Run computers: the lines to print, and the host in the end. -/
def run (fuel : Nat) (options : RunOptions) (h : Host) : Except CommandError (List String) × Host :=
  let (started, h) := startAll options.debugger (ids options.first options.count) h
  if started.isEmpty then (.error .nothingStarted, h.runTasks.2)
  else
    let h := h.waitUntil (·.registry.isEmpty) fuel fuel
    if h.registry.isEmpty then
      let h := (h.joinAll fuel fuel).runTasks.2
      (.ok (started.flatMap (report h)), h)
    else (.error .stillRunning, h)

/-- What executing a command comes to. -/
structure Outcome where
  output : Except CommandError String
  tree : FileTree

/-- Execute what arguments ask for. The computers of a run may make at most so many steps. -/
def execute (fuel : Nat) (s : Surroundings) (tree : FileTree) (args : List String) : Outcome :=
  match parse args with
  | .error e => ⟨.error (.usage e), tree⟩
  | .ok .version => ⟨.ok s!"tinkerbox {Host.version}\n", tree⟩
  | .ok (.help topic) => ⟨.ok topic.text, tree⟩
  | .ok (.config file) => ⟨(loadConfig s tree file).map HostConfig.toText, tree⟩
  | .ok (.run options) =>
    match loadConfig s tree options.config with
    | .error e => ⟨.error e, tree⟩
    | .ok config =>
      let config := { config with standardsMode := config.standardsMode || options.standards }
      let (lines, h) := run fuel options (host options s config tree)
      ⟨lines.map fun lines => String.join (lines.map (· ++ "\n")), h.tree⟩

/-- The exit code of an outcome. -/
def Outcome.code (o : Outcome) : Nat :=
  match o.output with
  | .ok _ => 0
  | .error e => e.code

end ComputerHost.Command
