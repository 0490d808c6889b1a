import ComputerHost.FilePath
import ComputerHost.Mount
import ComputerHost.Terminal

/-! # Settings of the host

What holds for every computer of a host: which interfaces are open, how long a program may stay idle,
where computers keep their files, and what is mounted into them.
-/

namespace ComputerHost

/-- A data directory for one computer id. -/
structure CustomDataDir where
  id : UInt32
  path : String
deriving DecidableEq, Repr

/-- A host directory that should appear inside every computer. -/
structure CustomMount where
  mountPoint : String
  hostPath : String
  policy : MountPolicy
deriving DecidableEq, Repr

structure HostConfig where
  /-- Strict compatibility: failures go to the terminal, loads may suspend, and the idle time is
  the shorter one. -/
  standardsMode : Bool
  /-- Close everything that is not standard. -/
  vanilla : Bool
  /-- Close network listeners and the mounter. -/
  serverMode : Bool
  httpEnable : Bool
  debugEnable : Bool
  mountMode : MountMode
  romReadOnly : Bool
  /-- The idle time in milliseconds. -/
  abortTimeoutMs : UInt64
  /-- The idle time in milliseconds under strict compatibility. -/
  standardsTimeoutMs : UInt64
  defaultComputerSettings : String
  disableLua51Features : Bool
  /-- Where the data directories of computers are. -/
  computerRoot : String
  /-- Where the ROM, the debugger's ROM and the boot script are. -/
  romPath : String
  renderMode : RenderMode
  customDataDirs : List CustomDataDir
  customMounts : List CustomMount
  /-- The path of a startup script, or its source after an escape character. -/
  startupScript : Option String
  startupArgs : Option String
deriving DecidableEq, Repr

namespace HostConfig

def default : HostConfig where
  standardsMode := false
  vanilla := false
  serverMode := false
  httpEnable := true
  debugEnable := true
  mountMode := .readOnlyStrict
  romReadOnly := true
  abortTimeoutMs := 17000
  standardsTimeoutMs := 7000
  defaultComputerSettings := ""
  disableLua51Features := false
  computerRoot := "computer"
  romPath := "."
  renderMode := .headless
  customDataDirs := []
  customMounts := []
  startupScript := none
  startupArgs := none

instance : Inhabited HostConfig := ⟨default⟩

/-- How long a suspended program may go without an event, in milliseconds. -/
def idleMs (c : HostConfig) : Nat :=
  if c.standardsMode then c.standardsTimeoutMs.toNat else c.abortTimeoutMs.toNat

/-- The data directory of a computer: the first one given for its id, or one named by the id. -/
def dataDir (c : HostConfig) (id : UInt32) : String :=
  match c.customDataDirs.find? (·.id == id) with
  | some d => d.path
  | none => FilePath.join c.computerRoot (toString id.toNat)

/-- The directory that is mounted as ROM. -/
def romDir (c : HostConfig) : String := FilePath.join c.romPath "rom"

/-- The directory that is mounted as the debugger's ROM. -/
def debugRomDir (c : HostConfig) : String := FilePath.join c.romPath "debug"

/-- The boot script unless another one is given. -/
def biosPath (c : HostConfig) : String := FilePath.join c.romPath "bios.lua"

/-- A settings value with every path in a spelling by its components. -/
structure Normal where
  config : HostConfig
  absolute : List Bool
  parts : List (List String)
deriving DecidableEq

/-- The paths of the settings, in order. -/
def paths (c : HostConfig) : List String :=
  c.computerRoot :: c.romPath :: (c.customDataDirs.map (·.path) ++ c.customMounts.map (·.hostPath))

/-- The settings without the spelling of their paths. -/
def normal (c : HostConfig) : Normal where
  config :=
    { c with
      computerRoot := ""
      romPath := ""
      customDataDirs := c.customDataDirs.map fun d => { d with path := "" }
      customMounts := c.customMounts.map fun m => { m with hostPath := "" } }
  absolute := c.paths.map FilePath.isAbsolute
  parts := c.paths.map FilePath.components

/-- Do two settings agree up to the spelling of their paths? -/
def agrees (a b : HostConfig) : Bool :=
  a.normal == b.normal

end HostConfig

end ComputerHost
