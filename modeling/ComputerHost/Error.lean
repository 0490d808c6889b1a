/-! # Errors

What can go wrong, as causes. Each kind has one function that words it.
-/

namespace ComputerHost

/-- Why a file operation failed. -/
inductive FileError where
  | notFound
  | alreadyExists
  | notADirectory
  | isADirectory
  | directoryNotEmpty
  | invalidData
  | invalidInput
  | invalidFilename
deriving DecidableEq, Repr

namespace FileError

/-- The name of a cause. -/
def name : FileError → String
  | .notFound => "NotFound"
  | .alreadyExists => "AlreadyExists"
  | .notADirectory => "NotADirectory"
  | .isADirectory => "IsADirectory"
  | .directoryNotEmpty => "DirectoryNotEmpty"
  | .invalidData => "InvalidData"
  | .invalidInput => "InvalidInput"
  | .invalidFilename => "InvalidFilename"

end FileError

/-- A required image could not be mounted while a computer was constructed. -/
structure MountFailure where
  image : String
  mountPoint : String
deriving DecidableEq, Repr

def MountFailure.message (f : MountFailure) : String :=
  s!"Could not mount {f.image} at /{f.mountPoint}"

/-- Settings could not be read or written. Each cause carries the wording of its detail. -/
inductive ConfigError where
  | file (cause : FileError) (detail : String)
  | malformedComputer (detail : String)
  | malformedHost (detail : String)
deriving DecidableEq, Repr

def ConfigError.message : ConfigError → String
  | .file _ detail => detail
  | .malformedComputer detail => s!"Invalid computer configuration: {detail}"
  | .malformedHost detail => s!"Invalid host configuration: {detail}"

/-- A computer could not be constructed or started. -/
inductive SpawnError where
  | mount (failure : MountFailure)
  | config (error : ConfigError)
  | dataDir (path detail : String)
  | thread (id : UInt32) (detail : String)
deriving DecidableEq, Repr

/-- The name of the kind. -/
def SpawnError.kind : SpawnError → String
  | .mount _ => "Mount"
  | .config _ => "Config"
  | .dataDir _ _ => "DataDir"
  | .thread _ _ => "Thread"

def SpawnError.message : SpawnError → String
  | .mount failure => failure.message
  | .config error => error.message
  | .dataDir path detail => s!"Could not create data directory {path}: {detail}"
  | .thread id detail => s!"Could not start thread for computer {id.toNat}: {detail}"

/-- An interpreter reported a failure. -/
inductive ScriptError where
  /-- An error that the running program raised. -/
  | runtime (message : String)
  | memory
  /-- A suspension where none is allowed. -/
  | yield (message : String)
deriving DecidableEq, Repr

/-- The name of the kind. -/
def ScriptError.kind : ScriptError → String
  | .runtime _ => "Runtime"
  | .memory => "Memory"
  | .yield _ => "Yield"

def ScriptError.message : ScriptError → String
  | .runtime message => message
  | .memory => "not enough memory"
  | .yield message => message

/-- A boot ended before the program was resumed. -/
inductive BootError where
  | biosMissing (path detail : String)
  | biosLoad (path detail : String)
  | state (error : ScriptError)
deriving DecidableEq, Repr

def BootError.message : BootError → String
  | .biosMissing path detail => s!"Couldn't load BIOS: {path} ({detail})"
  | .biosLoad path detail => s!"Couldn't load BIOS: {path} ({detail})"
  | .state error => s!"Couldn't create interpreter state: {error.message}"

/-- A load ended without a function. -/
inductive LoadError where
  /-- The load was given up. -/
  | cancelled
  /-- The reader failed or returned something that is no text. -/
  | reader (message : String)
  /-- The parser refused the source. -/
  | parse (message : String)
deriving DecidableEq, Repr

/-- The name of the kind. -/
def LoadError.kind : LoadError → String
  | .cancelled => "Cancelled"
  | .reader _ => "Reader"
  | .parse _ => "Parse"

def LoadError.message : LoadError → String
  | .cancelled => "load cancelled"
  | .reader message => message
  | .parse message => message

/-- A failure that escaped the execution loop of a computer. -/
structure HostException where
  id : UInt32
  lastCall : Option String
  detail : String
deriving DecidableEq, Repr

def HostException.message (e : HostException) : String :=
  let call := e.lastCall.getD "none"
  s!"Uncaught exception while executing computer {e.id.toNat} (last external call: {call}): {e.detail}"

end ComputerHost
