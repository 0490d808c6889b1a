import ComputerHost.Text

/-! # Arguments

What the arguments of the command line ask for. Arguments are read from left to right, and the first
one that is wrong decides. An option takes its value from the same argument or from the next one; it
may be given once.
-/

namespace ComputerHost.Command

/-- What a host is run with. -/
structure RunOptions where
  /-- The file of the host's settings. -/
  config : Option String
  /-- The id of the first computer. -/
  first : UInt32
  count : UInt32
  /-- A boot script in place of the ROM's. -/
  bios : Option String
  debugger : Bool
  standards : Bool
  /-- Keep no settings of computers. -/
  ephemeral : Bool
deriving DecidableEq, Repr

/-- What can be explained. -/
inductive Topic where
  | everything
  | run
  | config
  | help
deriving DecidableEq, Repr

inductive Request where
  | run (options : RunOptions)
  /-- Print the settings of the host. -/
  | config (file : Option String)
  | version
  | help (topic : Topic)
deriving DecidableEq, Repr

inductive UsageError where
  | noCommand
  | unknownCommand (name : String)
  | unexpected (argument : String)
  | valueMissing (option : String)
  | valueNotAllowed (option : String)
  | badValue (option value : String)
  | repeated (option : String)
deriving DecidableEq, Repr

def UsageError.message : UsageError → String
  | .noCommand => "a command is required"
  | .unknownCommand name => s!"unrecognized subcommand '{name}'"
  | .unexpected argument => s!"unexpected argument '{argument}' found"
  | .valueMissing option => s!"a value is required for '--{option}' but none was supplied"
  | .valueNotAllowed option => s!"unexpected value for '--{option}' found"
  | .badValue option value => s!"invalid value '{value}' for '--{option}'"
  | .repeated option => s!"the argument '--{option}' cannot be used multiple times"

/-! ## Options -/

/-- What the value of an option may be. -/
inductive OptionKind where
  /-- There is none. -/
  | flag
  /-- A path, which is not empty. -/
  | path
  /-- A natural number that fits in 32 bits. -/
  | number
deriving DecidableEq, Repr

structure OptionSpec where
  name : String
  letter : Option Char
  kind : OptionKind
deriving DecidableEq, Repr

/-- A natural number that fits in 32 bits. It may have a sign. -/
def number? (value : String) : Option UInt32 := do
  let n ← Text.int64? value.toList
  if 0 ≤ n.toInt && n.toInt < UInt32.size then return UInt32.ofNat n.toInt.toNat else none

def OptionKind.accepts (kind : OptionKind) (value : String) : Bool :=
  match kind with
  | .flag => true
  | .path => value != ""
  | .number => (number? value).isSome

/-- The options that were given, with their values. -/
abbrev Given := List (String × String)

/-- Put one more option to those that were given. -/
def give (given : Given) (spec : OptionSpec) (value : String) : Except UsageError Given :=
  if !spec.kind.accepts value then .error (.badValue spec.name value)
  else if (given.lookup spec.name).isSome then .error (.repeated spec.name)
  else .ok (given ++ [(spec.name, value)])

/-- What reading options comes to. -/
inductive OptionsRead where
  | given (options : Given)
  | helpWanted
deriving DecidableEq, Repr

/-- What one argument is. -/
inductive Argument where
  /-- Two dashes: no options follow. -/
  | separator
  | long (name : String) (value : Option String)
  /-- A letter and what stands behind it. -/
  | short (letter : Char) (behind : List Char)
  | plain (text : String)
deriving DecidableEq, Repr

def Argument.of (text : String) : Argument :=
  match text.toList with
  | ['-', '-'] => .separator
  | '-' :: '-' :: rest =>
    match Text.cutFirst? '=' rest with
    | some (name, value) => .long (String.ofList name) (some (String.ofList value))
    | none => .long (String.ofList rest) none
  | '-' :: letter :: behind => .short letter behind
  | _ => .plain text

/-- Read options. While `pending` is there, it waits for its value. -/
def readOptions (specs : List OptionSpec) (pending : Option OptionSpec) (given : Given) :
    List String → Except UsageError OptionsRead
  | [] =>
    match pending with
    | some spec => .error (.valueMissing spec.name)
    | none => .ok (.given given)
  | text :: rest =>
    match pending, Argument.of text with
    | some spec, .plain value => do readOptions specs none (← give given spec value) rest
    | some spec, _ => .error (.valueMissing spec.name)
    | none, .plain _ => .error (.unexpected text)
    | none, .separator =>
      match rest with
      | [] => .ok (.given given)
      | text :: _ => .error (.unexpected text)
    | none, .long name value =>
      if name = "help" then
        if value.isSome then .error (.valueNotAllowed name) else .ok .helpWanted
      else
        match specs.find? (·.name == name), value with
        | none, _ => .error (.unexpected text)
        | some spec, some value =>
          if spec.kind = .flag then .error (.valueNotAllowed name)
          else do readOptions specs none (← give given spec value) rest
        | some spec, none =>
          if spec.kind = .flag then do readOptions specs none (← give given spec "") rest
          else readOptions specs (some spec) given rest
    | none, .short letter behind =>
      if letter = 'h' then .ok .helpWanted
      else
        match specs.find? (·.letter == some letter), behind with
        | none, _ => .error (.unexpected text)
        | some spec, [] => readOptions specs (some spec) given rest
        | some spec, '=' :: value => do
          readOptions specs none (← give given spec (String.ofList value)) rest
        | some spec, value => do
          readOptions specs none (← give given spec (String.ofList value)) rest

/-! ## Commands -/

def configOption : OptionSpec := ⟨"config", some 'c', .path⟩

def runOptions : List OptionSpec :=
  [configOption, ⟨"id", none, .number⟩, ⟨"count", some 'n', .number⟩, ⟨"bios", none, .path⟩,
   ⟨"debugger", none, .flag⟩, ⟨"standards", none, .flag⟩, ⟨"ephemeral", none, .flag⟩]

/-- The options of a run, with the defaults for those that were not given. -/
def RunOptions.ofGiven (given : Given) : RunOptions where
  config := given.lookup "config"
  first := ((given.lookup "id").bind number?).getD 0
  count := ((given.lookup "count").bind number?).getD 1
  bios := given.lookup "bios"
  debugger := (given.lookup "debugger").isSome
  standards := (given.lookup "standards").isSome
  ephemeral := (given.lookup "ephemeral").isSome

/-- The topic of a request for help. -/
def topic? : List String → Except UsageError Topic
  | [] => .ok .everything
  | ["run"] => .ok .run
  | ["config"] => .ok .config
  | ["help"] => .ok .help
  | "run" :: name :: _ | "config" :: name :: _ | "help" :: name :: _ => .error (.unknownCommand name)
  | name :: _ => .error (.unknownCommand name)

/-- What arguments ask for. -/
def parse : List String → Except UsageError Request
  | [] => .error .noCommand
  | "run" :: args => do
    match ← readOptions runOptions none [] args with
    | .given options => return .run (.ofGiven options)
    | .helpWanted => return .help .run
  | "config" :: args => do
    match ← readOptions [configOption] none [] args with
    | .given options => return .config (options.lookup "config")
    | .helpWanted => return .help .config
  | "help" :: args => (topic? args).map .help
  | text :: rest =>
    match Argument.of text with
    | .long "help" none | .short 'h' _ => .ok (.help .everything)
    | .long "version" none | .short 'V' _ => .ok .version
    | .long "help" (some _) => .error (.valueNotAllowed "help")
    | .long "version" (some _) => .error (.valueNotAllowed "version")
    | .separator =>
      match rest with
      | [] => .error .noCommand
      | text :: _ => .error (.unexpected text)
    | .plain name => .error (.unknownCommand name)
    | _ => .error (.unexpected text)

/-! ## Help -/

/-- The explanation of a topic. -/
def Topic.text : Topic → String
  | .everything => "Virtual computer host

Usage: tinkerbox <COMMAND>

Commands:
  run     Boot computers and run them until they all stop
  config  Print the effective host configuration
  help    Print this message or the help of the given subcommand(s)

Options:
  -h, --help     Print help
  -V, --version  Print version
"
  | .run => "Boot computers and run them until they all stop

Usage: tinkerbox run [OPTIONS]

Options:
  -c, --config <CONFIG>  Host configuration file (TOML)
      --id <ID>          First computer id [default: 0]
  -n, --count <COUNT>    Number of computers to boot [default: 1]
      --bios <BIOS>      Boot script to use instead of the ROM's
      --debugger         Boot debugger instances
      --standards        Force standards mode
      --ephemeral        Do not persist computer settings
  -h, --help             Print help
"
  | .config => "Print the effective host configuration

Usage: tinkerbox config [OPTIONS]

Options:
  -c, --config <CONFIG>  Host configuration file (TOML)
  -h, --help             Print help
"
  | .help => "Print this message or the help of the given subcommand(s)

Usage: tinkerbox help [COMMAND]...

Arguments:
  [COMMAND]...  Print help for the subcommand(s)
"

end ComputerHost.Command
