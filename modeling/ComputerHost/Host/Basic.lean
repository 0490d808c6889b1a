import ComputerHost.ConfigStore
import ComputerHost.Host.Stage
import ComputerHost.Peripheral
import ComputerHost.Plugin
import ComputerHost.Registry
import ComputerHost.TaskQueue
import ComputerHost.TimerService

/-! # Hosts

The state of a host: what it was set up with, everything that its computers share, and the computers
with their threads. Computers stay in the state when they are gone, so that their end can be looked
at; the registry says which are live.

Times are milliseconds on the host's clock. It stands still while there is something to do and is
moved on by whoever waits.
-/

namespace ComputerHost

/-- Where the boot script is. -/
inductive BiosSource where
  /-- In a file, read anew for every boot. -/
  | file (path : String)
  | embedded (source : String)
deriving DecidableEq, Repr

/-- The name of the place in messages. -/
def BiosSource.name : BiosSource → String
  | .file path => path
  | .embedded _ => "embedded BIOS"

/-- Failures of the interpreter. States are numbered from one, and so are the resumes of a state. -/
structure Faults where
  newState : Nat → Option ScriptError
  newCoroutine : Nat → Option ScriptError
  resume : Nat → Nat → Option ScriptError

/-- An interpreter without failures of its own. -/
def Faults.none : Faults := ⟨fun _ => .none, fun _ => .none, fun _ _ => .none⟩

instance : Inhabited Faults := ⟨Faults.none⟩

/-- What a host is set up with and does not change. -/
structure HostSetup where
  config : HostConfig
  bios : BiosSource
  libraries : List Library
  /-- The globals that plugins leave behind, if plugins are loaded at all. -/
  plugins : Option (List (String × Value))
  pluginFailures : List Plugin.Failure
  terminals : RenderMode
  faults : Faults
  /-- How devices answer calls. -/
  answer : DeviceCall → DeviceAnswer
  /-- What the finalizers do to the settings of the computer that they run for. -/
  finalize : String → ComputerConfig → ComputerConfig

/-- The setup of a host with the standard libraries, without plugins and devices, and with finalizers
that leave the settings as they are. -/
def HostSetup.standard (config : HostConfig) : HostSetup :=
  { config, bios := .file config.biosPath, libraries := Library.standard, plugins := none,
    pluginFailures := [], terminals := config.renderMode, faults := Faults.none,
    answer := fun call => .refused s!"No such method {call.method}",
    finalize := fun _ config => config }

/-- A message for people: on a terminal, or by the host itself. -/
structure Dialog where
  terminal : Option Nat
  title : String
  message : String
deriving DecidableEq, Repr, Inhabited

structure Host where
  setup : HostSetup
  tree : FileTree
  store : ConfigStore
  clock : Nat
  counters : Counters
  registry : Registry
  /-- Every computer that was constructed, in order. -/
  computers : List Computer
  /-- What the threads of the started computers do next, oldest first. -/
  threads : List (Handle × Stage)
  /-- The threads that nobody has waited for yet. -/
  unjoined : List Handle
  timers : TimerService
  /-- Timers that have been taken from the service and whose computers have not been looked for. -/
  due : List TimerEntry
  /-- The timer whose computer has been found and that has not fired yet. -/
  firing : Option TimerEntry
  tasks : TaskQueue Dialog
  /-- The messages that the host itself has shown. -/
  notices : List (String × String)
  /-- Every terminal that was made, with the id of the computer it was made for. -/
  terminals : List (UInt32 × Terminal)
  /-- The terminals kept because their computer failed. -/
  orphans : List Nat
  peripherals : List (String × Peripheral)
  /-- What programs have logged, by computer id. -/
  transcripts : List (UInt32 × List String)
  /-- How many interpreter states were asked for. -/
  states : Nat
  journal : List JournalEntry

namespace Host

/-- A host without computers. -/
def new (setup : HostSetup) (tree : FileTree) (store : ConfigStore) : Host :=
  { setup, tree, store, clock := 0, counters := Counters.start, registry := Registry.empty,
    computers := [], threads := [], unjoined := [], timers := TimerService.empty, due := [],
    firing := none, tasks := TaskQueue.empty, notices := [], terminals := [], orphans := [],
    peripherals := [], transcripts := [], states := 0, journal := [] }

def config (h : Host) : HostConfig := h.setup.config

/-! ## Computers -/

/-- The computer that a handle names. -/
def computer? (h : Host) (who : Handle) : Option Computer :=
  h.computers.find? (·.handle == who)

/-- Change a computer. -/
def modify (h : Host) (who : Handle) (f : Computer → Computer) : Host :=
  { h with computers := h.computers.map fun c => if c.handle = who then f c else c }

/-- Change a computer in a way that has an answer. -/
def update {α : Type} (h : Host) (who : Handle) (f : Computer → α × Computer) (other : α) :
    α × Host :=
  match h.computer? who with
  | some c => ((f c).1, h.modify who fun c => (f c).2)
  | none => (other, h)

def isRunning (h : Host) (who : Handle) : Bool :=
  ((h.computer? who).map (·.isRunning)).getD false

/-! ## Journal and transcripts -/

/-- Write down what was done for a computer. -/
def note (h : Host) (who : Handle) (deed : Deed) : Host :=
  let phase := ((h.computer? who).map (·.phase)).getD .booting
  { h with journal := h.journal ++ [⟨who.id, some who, phase, deed⟩] }

/-- What a computer id has logged. -/
def transcript (h : Host) (id : UInt32) : List String :=
  (h.transcripts.lookup id).getD []

/-- Append lines to a transcript. -/
def log (h : Host) (id : UInt32) (lines : List String) : Host :=
  if lines.isEmpty then h
  else if h.transcripts.any (·.1 == id) then
    { h with transcripts := h.transcripts.map fun (i, old) =>
        if i = id then (i, old ++ lines) else (i, old) }
  else { h with transcripts := h.transcripts ++ [(id, lines)] }

/-! ## Events -/

/-- Queue an event for a computer. -/
def queueEvent (h : Host) (who : Handle) (e : Event) : Host := h.modify who (·.queue e)

/-- Queue an event for every registered computer. -/
def broadcast (h : Host) (e : Event) : Host :=
  h.registry.registered.foldl (fun h who => h.queueEvent who e) h

/-- Ask every registered computer to stop. -/
def shutdownAll (h : Host) : Host :=
  h.registry.registered.foldl (fun h who => h.modify who Computer.shutdown) h

/-! ## Terminals and dialogs -/

def terminal? (h : Host) (n : Nat) : Option Terminal := (h.terminals[n]?).map (·.2)

/-- Change a terminal. -/
def onTerminal (h : Host) (n : Nat) (f : Terminal → Terminal) : Host :=
  { h with terminals := h.terminals.modify n fun (id, t) => (id, f t) }

/-- Write down what was done to the terminal made for a computer id. -/
def noteFor (h : Host) (id : UInt32) (phase : BootPhase) (deed : Deed) : Host :=
  { h with journal := h.journal ++ [⟨id, none, phase, deed⟩] }

/-- The terminal that a computer has, and its number. -/
def terminalOf? (h : Host) (who : Handle) : Option (Nat × Terminal) := do
  let n ← (← h.computer? who).terminal
  return (n, ← h.terminal? n)

/-- Show a failure on the terminal of a computer. -/
def showFatal (h : Host) (who : Handle) (n : Nat) (message : String) : Host :=
  (h.onTerminal n (·.showFatal message)).note who .terminalFailed

/-- Show a message when tasks are run: on a terminal if there is one. -/
def showDialog (h : Host) (terminal : Option Nat) (title message : String) : Host :=
  { h with tasks := h.tasks.push (Task.leaf ⟨terminal, title, message⟩) }

/-- Show one message. -/
def perform (h : Host) (d : Dialog) : Host :=
  match d.terminal with
  | some n => h.onTerminal n (·.showMessage d.title d.message)
  | none => { h with notices := h.notices ++ [(d.title, d.message)] }

/-- Run the tasks that are waiting, and how many there were. -/
def runTasks (h : Host) : Nat × Host :=
  let (dialogs, tasks) := h.tasks.runPending
  (dialogs.length, dialogs.foldl perform { h with tasks })

/-! ## Threads -/

/-- What the thread of a computer does next. -/
def stage? (h : Host) (who : Handle) : Option Stage := h.threads.lookup who

def setStage (h : Host) (who : Handle) (stage : Stage) : Host :=
  { h with threads := h.threads.map fun (w, s) => if w = who then (w, stage) else (w, s) }

/-- Is the thread of a computer at its end? A computer without a thread has nothing to end. -/
def isGone (h : Host) (who : Handle) : Bool :=
  match h.stage? who with
  | some stage => stage.isGone
  | none => true

end Host

end ComputerHost
