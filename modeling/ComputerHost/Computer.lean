import ComputerHost.Breakpoint
import ComputerHost.ComputerConfig
import ComputerHost.EventQueue
import ComputerHost.Handle
import ComputerHost.Mount

/-! # Computers

What belongs to one computer, from its construction to the end of its teardown. A computer's program
and its interpreter are not here: they live no longer than a boot.

Whether a computer should run is its run state. Once it is stopped it stays stopped
(`runState_reboot_of_stopped`, `beginBoot_of_stopped`, `runState_finish_of_stopped`).
-/

namespace ComputerHost

/-- Should a computer go on running? -/
inductive RunState where
  | stopped
  | running
  /-- The boot should end and another one follow. -/
  | rebooting
deriving DecidableEq, Repr, Inhabited

def RunState.name : RunState → String
  | .stopped => "Stopped"
  | .running => "Running"
  | .rebooting => "Rebooting"

/-- How far a computer has come. -/
inductive BootPhase where
  | booting
  | loadingLibraries
  | loadingBios
  | running
  /-- Between two boots. -/
  | rebooting
  | stopped
deriving DecidableEq, Repr, Inhabited

def BootPhase.name : BootPhase → String
  | .booting => "Booting"
  | .loadingLibraries => "LoadingLibs"
  | .loadingBios => "LoadingBios"
  | .running => "Running"
  | .rebooting => "Rebooting"
  | .stopped => "Stopped"

/-- A connection that a program has opened. -/
structure Connection where
  id : Nat
  name : String
deriving DecidableEq, Repr

structure Computer where
  handle : Handle
  isDebugger : Bool
  runState : RunState
  phase : BootPhase
  events : EventQueue
  /-- The names of the attached peripherals by side, the latest last. -/
  peripherals : List (String × String)
  connections : List Connection
  nextConnection : Nat
  breakpoints : BreakpointTable
  /-- The number of its terminal among those of the host. -/
  terminal : Option Nat
  mounts : MountTable
  config : ComputerConfig
  dataDir : String
  /-- The timers that have been started and have neither fired nor been cancelled. -/
  timers : List TimerId
  /-- The timers that its teardown has taken and not marked yet. -/
  takenTimers : List TimerId
  debounce : Option TimerId
  /-- What is to be run when the computer is torn down, in order. -/
  finalizers : List String
  /-- The last call from the program to the outside. -/
  lastCall : Option String
  /-- Is its host still there? -/
  hasHost : Bool

namespace Computer

/-- A computer that has just been constructed. -/
def new (handle : Handle) (isDebugger : Bool) (terminal : Option Nat) (mounts : MountTable)
    (config : ComputerConfig) (dataDir : String) : Computer :=
  { handle, isDebugger, runState := .running, phase := .booting, events := EventQueue.empty,
    peripherals := [], connections := [], nextConnection := 1,
    breakpoints := BreakpointTable.empty, terminal, mounts, config, dataDir, timers := [],
    takenTimers := [], debounce := none, finalizers := [], lastCall := none, hasHost := true }

def id (c : Computer) : UInt32 := c.handle.id

/-- The text that shows a computer to people. -/
def describe (c : Computer) : String :=
  let handle := s!"ComputerHandle \x7b id: {c.handle.id.toNat}, generation: {c.handle.generation} \x7d"
  s!"Computer \x7b handle: {handle}, is_debugger: {c.isDebugger}, run_state: {c.runState.name} \x7d"

/-! ## Running -/

def isRunning (c : Computer) : Bool := c.runState == .running

/-- Ask the computer to stop. -/
def shutdown (c : Computer) : Computer := { c with runState := .stopped }

/-- Ask the computer to boot again, unless it was asked to stop. -/
def reboot (c : Computer) : Computer :=
  if c.runState = .stopped then c else { c with runState := .rebooting }

/-- Begin a boot, unless the computer was asked to stop. Requests for a reboot are met by it. -/
def beginBoot (c : Computer) : Bool × Computer :=
  if c.runState = .stopped then (false, c) else (true, { c with runState := .running })

/-- Stop, unless something was asked of the computer already. -/
def finish (c : Computer) : Computer :=
  if c.runState = .running then { c with runState := .stopped } else c

def setPhase (c : Computer) (phase : BootPhase) : Computer := { c with phase }

/-! Requests, and the beginning and the end of a boot, concern the run state alone. -/

theorem reboot_frame (c : Computer) : c.reboot = { c with runState := c.reboot.runState } := by
  unfold reboot
  split <;> rfl

theorem beginBoot_frame (c : Computer) :
    c.beginBoot.2 = { c with runState := c.beginBoot.2.runState } := by
  unfold beginBoot
  split <;> rfl

theorem finish_frame (c : Computer) : c.finish = { c with runState := c.finish.runState } := by
  unfold finish
  split <;> rfl

@[simp] theorem runState_shutdown (c : Computer) : c.shutdown.runState = .stopped := rfl

theorem runState_reboot_of_stopped {c : Computer} (h : c.runState = .stopped) :
    c.reboot.runState = .stopped := by
  simp [reboot, h]

theorem beginBoot_of_stopped {c : Computer} (h : c.runState = .stopped) :
    c.beginBoot = (false, c) := by
  simp [beginBoot, h]

theorem runState_finish_of_stopped {c : Computer} (h : c.runState = .stopped) :
    c.finish.runState = .stopped := by
  simp [finish, h]

/-! ## Events -/

def queue (c : Computer) (e : Event) : Computer := { c with events := c.events.push e }

/-! ## Peripherals -/

/-- The name of the peripheral at a side. -/
def peripheral? (c : Computer) (side : String) : Option String := c.peripherals.lookup side

/-- The sides with something attached, in alphabetical order. -/
def sides (c : Computer) : List String :=
  (c.peripherals.map (·.1)).mergeSort fun a b => !decide (b < a)

/-! ## Connections -/

/-- Keep an open connection: its number. -/
def openConnection (c : Computer) (name : String) : Nat × Computer :=
  (c.nextConnection,
    { c with connections := c.connections ++ [⟨c.nextConnection, name⟩],
             nextConnection := c.nextConnection + 1 })

/-- Let go of a connection. -/
def takeConnection (c : Computer) (id : Nat) : Option Connection × Computer :=
  (c.connections.find? (·.id == id),
    { c with connections := c.connections.filter (·.id != id) })

/-- Let go of all connections. -/
def takeConnections (c : Computer) : List Connection × Computer :=
  (c.connections, { c with connections := [] })

/-! ## Timers -/

def trackTimer (c : Computer) (id : TimerId) : Computer := { c with timers := c.timers ++ [id] }

/-- Forget a timer, and whether it was running. -/
def dropTimer (c : Computer) (id : TimerId) : Bool × Computer :=
  (c.timers.contains id, { c with timers := c.timers.filter (· != id) })

/-- Take all timers, so that none of them fires any more. -/
def takeTimers (c : Computer) : Computer :=
  { c with timers := [], takenTimers := c.takenTimers ++ c.timers }

/-- Put a debounced event in place of the one before: that one's timer. -/
def armDebounce (c : Computer) (id : TimerId) : Option TimerId × Computer :=
  (c.debounce, { c with debounce := some id })

/-- A timer has fired. Its event is queued if the computer still waits for it. -/
def timerFired (c : Computer) (id : TimerId) (e : Event) : Computer :=
  if c.timers.contains id then (c.dropTimer id).2.queue e
  else if c.debounce = some id then { c with debounce := none }.queue e
  else c

end Computer

end ComputerHost
