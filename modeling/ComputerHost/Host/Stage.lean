import ComputerHost.Host.Journal
import ComputerHost.Script.Interpreter

/-! # The stages of a computer's thread

Every started computer has a thread of its own, which takes it through its boots and tears it down at
the end. A stage says what the thread does next; each is one move, so that the moves of several
threads can come in any order.

`bootPlan` and `teardownPlan` are the moves of a boot and of a teardown, in order.
-/

namespace ComputerHost

/-- One move of a boot. -/
inductive BootStep where
  | resetTerminal
  | openState
  | openCoroutine
  | clearEvents
  | reinitializePeripherals
  | bindComputer
  | openBase
  | openLibrary (library : Library) (surfaces : List String)
  | showPluginFailures
  | loadPlugins
  | setGlobals
  | chooseLoader
  | loadBios
  | enterProgram

/-- The moves of a boot. -/
def bootPlan (config : HostConfig) (isDebugger : Bool) (libraries : List Library) : List BootStep :=
  let caps := CapabilitySet.resolve config isDebugger
  [.resetTerminal, .openState, .openCoroutine, .clearEvents, .reinitializePeripherals,
    .bindComputer, .openBase] ++
  (Library.opened libraries caps).map (fun (l, surfaces) => .openLibrary l surfaces) ++
  (if config.vanilla then [] else [.showPluginFailures, .loadPlugins]) ++
  [.setGlobals] ++
  (if config.standardsMode then [.chooseLoader] else []) ++
  [.loadBios, .enterProgram]

/-- What lives as long as one boot: its interpreter state and the libraries opened into it. -/
structure Session where
  interpreter : Script.Interpreter
  /-- The number of the state among all that the host has created. -/
  ordinal : Nat
  main : Nat
  opened : List Library
  /-- How many times the program has been resumed. -/
  resumes : Nat

/-- How a boot ends. -/
inductive Ending where
  | ordinary
  | failed (error : BootError)
  | panicked (message : String)
deriving DecidableEq

/-- One move of a teardown. -/
inductive TeardownStep where
  | retire
  | runFinalizers
  | releaseTerminal
  | saveConfig
  | releasePeripherals
  | detachReferences
  | takeTimers
  /-- Mark the timers that were taken. -/
  | invalidateTimers
  | cancelDebounce
  | closeConnections
  | release
deriving DecidableEq, Repr

/-- The moves of a teardown. -/
def teardownPlan : List TeardownStep :=
  [.retire, .runFinalizers, .releaseTerminal, .saveConfig, .releasePeripherals, .detachReferences,
   .takeTimers, .invalidateTimers, .cancelDebounce, .closeConnections, .release]

/-- What a thread does next. In the stages of a running program, `warned` says that the program was
told to terminate for idleness and nothing has come for it since. -/
inductive Stage where
  /-- Boot, unless the computer was asked to stop. -/
  | betweenBoots
  /-- Go on with the moves of a boot. -/
  | booting (todo : List BootStep) (session : Option Session)
  /-- Resume the program, unless something was asked of the computer. -/
  | resuming (session : Session) (args : List Value) (warned : Bool)
  /-- Execute the next line of the program. -/
  | executing (session : Session) (program : Script.Program) (warned : Bool)
  /-- Wait until a device lets the program go on. -/
  | held (session : Session) (program : Script.Program) (request : Script.Request)
      (device : String) (warned : Bool)
  /-- The program has suspended. -/
  | suspended (session : Session) (values : List Value) (warned : Bool)
  /-- Wait for an event that passes a filter. -/
  | waiting (session : Session) (filter : String) (deadline : Nat) (warned : Bool)
  /-- Clean up after a boot. -/
  | leaving (session : Option Session) (ending : Ending)
  /-- See how the boot has ended. -/
  | ended (ending : Ending)
  /-- There will be no further boot. -/
  | stopping
  | tearingDown (todo : List TeardownStep)
  | gone

/-- Is the thread at its end? -/
def Stage.isGone : Stage → Bool
  | .gone => true
  | _ => false

end ComputerHost
