import ComputerHost.Event
import ComputerHost.Handle
import ComputerHost.Hook
import ComputerHost.Script.Program

/-! # The interpreter

An interpreter state holds what the host has put into it and the programs of its coroutines. A program
runs line by line (`Program.execute`). What it cannot do by itself it asks the computer for that is
bound to the state: the execution stops with a request and goes on with the reply
(`Request.resolve`), which may be a long time coming.

Whatever a program observes it appends to a transcript; execution answers with the lines to append.
-/

namespace ComputerHost.Script

/-- What a program asks its computer for. -/
inductive Request where
  | shutdown
  | reboot
  | setBreakpoint (source : String) (line : Int64)
  | clearBreakpoint (id : UInt32)
  | startTimer (ms : Nat)
  | queue (event : Event)
  | call (side method : String) (args : List Value)
  | setLabel (text : String)
deriving DecidableEq, Repr

/-- What the computer replies. -/
inductive Reply where
  | done
  | breakpoint (id : Nat) (changes : List HookChange)
  | cleared (found : Bool) (changes : List HookChange)
  | timer (id : TimerId)
  | results (values : List Value)
  | refused (message : String)
  | panicked (message : String)
deriving DecidableEq, Repr

/-- What comes after a line has been executed. -/
inductive Turn where
  /-- The next line. -/
  | next
  | ask (request : Request)
  | suspend (values : List Value)
  | finish
  | fail (error : ScriptError)
  | panic (message : String)
deriving DecidableEq, Repr

structure Interpreter where
  /-- The id of the computer bound to the state. -/
  bound : Option UInt32
  globals : List (String × Value)
  /-- The globals of the base library that are left out. -/
  hidden : List String
  libraries : List (String × List String)
  hooks : HookSet
  loader : Load.Loader
  /-- The coroutines' programs, `none` for one that is dead or has no program yet. -/
  coroutines : List (Option Program)

namespace Interpreter

/-- A fresh state. -/
def fresh : Interpreter :=
  { bound := none, globals := [], hidden := [], libraries := [], hooks := HookSet.empty,
    loader := .blocking, coroutines := [] }

instance : Inhabited Interpreter := ⟨fresh⟩

/-- The id that transcripts of unbound states are kept under. -/
def unboundId : UInt32 := 4294967295

/-- The id that the state's transcript is kept under. -/
def transcriptId (st : Interpreter) : UInt32 := st.bound.getD unboundId

def createCoroutine (st : Interpreter) : Nat × Interpreter :=
  (st.coroutines.length, { st with coroutines := st.coroutines ++ [none] })

def openBase (st : Interpreter) (hidden : List String) : Interpreter := { st with hidden }

def openLibrary (st : Interpreter) (name : String) (surfaces : List String) : Interpreter :=
  { st with libraries := st.libraries ++ [(name, surfaces)] }

def setGlobal (st : Interpreter) (name : String) (value : Value) : Interpreter :=
  { st with globals := (name, value) :: st.globals.filter (·.1 != name) }

def global (st : Interpreter) (name : String) : Value :=
  (st.globals.lookup name).getD .nil

def bind (st : Interpreter) (id : UInt32) : Interpreter := { st with bound := some id }

def setLoader (st : Interpreter) (loader : Load.Loader) : Interpreter := { st with loader }

def applyHooks (st : Interpreter) (changes : List HookChange) : Interpreter :=
  { st with hooks := st.hooks.applyAll changes }

/-- Load a chunk into a coroutine. -/
def load (st : Interpreter) (co : Nat) (source : ByteArray) (chunkName : String) :
    Except ScriptError Interpreter := do
  let program ← Program.read source chunkName
  if co < st.coroutines.length then
    return { st with coroutines := st.coroutines.set co (some program) }
  else throw (.runtime "no such coroutine")

/-- Take a coroutine's program in order to run it. -/
def take (st : Interpreter) (co : Nat) : Except ScriptError (Program × Interpreter) :=
  match st.coroutines[co]? with
  | some (some program) => .ok (program, { st with coroutines := st.coroutines.set co none })
  | _ => .error (.runtime "cannot resume dead coroutine")

/-- Put a suspended program back. -/
def put (st : Interpreter) (co : Nat) (program : Program) : Interpreter :=
  { st with coroutines := st.coroutines.set co (some program) }

end Interpreter

namespace Program

/-- Drive a load of the program one step further. -/
def drive (p : Program) (loading : Loading) (values : List Value) :
    List String × Turn × Program :=
  match loading.step values with
  | (.yielded values, loading) => ([], .suspend values, { p with loading := some loading })
  | (.done result, _) => ([loading.report result], .next, { p with loading := none })
  | (.panicked message, _) => ([], .panic message, { p with loading := none })

/-- Go on with a program that is resumed with values. A load it is suspended in gets them; if it
waits for an event they are that event. -/
def enter (p : Program) (args : List Value) : List String × Turn × Program :=
  match p.loading with
  | some loading => p.drive loading args
  | none =>
    if p.awaitingEvent then
      (["event " ++ Value.displayAll args], .next, { p with awaitingEvent := false })
    else ([], .next, p)

/-- Ask the computer that is bound to the state. -/
def request (st : Interpreter) (r : Request) : Turn :=
  if st.bound.isSome then .ask r else .fail (.runtime "no computer bound to this state")

/-- The line about a library's functions. -/
def surfacesLine (st : Interpreter) (library : String) : String :=
  match st.libraries.lookup library with
  | some surfaces => s!"surfaces {library} " ++ String.intercalate "," surfaces
  | none => s!"surfaces {library} missing"

/-- Execute one line. -/
def execute (st : Interpreter) (p : Program) : List String × Turn × Program :=
  match p.rest with
  | [] => ([], .finish, p)
  | instruction :: rest =>
    let p := { p with rest, executed := p.executed + 1 }
    match instruction with
    | .blank => ([], .next, p)
    | .print text => ([text], .next, p)
    | .yield filter =>
      ([], .suspend (if filter = "" then [] else [.text filter]), { p with awaitingEvent := true })
    | .raise message => ([], .fail (.runtime message), p)
    | .finish => ([], .finish, p)
    | .shutdown => ([], request st .shutdown, p)
    | .reboot => ([], request st .reboot, p)
    | .setBreakpoint source line => ([], request st (.setBreakpoint source line), p)
    | .clearBreakpoint id => ([], request st (.clearBreakpoint id), p)
    | .countHooks => ([s!"hooks {st.hooks.size}"], .next, p)
    | .startTimer ms => ([], request st (.startTimer ms), p)
    | .queue kind => ([], request st (.queue ⟨kind, []⟩), p)
    | .showGlobal name => ([s!"global {name} = {(st.global name).display}"], .next, p)
    | .showHidden name =>
      ([s!"hidden {name} {decide (name ∈ st.hidden)}"], .next, p)
    | .listLibraries =>
      (["libraries " ++ String.intercalate "," (st.libraries.map (·.1))], .next, p)
    | .listSurfaces library => ([surfacesLine st library], .next, p)
    | .load name pieces => p.drive ⟨name, st.loader.start Load.verbatim name pieces⟩ []
    | .call side method args => ([], request st (.call side method (args.map .text)), p)
    | .setLabel text => ([], request st (.setLabel text), p)
    | .panic message => ([], .panic message, p)
    | .unknown word =>
      ([], .fail (.runtime s!"{p.name}:{p.executed}: unknown instruction '{word}'"), p)

end Program

namespace Request

/-- Go on after a reply. -/
def resolve (r : Request) (reply : Reply) : List String × Turn :=
  match r, reply with
  | _, .panicked message => ([], .panic message)
  | .shutdown, _ | .reboot, _ => ([], .suspend [])
  | .setBreakpoint _ _, .breakpoint id _ => ([s!"breakpoint {id}"], .next)
  | .clearBreakpoint id, .cleared found _ => ([s!"unbreakpoint {id.toNat} {found}"], .next)
  | .startTimer _, .timer id => ([s!"timer {id.number}"], .next)
  | .call side method _, .results values =>
    ([s!"call {side}.{method} -> " ++ Value.displayAll values], .next)
  | .call side method _, .refused message => ([s!"call {side}.{method} failed: {message}"], .next)
  | _, _ => ([], .next)

end Request

/-- The changes to hooks that come with a reply. -/
def Reply.hookChanges : Reply → List HookChange
  | .breakpoint _ changes | .cleared _ changes => changes
  | _ => []

/-- How a resume ends. -/
inductive Resumed where
  | yielded (values : List Value)
  | finished
  | failed (error : ScriptError)
  | panicked (message : String)
deriving DecidableEq, Repr

end ComputerHost.Script
