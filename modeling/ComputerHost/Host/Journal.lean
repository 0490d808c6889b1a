import ComputerHost.Computer
import ComputerHost.Library
import ComputerHost.Value

/-! # The journal

What a host has done on behalf of its computers, in order: to terminals, peripherals, connections and
libraries, and to the interpreter. Nothing in the host reads it.
-/

namespace ComputerHost

/-- What a host does to an interpreter state. -/
inductive EngineCall where
  | newCoroutine
  | setGlobal (name : String) (value : Value)
  | bind
  | openBase (hidden : List String)
  | openLibrary (name : String) (surfaces : Nat)
  | setLoader
  | load (chunk : String)
  | resume (args : Nat)

inductive Deed where
  | terminalReset
  | terminalFailed
  | terminalDestroyed
  | attached (peripheral : String)
  | reinitialized (peripheral : String)
  | detached (peripheral : String)
  /-- A link was told that it is attached. Links tell nobody. -/
  | linked (link : String)
  | unlinked (link : String)
  | closed (connection : String)
  | finalized (name : String)
  /-- A library was told that the boot which opened it has ended. -/
  | deinitialized (library : Library)
  | pluginsLoaded
  /-- The settings of the computer were given to the store. -/
  | saved
  /-- The interpreter was called. Before a computer is bound to a state nobody knows its phase. -/
  | engine (call : EngineCall) (bound : Bool)

/-- Something done for a computer, and its phase then. What is done before a computer has a handle has
no owner. -/
structure JournalEntry where
  id : UInt32
  owner : Option Handle
  phase : BootPhase
  deed : Deed

/-! ## The journal as text -/

def EngineCall.text : EngineCall → String
  | .newCoroutine => "coroutine"
  | .setGlobal name value => s!"global {name} = {value.display}"
  | .bind => "bind"
  | .openBase hidden => "base " ++ String.intercalate "," hidden
  | .openLibrary name surfaces => s!"library {name} {surfaces}"
  | .setLoader => "loader"
  | .load chunk => s!"load {chunk}"
  | .resume args => s!"resume {args}"

namespace JournalEntry

/-- A text with the phase behind it. -/
def inPhase (e : JournalEntry) (text : String) : String := s!"{text} [{e.phase.name}]"

/-- The line about an entry. -/
def line (e : JournalEntry) : String :=
  match e.deed with
  | .terminalReset => "terminal reset"
  | .terminalFailed => "terminal fatal"
  | .terminalDestroyed => "terminal destroy"
  | .attached peripheral => s!"attach {peripheral}"
  | .reinitialized peripheral => s!"reinit {peripheral}"
  | .detached peripheral => s!"detach {peripheral}"
  | .linked link => s!"attach {link}"
  | .unlinked link => s!"detach {link}"
  | .closed connection => s!"close {connection}"
  | .finalized name => e.inPhase s!"finalizer {name}"
  | .deinitialized library => e.inPhase s!"deinit {library.name}"
  | .pluginsLoaded => e.inPhase "plugins"
  | .saved => "save"
  | .engine call bound => if bound then e.inPhase call.text else call.text

/-- The lines about one computer. Calls of a state that is not bound yet are held back and stand in
front of the call that binds it; those of a state that is never bound are left out, and so is what
links were told. -/
def linesFrom (early : List String) : List JournalEntry → List String
  | [] => []
  | e :: rest =>
    match e.deed with
    | .engine .newCoroutine false => linesFrom [e.line] rest
    | .engine _ false => linesFrom (early ++ [e.line]) rest
    | .engine .bind true => early ++ e.line :: linesFrom [] rest
    | .linked _ | .unlinked _ => linesFrom early rest
    | _ => e.line :: linesFrom early rest

end JournalEntry

end ComputerHost
