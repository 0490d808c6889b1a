import ComputerHost.Hook
import ComputerHost.SourcePath

/-! # Breakpoints

The breakpoints of one computer, in the order of their ids. A new id is one more than the largest one
in the table, so numbering starts over at one when the table has become empty.

While a breakpoint exists the hook that finds them is wanted on both targets. The table does not
reach into an interpreter: setting and clearing answer with the requests to be made.
-/

namespace ComputerHost

/-- A place to stop at: a canonical chunk name and a line. -/
structure Breakpoint where
  source : String
  line : Int
deriving DecidableEq, Repr

/-- Breakpoints by id, smallest id first. -/
structure BreakpointTable where
  entries : List (Nat × Breakpoint)
  /-- Is the hook wanted? -/
  armed : Bool
  /-- Should the next call of the hook look at the deadline? -/
  forceCheck : Bool
deriving DecidableEq, Repr

namespace BreakpointTable

def empty : BreakpointTable := ⟨[], false, false⟩

instance : Inhabited BreakpointTable := ⟨empty⟩

def size (t : BreakpointTable) : Nat := t.entries.length

def isEmpty (t : BreakpointTable) : Bool := t.entries.isEmpty

/-- The requests that put the same hook, or none, on both targets. -/
def onBoth (hook : Option Hook) : List HookChange :=
  [⟨.main, hook⟩, ⟨.current, hook⟩]

/-- The id of the next breakpoint. -/
def nextId (t : BreakpointTable) : Nat :=
  match t.entries.getLast? with
  | some (id, _) => id + 1
  | none => 1

/-- Add a breakpoint: its id, the table, and the requests to the interpreter. -/
def set (t : BreakpointTable) (path : String) (line : Int) :
    Nat × BreakpointTable × List HookChange :=
  let id := t.nextId
  let entries := t.entries ++ [(id, ⟨SourcePath.canonicalName path, line⟩)]
  (id, { entries, armed := true, forceCheck := t.forceCheck || !t.armed },
    onBoth (some Hook.breakpoints))

/-- Remove a breakpoint: whether it was there, the table, and the requests to the interpreter. -/
def clear (t : BreakpointTable) (id : Nat) : Bool × BreakpointTable × List HookChange :=
  if t.entries.any (·.1 == id) then
    let entries := t.entries.filter (·.1 != id)
    if entries.isEmpty then (true, { t with entries, armed := false }, onBoth none)
    else (true, { t with entries }, [])
  else (false, t, [])

/-- The breakpoint with an id. -/
def get? (t : BreakpointTable) (id : Nat) : Option Breakpoint :=
  (t.entries.find? (·.1 == id)).map (·.2)

/-- The first breakpoint at a place. -/
def find? (t : BreakpointTable) (source : String) (line : Int) : Option Nat :=
  (t.entries.find? fun (_, b) => b.line == line && b.source == source).map (·.1)

/-- Take the request for a look at the deadline. -/
def takeForceCheck (t : BreakpointTable) : Bool × BreakpointTable :=
  (t.forceCheck, { t with forceCheck := false })

end BreakpointTable

end ComputerHost
