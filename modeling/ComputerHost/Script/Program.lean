import ComputerHost.Load.Operation
import ComputerHost.Script.Instruction

/-! # Programs

A program is the rest of the instructions of a chunk and what it is suspended in, if it is suspended.
A chunk is read as a whole: a line that starts with an exclamation mark spoils it.

Inside programs a load has its pieces given by the instruction; `pieces` hands them over, where a
tilde suspends the load and an exclamation mark fails it.
-/

namespace ComputerHost.Script

/-- The supplier that hands over pieces. -/
def pieces : Load.Supplier (List String) where
  resume
    | [], _ => (.returned .nil, [])
    | "~" :: rest, _ => (.yielded [], rest)
    | "!" :: rest, _ => (.failed "reader failed", rest)
    | piece :: rest, _ => (.returned (.text piece), rest)

/-- A load that a program is suspended in. -/
structure Loading where
  name : String
  operation : Load.Operation Load.Verbatim (List String)

namespace Loading

/-- The pieces that have not been handed over. -/
def remaining (l : Loading) : List String :=
  match l.operation with
  | .blocking _ rest _ => rest
  | .bridged b => b.supplier

/-- Drive the load one step further. A piece costs the worker at most four moves, so the bound is
never reached. -/
def step (l : Loading) (values : List Value) : Load.Progress × Loading :=
  let fuel := 4 * l.remaining.length + 8
  match l.operation.step Load.verbatim pieces fuel values with
  | some (progress, operation) => (progress, { l with operation })
  | none => (.cancelled, l)

/-- The line about a finished load. -/
def report (l : Loading) (result : Except LoadError Value) : String :=
  match result with
  | .ok (.function chunk) => s!"loaded {l.name}: {chunk.source}"
  | .ok value => s!"loaded {l.name}: {value.display}"
  | .error e => s!"load failed {l.name}: {e.message}"

end Loading

/-- A program and how far it has come. -/
structure Program where
  name : String
  /-- The number of lines that have been executed. -/
  executed : Nat
  rest : List Instruction
  /-- Is it suspended to receive an event? -/
  awaitingEvent : Bool
  /-- The load it is suspended in. -/
  loading : Option Loading

namespace Program

/-- The number of the first line that spoils a chunk. -/
def spoiled? (lines : List (List Char)) : Option Nat :=
  (lines.findIdx? fun line => (line.dropWhile Text.isBlank).head? = some '!').map (· + 1)

/-- The program of a chunk. -/
def read (source : ByteArray) (chunkName : String) : Except ScriptError Program :=
  let name := Text.withoutLeading '@' chunkName
  match String.fromUTF8? source with
  | none => .error (.runtime s!"{name}: invalid UTF-8 in source")
  | some text =>
    let lines := Text.lines text.toList
    match spoiled? lines with
    | some line => .error (.runtime s!"{name}:{line}: unexpected symbol")
    | none =>
      .ok { name, executed := 0, rest := lines.map Instruction.parse, awaitingEvent := false,
            loading := none }

end Program

end ComputerHost.Script
