import ComputerHost.Text

/-! # Instructions

The lines that programs are made of. A line holds one instruction: a word and, after the first space,
what the instruction is about. White space around either counts for nothing. A number that cannot be
read is zero.
-/

namespace ComputerHost.Script

inductive Instruction where
  /-- An empty line or a comment. -/
  | blank
  | print (text : String)
  /-- Suspend until an event of this kind comes, or any event if the kind is empty. -/
  | yield (filter : String)
  | raise (message : String)
  | finish
  | shutdown
  | reboot
  | setBreakpoint (source : String) (line : Int64)
  | clearBreakpoint (id : UInt32)
  | countHooks
  | startTimer (ms : Nat)
  | queue (kind : String)
  | showGlobal (name : String)
  | showHidden (name : String)
  | listLibraries
  | listSurfaces (library : String)
  /-- Load from a supplier that hands over these pieces. -/
  | load (name : String) (pieces : List String)
  | call (side method : String) (args : List String)
  | setLabel (text : String)
  | panic (message : String)
  | unknown (word : String)
deriving DecidableEq, Repr, Inhabited

namespace Instruction

/-- A source and a line number, which stands after the last space. -/
def place (text : List Char) : String × Int64 :=
  match Text.cutLast? ' ' text with
  | some (source, line) => (String.ofList source, (Text.int64? line).getD 0)
  | none => (String.ofList text, 0)

/-- The first word of a text, or something else if there is none, and the other words. -/
def headWord (text : List Char) (other : String) : String × List String :=
  match (Text.words text).map String.ofList with
  | [] => (other, [])
  | word :: rest => (word, rest)

/-- The instruction that a word and the text after it stand for. -/
def ofWord (word : String) (text : List Char) : Instruction :=
  let whole := String.ofList text
  match word with
  | "print" => .print whole
  | "yield" => .yield whole
  | "error" => .raise whole
  | "return" => .finish
  | "shutdown" => .shutdown
  | "reboot" => .reboot
  | "breakpoint" => let (source, line) := place text; .setBreakpoint source line
  | "unbreakpoint" => .clearBreakpoint ((Text.uint32? text).getD 0)
  | "hooks" => .countHooks
  | "timer" => .startTimer ((Text.natBelow? UInt64.size text).getD 0)
  | "queue" => .queue whole
  | "global" => .showGlobal whole
  | "hidden" => .showHidden whole
  | "libraries" => .listLibraries
  | "surfaces" => .listSurfaces whole
  | "load" => let (name, pieces) := headWord text "=load"; .load name pieces
  | "call" =>
    let (side, rest) := headWord text ""
    .call side (rest.headD "") rest.tail
  | "label" => .setLabel whole
  | "panic" => .panic whole
  | word => .unknown word

/-- The instruction on a line. -/
def parse (line : List Char) : Instruction :=
  let line := Text.trim line
  let (word, rest) := (Text.cutFirst? ' ' line).getD (line, [])
  if word = [] ∨ word.head? = some '#' then .blank
  else ofWord (String.ofList word) (Text.trim rest)

end Instruction

end ComputerHost.Script
