import ComputerHost.JsonTree.Printer
import ComputerHost.JsonTree.Reader

/-! # Settings of one computer

What is kept about a computer between its lives, and the JSON document it is kept as. A document is
read with goodwill: members that mean nothing are passed over, what is left out has its default, and
an array counts for an object with its members in order.
-/

namespace ComputerHost

structure ComputerConfig where
  label : Option String
  /-- Does its terminal show colours? -/
  isColor : Bool
  startFullscreen : Bool
deriving DecidableEq, Repr

namespace ComputerConfig

/-- The settings of a computer that nothing is kept about. -/
def default : ComputerConfig := ⟨none, true, false⟩

instance : Inhabited ComputerConfig := ⟨default⟩

/-- The document of the settings. -/
def toTree (c : ComputerConfig) : JsonTree :=
  .object
    [(some "label", match c.label with
      | some text => .string (some text)
      | none => .null),
     (some "isColor", .bool c.isColor),
     (some "startFullscreen", .bool c.startFullscreen)]

/-- The names of the settings, in order. -/
def names : List String := ["label", "isColor", "startFullscreen"]

/-- The settings with one of them replaced. A name that means nothing changes nothing. -/
def set? (c : ComputerConfig) (name : String) (value : JsonTree) : Option ComputerConfig :=
  match name, value with
  | "label", .null => some { c with label := none }
  | "label", .string (some text) => some { c with label := some text }
  | "isColor", .bool b => some { c with isColor := b }
  | "startFullscreen", .bool b => some { c with startFullscreen := b }
  | name, _ => if name ∈ names then none else some c

/-- The settings with several of them replaced, none of them twice. Every name must stand for a
text. -/
def setAll? (c : ComputerConfig) : List (Option String × JsonTree) → Option ComputerConfig
  | [] => some c
  | (none, _) :: _ => none
  | (some name, value) :: rest =>
    if name ∈ names && rest.any (·.1 == some name) then none
    else (c.set? name value).bind (·.setAll? rest)

/-- The settings of a document. -/
def ofTree? : JsonTree → Option ComputerConfig
  | .object members => default.setAll? members
  | .array items =>
    if items.length ≤ names.length then default.setAll? ((names.map some).zip items) else none
  | _ => none

/-- The text that the settings are kept as. -/
def toText (c : ComputerConfig) : String := c.toTree.print

/-- The settings that are kept as a text. -/
def ofText? (text : String) : Option ComputerConfig := (JsonTree.parse text).bind ofTree?

end ComputerConfig

end ComputerHost
