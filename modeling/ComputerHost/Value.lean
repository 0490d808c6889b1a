import ComputerHost.Binary64.Shortest

/-! # Values

What crosses the border between the host and a computer's interpreter: event parameters, the values
a program suspends with, globals, and the results of peripheral calls.

Two equalities live here. `=` is equality of what is stored. `Value.equal` is equality as programs
see it: it differs on numbers only, where the two zeros are equal and what is no number differs from
itself (`equal_text`, `equal_number`).
-/

namespace ComputerHost

/-- A chunk of source text that has been read to its end. -/
structure Chunk where
  name : String
  source : String
deriving DecidableEq, Repr, Inhabited

/-- A value. Tables keep their entries in order, repeated keys included. -/
inductive Value where
  | nil
  | boolean (b : Bool)
  | integer (i : Int64)
  | number (x : Binary64)
  | text (s : String)
  | table (entries : List (Value × Value))
  | function (chunk : Chunk)
deriving Repr, Inhabited

namespace Value

mutual
/-- Are the stored data the same? -/
def same : Value → Value → Bool
  | .nil, .nil => true
  | .boolean a, .boolean b => a == b
  | .integer a, .integer b => a == b
  | .number a, .number b => a == b
  | .text a, .text b => a == b
  | .table a, .table b => sameEntries a b
  | .function a, .function b => a == b
  | _, _ => false

/-- Are the stored entries the same? -/
def sameEntries : List (Value × Value) → List (Value × Value) → Bool
  | [], [] => true
  | (k, v) :: rest, (k', v') :: rest' => same k k' && same v v' && sameEntries rest rest'
  | _, _ => false
end

mutual
theorem same_iff (a b : Value) : same a b = true ↔ a = b := by
  cases a <;> cases b <;> simp [same]
  exact sameEntries_iff _ _

theorem sameEntries_iff (a b : List (Value × Value)) : sameEntries a b = true ↔ a = b := by
  cases a with
  | nil => cases b <;> simp [sameEntries]
  | cons p rest =>
    obtain ⟨k, v⟩ := p
    cases b with
    | nil => simp [sameEntries]
    | cons p' rest' =>
      obtain ⟨k', v'⟩ := p'
      simp [sameEntries, same_iff k k', same_iff v v', sameEntries_iff rest rest', and_assoc]
end

instance : DecidableEq Value := fun a b => decidable_of_iff (same a b = true) (same_iff a b)

mutual
/-- Equality as programs see it. -/
def equal : Value → Value → Bool
  | .nil, .nil => true
  | .boolean a, .boolean b => a == b
  | .integer a, .integer b => a == b
  | .number a, .number b => a.equal b
  | .text a, .text b => a == b
  | .table a, .table b => equalEntries a b
  | .function a, .function b => a == b
  | _, _ => false

/-- Equality of entries as programs see it. -/
def equalEntries : List (Value × Value) → List (Value × Value) → Bool
  | [], [] => true
  | (k, v) :: rest, (k', v') :: rest' => equal k k' && equal v v' && equalEntries rest rest'
  | _, _ => false
end

theorem equal_text (s t : String) : equal (.text s) (.text t) = true ↔ s = t := by
  simp [equal]

theorem equal_number (x y : Binary64) : equal (.number x) (.number y) = x.equal y := by
  simp [equal]

/-- Everything but nil and false counts as true. -/
def truthy : Value → Bool
  | .nil | .boolean false => false
  | _ => true

/-- The name that programs know the value's type by. -/
def typeName : Value → String
  | .nil => "nil"
  | .boolean _ => "boolean"
  | .integer _ | .number _ => "number"
  | .text _ => "string"
  | .table _ => "table"
  | .function _ => "function"

/-- The integer of an integer value, or of a number without a fractional part. -/
def asInteger? : Value → Option Int64
  | .integer i => some i
  | .number x => x.toInt64?
  | _ => none

def asBool? : Value → Option Bool
  | .boolean b => some b
  | _ => none

def asText? : Value → Option String
  | .text s => some s
  | _ => none

/-- The text of a value as it stands in transcripts. -/
def display : Value → String
  | .nil => "nil"
  | .boolean b => if b then "true" else "false"
  | .integer i => toString i.toInt
  | .number x => x.text
  | .text s => s
  | .table entries => s!"table({entries.length})"
  | .function chunk => s!"function: {chunk.name}"

/-- The texts of several values with a space between neighbours. -/
def displayAll (values : List Value) : String :=
  String.intercalate " " (values.map display)

end Value

end ComputerHost
