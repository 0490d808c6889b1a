import ComputerHost.Value

/-! # Events

What a program waits for: a kind and parameters. A program may ask for one kind only; `terminate`
gets through every filter (`passes_terminate`).
-/

namespace ComputerHost

/-- An input for one computer. -/
structure Event where
  kind : String
  args : List Value
deriving DecidableEq, Repr, Inhabited

namespace Event

/-- The kind that no filter holds back. -/
def terminateKind : String := "terminate"

/-- The event that asks a program to stop. -/
def terminate : Event := ⟨terminateKind, []⟩

/-- The empty filter lets everything through, any other one its own kind and `terminate`. -/
def passes (filter : String) (e : Event) : Bool :=
  filter == "" || e.kind == filter || e.kind == terminateKind

@[simp] theorem passes_terminate (filter : String) : terminate.passes filter = true := by
  simp [passes, terminate]

@[simp] theorem passes_empty (e : Event) : e.passes "" = true := by
  simp [passes]

/-- The values a program is resumed with: the kind, then the parameters. -/
def values (e : Event) : List Value :=
  .text e.kind :: e.args

end Event

end ComputerHost
