import ComputerHost.Handle
import ComputerHost.Tombstones

/-! # The registry

Which computers are live, in the order they were registered; which are being torn down; which timers
outlived their computer; and which peripherals stand for which computer.

A handle resolves only while its instance is registered and not being torn down (`resolve?`), so
whoever holds one can never reach an instance that is gone, nor a later one with the same id.
-/

namespace ComputerHost

/-- A peripheral of a computer that stands for another one. -/
structure Reference where
  referencer : Handle
  side : String
deriving DecidableEq, Repr

structure Registry where
  /-- The registered computers, oldest first. -/
  registered : List Handle
  freed : Tombstones Handle
  freedTimers : Tombstones TimerId
  /-- For each target the references to it, oldest first. -/
  references : List (Handle × List Reference)

namespace Registry

def empty : Registry := ⟨[], Tombstones.empty, Tombstones.empty, []⟩

instance : Inhabited Registry := ⟨empty⟩

def size (r : Registry) : Nat := r.registered.length

def isEmpty (r : Registry) : Bool := r.registered.isEmpty

/-- Register a computer. It no longer counts as torn down. -/
def insert (r : Registry) (h : Handle) : Registry :=
  { r with freed := (r.freed.forget h).2, registered := r.registered ++ [h] }

/-- Take a computer out and mark it as being torn down, and whether it was registered. -/
def retire (r : Registry) (h : Handle) : Bool × Registry :=
  (decide (h ∈ r.registered),
    { r with freed := r.freed.add h, registered := r.registered.erase h })

/-- The teardown of a computer is over. -/
def release (r : Registry) (h : Handle) : Registry :=
  { r with freed := (r.freed.forget h).2 }

/-- Mark a computer as being torn down. -/
def markFreed (r : Registry) (h : Handle) : Registry :=
  { r with freed := r.freed.add h }

/-- Does a handle resolve? -/
def resolves (r : Registry) (h : Handle) : Bool :=
  decide (h ∉ r.freed) && decide (h ∈ r.registered)

/-- The instance that a handle names, if it can be reached. -/
def resolve? (r : Registry) (h : Handle) : Option Handle :=
  if r.resolves h then some h else none

/-- The oldest registered computer with an id. -/
def find? (r : Registry) (id : UInt32) : Option Handle :=
  r.registered.find? (·.id == id)

/-- Mark timers as those of a computer that is gone. -/
def invalidateTimers (r : Registry) (ids : List TimerId) : Registry :=
  { r with freedTimers := r.freedTimers.addAll ids }

/-- Where a timer that fires goes: nowhere if it was marked, and then the mark is used up, and else
to its owner if that can be reached. -/
def resolveTimer (r : Registry) (id : TimerId) (owner : Handle) : Option Handle × Registry :=
  let (marked, freedTimers) := r.freedTimers.forget id
  if marked then (none, { r with freedTimers }) else (r.resolve? owner, r)

/-- The references to a computer. -/
def referencesTo (r : Registry) (target : Handle) : List Reference :=
  (r.references.lookup target).getD []

/-- The registry with other references to a computer. An empty list is not kept. -/
def setReferences (r : Registry) (target : Handle) (refs : List Reference) : Registry :=
  let others := r.references.filter (·.1 != target)
  { r with references := if refs.isEmpty then others else others ++ [(target, refs)] }

def addReference (r : Registry) (target referencer : Handle) (side : String) : Registry :=
  let refs := r.referencesTo target
  if ⟨referencer, side⟩ ∈ refs then r else r.setReferences target (refs ++ [⟨referencer, side⟩])

def removeReference (r : Registry) (target referencer : Handle) (side : String) : Registry :=
  r.setReferences target ((r.referencesTo target).filter (· != ⟨referencer, side⟩))

/-- Take all references to a computer. -/
def takeReferences (r : Registry) (target : Handle) : List Reference × Registry :=
  (r.referencesTo target, r.setReferences target [])

end Registry

end ComputerHost
