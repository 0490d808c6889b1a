import ComputerHost.Event
import ComputerHost.Handle

/-! # The timer service

One service keeps the timers of every computer, earliest first; of two for the same moment the one
with the smaller number comes first. A cancelled timer stays until its moment has come and is dropped
then.

Times are milliseconds on the host's clock.
-/

namespace ComputerHost

/-- A timer that waits for its moment. -/
structure TimerEntry where
  fireAt : Nat
  id : TimerId
  owner : Handle
  event : Event
deriving DecidableEq, Repr

namespace TimerEntry

/-- Does a timer come before another one? -/
def before (a b : TimerEntry) : Bool :=
  a.fireAt < b.fireAt || (a.fireAt == b.fireAt && a.id.number ≤ b.id.number)

end TimerEntry

structure TimerService where
  /-- The waiting timers, in the order they will fire. -/
  pending : List TimerEntry
  cancelled : List TimerId
deriving DecidableEq, Repr

namespace TimerService

def empty : TimerService := ⟨[], []⟩

instance : Inhabited TimerService := ⟨empty⟩

/-- Put an entry into its place. -/
def place (entry : TimerEntry) : List TimerEntry → List TimerEntry
  | [] => [entry]
  | first :: rest =>
    if first.before entry then first :: place entry rest else entry :: first :: rest

def schedule (s : TimerService) (entry : TimerEntry) : TimerService :=
  { s with pending := place entry s.pending }

/-- Cancel a waiting timer. An id that does not wait is ignored. -/
def cancel (s : TimerService) (id : TimerId) : TimerService :=
  if s.pending.any (·.id == id) && !s.cancelled.contains id then
    { s with cancelled := id :: s.cancelled }
  else s

/-- The number of waiting timers. Cancelled ones count until their moment has come. -/
def pendingCount (s : TimerService) : Nat := s.pending.length

/-- Go through timers whose moment has come: those that fire, and the cancelled ids left over. -/
def select : List TimerEntry → List TimerId → List TimerEntry × List TimerId
  | [], cancelled => ([], cancelled)
  | entry :: rest, cancelled =>
    if cancelled.contains entry.id then select rest (cancelled.erase entry.id)
    else
      let (fired, cancelled) := select rest cancelled
      (entry :: fired, cancelled)

/-- Take out the timers whose moment has come: those that fire, in order. -/
def sweep (s : TimerService) (now : Nat) : List TimerEntry × TimerService :=
  let due := s.pending.takeWhile (·.fireAt ≤ now)
  let later := s.pending.dropWhile (·.fireAt ≤ now)
  let (fired, cancelled) := select due s.cancelled
  (fired, ⟨later, cancelled⟩)

/-- The moment that the service waits for. -/
def nextMoment? (s : TimerService) : Option Nat :=
  s.pending.head?.map (·.fireAt)

end TimerService

end ComputerHost
