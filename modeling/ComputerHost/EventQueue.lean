import ComputerHost.Event

/-! # Event queues

The pending events of one computer, oldest first, and the loop that waits on them.

A waiter looks at the queue, then at whether it should go on waiting, then at its deadline, in this
order. So an event that is there is never given up for a stop request or an expired deadline
(`wait_of_cons`), and a stop request is seen before the deadline (`wait_interrupted_iff`).
-/

namespace ComputerHost

/-- Pending events, oldest first. -/
structure EventQueue where
  toList : List Event
deriving DecidableEq, Repr

namespace EventQueue

def empty : EventQueue := ⟨[]⟩

instance : Inhabited EventQueue := ⟨empty⟩

def size (q : EventQueue) : Nat := q.toList.length

def isEmpty (q : EventQueue) : Bool := q.toList.isEmpty

/-- A new event goes to the end. -/
def push (q : EventQueue) (e : Event) : EventQueue := ⟨q.toList ++ [e]⟩

/-- The oldest event and the others. -/
def pop? (q : EventQueue) : Option (Event × EventQueue) :=
  match q.toList with
  | [] => none
  | e :: rest => some (e, ⟨rest⟩)

@[simp] theorem toList_push (q : EventQueue) (e : Event) :
    (q.push e).toList = q.toList ++ [e] := rfl

theorem toList_of_pop? {q q' : EventQueue} {e : Event} (h : q.pop? = some (e, q')) :
    q.toList = e :: q'.toList := by
  obtain ⟨events⟩ := q
  cases events with
  | nil => simp [pop?] at h
  | cons first rest =>
    simp only [pop?, Option.some.injEq, Prod.mk.injEq] at h
    obtain ⟨rfl, rfl⟩ := h
    rfl

theorem pop?_eq_none_iff (q : EventQueue) : q.pop? = none ↔ q.toList = [] := by
  obtain ⟨events⟩ := q
  cases events <;> simp [pop?]

/-- How a wait ends. -/
inductive Wait where
  | event (e : Event)
  | timedOut
  | interrupted
deriving DecidableEq, Repr

/-- One look at the queue: how the wait ends, or `none` if the waiter parks. -/
def look (q : EventQueue) (keepWaiting expired : Bool) : Option Wait × EventQueue :=
  match q.pop? with
  | some (e, rest) => (some (.event e), rest)
  | none =>
    if !keepWaiting then (some .interrupted, q)
    else if expired then (some .timedOut, q)
    else (none, q)

/-- A wait that nothing else can end: its deadline passes at last. -/
def wait (q : EventQueue) (keepWaiting : Bool) : Wait × EventQueue :=
  match q.look keepWaiting true with
  | (some outcome, rest) => (outcome, rest)
  | (none, rest) => (.timedOut, rest)

theorem wait_of_cons (e : Event) (rest : List Event) (keepWaiting : Bool) :
    wait ⟨e :: rest⟩ keepWaiting = (.event e, ⟨rest⟩) := rfl

theorem wait_interrupted_iff (q : EventQueue) (keepWaiting : Bool) :
    (q.wait keepWaiting).1 = .interrupted ↔ q.toList = [] ∧ keepWaiting = false := by
  obtain ⟨events⟩ := q
  cases events <;> cases keepWaiting <;> simp [wait, look, pop?]

end EventQueue

end ComputerHost
