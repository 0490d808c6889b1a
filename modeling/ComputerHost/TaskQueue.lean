/-! # Tasks

Work for the thread that owns the display is queued and run there, first come, first served. Running
a task may queue further ones; they go to the end like any other.

A task is a tree: what to do, and the tasks that doing it queues. `Task.size` counts the trees' nodes;
it is what a drain works off.
-/

namespace ComputerHost

/-- A piece of work, and the tasks that running it queues. -/
inductive Task (α : Type) where
  | mk (work : α) (next : List (Task α))

namespace Task

variable {α : Type}

def work : Task α → α
  | .mk w _ => w

def next : Task α → List (Task α)
  | .mk _ ts => ts

/-- A task that queues nothing. -/
def leaf (w : α) : Task α := .mk w []

instance [Inhabited α] : Inhabited (Task α) := ⟨leaf default⟩

mutual
/-- How many tasks run in all when this one runs. -/
def size : Task α → Nat
  | .mk _ ts => 1 + sizes ts

/-- How many tasks run in all when these run. -/
def sizes : List (Task α) → Nat
  | [] => 0
  | t :: ts => t.size + sizes ts
end

theorem size_eq (t : Task α) : t.size = 1 + sizes t.next := by
  cases t; simp [size, next]

theorem sizes_append (ts us : List (Task α)) : sizes (ts ++ us) = sizes ts + sizes us := by
  induction ts with
  | nil => simp [sizes]
  | cons t rest ih => simp [sizes, ih, Nat.add_assoc]

end Task

/-- Tasks that wait to be run, oldest first. -/
structure TaskQueue (α : Type) where
  waiting : List (Task α)

namespace TaskQueue

variable {α : Type}

def empty : TaskQueue α := ⟨[]⟩

instance : Inhabited (TaskQueue α) := ⟨empty⟩

def size (q : TaskQueue α) : Nat := q.waiting.length

def isEmpty (q : TaskQueue α) : Bool := q.waiting.isEmpty

def push (q : TaskQueue α) (t : Task α) : TaskQueue α := ⟨q.waiting ++ [t]⟩

/-- Run the oldest task: what was done, and the queue afterwards. -/
def runNext? (q : TaskQueue α) : Option (α × TaskQueue α) :=
  match q.waiting with
  | [] => none
  | t :: rest => some (t.work, ⟨rest ++ t.next⟩)

/-- Everything that is done when waiting tasks are run until none is left, in order. -/
def drain : List (Task α) → List α
  | [] => []
  | t :: rest => t.work :: drain (rest ++ t.next)
termination_by ts => Task.sizes ts
decreasing_by
  simp only [Task.sizes_append, Task.sizes, Task.size_eq]
  omega

/-- Run tasks until none is left: what was done, in order, and the empty queue. -/
def runPending (q : TaskQueue α) : List α × TaskQueue α :=
  (drain q.waiting, empty)

end TaskQueue

end ComputerHost
