import ComputerHost.Load.Basic

/-! # Loads that may suspend

A parse that may be suspended runs on a worker of its own. When its supplier suspends, the worker
posts the values to the owner of the load and parks until the owner sends it the values to go on with,
or word that the load is given up. From then on the supplier is left alone and nothing more is posted.

`workerMove?` is one move of the worker, `beginStep`, `receive?`, `beginCancel` and `join?` are the
moves of the owner; messages wait in one channel each way. `step` and `cancel` are the owner's calls:
they let the worker move until the owner has what it waits for.
-/

namespace ComputerHost.Load

/-- What the worker posts. -/
inductive WorkerMessage where
  | yielded (values : List Value)
  | finished (result : Except LoadError Value)

/-- What the owner sends. -/
inductive OwnerMessage where
  | resume (values : List Value)
  | cancel
deriving DecidableEq, Repr

/-- What the worker is at. -/
inductive Worker (σ : Type) where
  | parsing (s : σ)
  /-- About to resume the supplier. -/
  | supplying (s : σ) (args : List Value)
  /-- About to post the values of a suspension. -/
  | posting (s : σ) (values : List Value)
  /-- Waiting for word from the owner. -/
  | parked (s : σ)
  | reporting (result : Except LoadError Value)
  /-- Done, with nothing left but to exit. -/
  | leaving
  | exited

/-- The state of a load as its owner sees it. -/
inductive Phase where
  /-- The worker has been started and nobody has waited for it. -/
  | idle
  | workerRunning
  | workerYielded
  | workerDone
  | cancelled
deriving DecidableEq, Repr

/-- The name of a state. -/
def Phase.name : Phase → String
  | .idle => "Idle"
  | .workerRunning => "WorkerRunning"
  | .workerYielded => "WorkerYielded"
  | .workerDone => "WorkerDone"
  | .cancelled => "Cancelled"

/-- A load with its worker, its owner's side and the messages under way. -/
structure Bridge (σ τ : Type) where
  name : String
  worker : Worker σ
  supplier : τ
  /-- Has the worker seen that the load is given up? -/
  abandoned : Bool
  toOwner : List WorkerMessage
  toWorker : List OwnerMessage
  phase : Phase
  roundTrips : Nat
  joined : Bool

namespace Bridge

variable {σ τ : Type} (parser : Parser σ) (supplier : Supplier τ)

/-- A load whose worker has just been started. -/
def start (name : String) (t : τ) : Bridge σ τ :=
  { name, worker := .parsing (parser.start name), supplier := t, abandoned := false,
    toOwner := [], toWorker := [], phase := .idle, roundTrips := 0, joined := false }

/-- A state of the load in which the worker is done. -/
def leave (b : Bridge σ τ) : Bridge σ τ := { b with worker := .leaving }

def hasExited (b : Bridge σ τ) : Bool :=
  match b.worker with
  | .exited => true
  | _ => false

/-- One move of the worker, if it can move. -/
def workerMove? (b : Bridge σ τ) : Option (Bridge σ τ) :=
  match b.worker with
  | .parsing s =>
    match parser.verdict? s with
    | some (.loaded result) =>
      some (if b.abandoned then b.leave else { b with worker := .reporting result })
    | some (.panicked _) => some b.leave
    | none =>
      some { b with worker :=
        if b.abandoned then .parsing (parser.receive s (.error .cancelled)) else .supplying s [] }
  | .supplying s args =>
    let (supply, t) := supplier.resume b.supplier args
    let worker := match supply with
      | .returned value => .parsing (parser.receive s (pieceOf value))
      | .failed message => .parsing (parser.receive s (.error (.reader message)))
      | .yielded values => .posting s values
      | .panicked _ => .leaving
    some { b with supplier := t, worker }
  | .posting s values =>
    some { b with worker := .parked s, toOwner := b.toOwner ++ [.yielded values] }
  | .parked s =>
    match b.toWorker with
    | [] => none
    | .resume values :: rest => some { b with worker := .supplying s values, toWorker := rest }
    | .cancel :: rest =>
      some { b with worker := .parsing (parser.receive s (.error .cancelled)),
                    abandoned := true, toWorker := rest }
  | .reporting result =>
    some { b with worker := .leaving, toOwner := b.toOwner ++ [.finished result] }
  | .leaving => some { b with worker := .exited }
  | .exited => none

/-- Let the worker move until it cannot, at most so many times. -/
def runWorker : Nat → Bridge σ τ → Bridge σ τ
  | 0, b => b
  | fuel + 1, b =>
    match b.workerMove? parser supplier with
    | some b => runWorker fuel b
    | none => b

/-- The load after its owner has seen the worker out. -/
def closed (b : Bridge σ τ) (phase : Phase) : Bridge σ τ := { b with phase, joined := true }

/-- The owner asks to go on: an answer if there is one at once. If not, the owner waits. -/
def beginStep (b : Bridge σ τ) (values : List Value) : Option Progress × Bridge σ τ :=
  match b.phase with
  | .idle => (none, { b with phase := .workerRunning })
  | .workerYielded =>
    if b.hasExited then (some .cancelled, b.closed .cancelled)
    else
      (none, { b with toWorker := b.toWorker ++ [.resume values],
                      roundTrips := b.roundTrips + 1, phase := .workerRunning })
  | .workerRunning => (none, b)
  | .workerDone | .cancelled => (some .cancelled, b)

/-- The waiting owner takes a message, or finds that the worker has left without one. With the result
of a load it waits for the worker to leave as well. -/
def receive? (b : Bridge σ τ) : Option (Progress × Bridge σ τ) :=
  match b.toOwner with
  | .yielded values :: rest =>
    some (.yielded values, { b with toOwner := rest, phase := .workerYielded })
  | .finished result :: rest =>
    if b.hasExited then some (.done result, { b with toOwner := rest }.closed .workerDone) else none
  | [] => if b.hasExited then some (.cancelled, b.closed .cancelled) else none

/-- The owner gives the load up: word to the worker, unless it is out already. -/
def beginCancel (b : Bridge σ τ) : Bridge σ τ :=
  if b.joined then b else { b with toWorker := b.toWorker ++ [.cancel] }

/-- The owner that gave the load up sees the worker out. -/
def join? (b : Bridge σ τ) : Option (Bridge σ τ) :=
  if b.joined then some b else if b.hasExited then some (b.closed .cancelled) else none

/-- Drive the load one step further: let the worker move, at most so many times, until the owner
has an answer. -/
def step (fuel : Nat) (b : Bridge σ τ) (values : List Value) : Option (Progress × Bridge σ τ) :=
  match b.beginStep values with
  | (some progress, b) => some (progress, b)
  | (none, b) => (b.runWorker parser supplier fuel).receive?

/-- Give the load up and wait for the worker to leave. -/
def cancel (fuel : Nat) (b : Bridge σ τ) : Option (Bridge σ τ) :=
  if b.joined then some b else (b.beginCancel.runWorker parser supplier fuel).join?

end Bridge

end ComputerHost.Load
