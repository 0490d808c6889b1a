/-! # Debug hooks

An interpreter can be asked to call the host when certain things happen. A hook says when, and it is
active on one or both of two targets.
-/

namespace ComputerHost

/-- Which execution context a hook is active on. -/
inductive HookTarget where
  /-- The computer's main coroutine. -/
  | main
  /-- The context that is calling into the host. -/
  | current
deriving DecidableEq, Repr

/-- When a hook is called: on which kinds of event, and every how many instructions. -/
structure Hook where
  mask : Nat
  count : Nat
deriving DecidableEq, Repr

namespace Hook

/-- The kinds of event a hook can be called on, one bit each: call, return, line, count, error,
resume and yield. -/
def everyKind : Nat := Nat.pow 2 7 - 1

/-- The hook that finds breakpoints. Its instruction count keeps it called now and then also in code
without a matching line, so that a forced stop gets through. -/
def breakpoints : Hook := ⟨everyKind, 1000000⟩

end Hook

/-- A request to install or remove the hook of a target. -/
structure HookChange where
  target : HookTarget
  hook : Option Hook
deriving DecidableEq, Repr

/-- The hooks that are active, at most one on each target. -/
structure HookSet where
  main : Option Hook
  current : Option Hook
deriving DecidableEq, Repr

namespace HookSet

def empty : HookSet := ⟨none, none⟩

instance : Inhabited HookSet := ⟨empty⟩

def get (s : HookSet) : HookTarget → Option Hook
  | .main => s.main
  | .current => s.current

/-- The hooks after one request. -/
def apply (s : HookSet) (change : HookChange) : HookSet :=
  match change.target with
  | .main => { s with main := change.hook }
  | .current => { s with current := change.hook }

/-- The hooks after several requests. -/
def applyAll (s : HookSet) (changes : List HookChange) : HookSet :=
  changes.foldl apply s

/-- The number of targets with a hook. -/
def size (s : HookSet) : Nat :=
  s.main.toList.length + s.current.toList.length

@[simp] theorem get_apply (s : HookSet) (change : HookChange) (t : HookTarget) :
    (s.apply change).get t = if t = change.target then change.hook else s.get t := by
  obtain ⟨target, hook⟩ := change
  cases target <;> cases t <;> simp [apply, get]

end HookSet

end ComputerHost
