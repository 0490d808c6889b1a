import ComputerHost.Load.Bridge
import ComputerHost.Load.Direct

/-! # Load operations

A loader is what programs load through. There are two: one that loads at once, and one whose loads
may suspend. An operation is a load in progress of either kind; driving it goes on with the same
questions and answers.
-/

namespace ComputerHost.Load

/-- The kinds of loader. -/
inductive Loader where
  | blocking
  | yieldable
deriving DecidableEq, Repr

/-- A load in progress. -/
inductive Operation (σ τ : Type) where
  /-- A load at once, which is spent when it has been driven. -/
  | blocking (name : String) (supplier : τ) (spent : Bool)
  | bridged (bridge : Bridge σ τ)

variable {σ τ : Type} (parser : Parser σ) (supplier : Supplier τ)

/-- Begin a load. -/
def Loader.start (loader : Loader) (name : String) (t : τ) : Operation σ τ :=
  match loader with
  | .blocking => .blocking name t false
  | .yieldable => .bridged (Bridge.start parser name t)

namespace Operation

/-- Drive a load one step further. The values of the first step are not looked at. -/
def step (fuel : Nat) (operation : Operation σ τ) (values : List Value) :
    Option (Progress × Operation σ τ) :=
  match operation with
  | .blocking name t true => some (.cancelled, .blocking name t true)
  | .blocking name t false =>
    (direct parser supplier fuel name t).map fun (verdict, t) =>
      match verdict with
      | .loaded result => (.done result, .blocking name t true)
      | .panicked message => (.panicked message, .blocking name t true)
  | .bridged b =>
    (b.step parser supplier fuel values).map fun (progress, b) => (progress, .bridged b)

end Operation

end ComputerHost.Load
