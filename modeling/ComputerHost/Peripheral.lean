import ComputerHost.Handle
import ComputerHost.Value

/-! # Peripherals

What can be attached to the sides of a computer: devices, which belong to the host, and links, each of
which stands for another computer. A link names its target by handle and is recorded with the target
while it is attached.

A peripheral outlives the boots of its computer. It is told once that it is attached, once for every
boot, and once that it is let go.
-/

namespace ComputerHost

/-- A device, and what has happened to it. -/
structure Device where
  kind : String
  /-- The globals that it sets in a fresh interpreter state. -/
  globals : List (String × Value)
  /-- How many calls that wait may go on. -/
  permits : Nat
  attached : Nat
  reinitialized : Nat
  detached : Nat
deriving Repr

/-- Where a link is attached. -/
structure Binding where
  owner : Handle
  side : String
deriving DecidableEq, Repr

/-- A peripheral that stands for another computer. -/
structure Link where
  target : Handle
  binding : Option Binding
  /-- Is its host still there? -/
  hasHost : Bool
deriving DecidableEq, Repr

inductive Peripheral where
  | device (d : Device)
  | link (l : Link)

namespace Peripheral

/-- The name of its type. -/
def kind : Peripheral → String
  | .device d => d.kind
  | .link _ => "computer"

/-- The computer that it stands for. -/
def target? : Peripheral → Option Handle
  | .device _ => none
  | .link l => some l.target

end Peripheral

/-- A call of a method of a device. -/
structure DeviceCall where
  device : Device
  /-- The last call of the calling computer, this one included. -/
  lastCall : Option String
  method : String
  args : List Value

/-- What a device does when it is called. -/
inductive DeviceAnswer where
  | results (values : List Value)
  | refused (message : String)
  | panicked (message : String)
  /-- It waits for a permit. -/
  | waits
deriving Repr

end ComputerHost
