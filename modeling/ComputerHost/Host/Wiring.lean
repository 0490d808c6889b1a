import ComputerHost.Host.Construction

/-! # Peripherals at work

Attaching, detaching and calling peripherals. While a link is attached the registry has a reference to
it under the link's target, so that the teardown of the target finds it.
-/

namespace ComputerHost.Host

def peripheral? (h : Host) (name : String) : Option Peripheral := h.peripherals.lookup name

def setPeripheral (h : Host) (name : String) (p : Peripheral) : Host :=
  { h with peripherals := h.peripherals.map fun (n, q) => if n = name then (n, p) else (n, q) }

/-- Make a peripheral known, unless there is one of that name. -/
def addPeripheral (h : Host) (name : String) (p : Peripheral) : Host :=
  if (h.peripheral? name).isSome then h
  else { h with peripherals := h.peripherals ++ [(name, p)] }

/-- Tell a peripheral that it is attached. -/
def tellAttached (h : Host) (name : String) (owner : Handle) (side : String) : Host :=
  match h.peripheral? name with
  | some (.device d) =>
    (h.setPeripheral name (.device { d with attached := d.attached + 1 })).note owner
      (.attached name)
  | some (.link l) =>
    let h := (h.setPeripheral name (.link { l with binding := some ⟨owner, side⟩ })).note owner
      (.linked name)
    if l.hasHost then { h with registry := h.registry.addReference l.target owner side } else h
  | none => h

/-- Tell a peripheral that it is let go. -/
def tellDetached (h : Host) (name : String) (owner : Handle) : Host :=
  match h.peripheral? name with
  | some (.device d) =>
    (h.setPeripheral name (.device { d with detached := d.detached + 1 })).note owner
      (.detached name)
  | some (.link l) =>
    let h := (h.setPeripheral name (.link { l with binding := none })).note owner (.unlinked name)
    match l.binding with
    | some b =>
      if l.hasHost then { h with registry := h.registry.removeReference l.target b.owner b.side }
      else h
    | none => h
  | none => h

/-- Attach a peripheral to a free side of a computer. -/
def attach (h : Host) (who : Handle) (side name : String) : Bool × Host :=
  match h.computer? who with
  | none => (false, h)
  | some c =>
    if (c.peripheral? side).isSome || (h.peripheral? name).isNone then (false, h)
    else
      let h := h.modify who fun c => { c with peripherals := c.peripherals ++ [(side, name)] }
      let h := h.tellAttached name who side
      (true, h.queueEvent who ⟨"peripheral", [.text side]⟩)

/-- Detach what is at a side of a computer. -/
def detach (h : Host) (who : Handle) (side : String) : Bool × Host :=
  match (h.computer? who).bind (·.peripheral? side) with
  | none => (false, h)
  | some name =>
    let h := h.modify who fun c => { c with peripherals := c.peripherals.filter (·.1 != side) }
    let h := h.tellDetached name who
    (true, h.queueEvent who ⟨"peripheral_detach", [.text side]⟩)

/-- Detach what is at a side of a computer, if it stands for a target. -/
def detachReference (h : Host) (who : Handle) (side : String) (target : Handle) : Host :=
  let found := ((h.computer? who).bind (·.peripheral? side)).bind h.peripheral?
  if found.bind Peripheral.target? = some target then (h.detach who side).2 else h

/-- Let a link stand for another computer. -/
def retarget (h : Host) (name : String) (l : Link) (target : Handle) : Host :=
  let h := h.setPeripheral name (.link { l with target })
  match l.binding with
  | some b =>
    { h with registry :=
        (h.registry.removeReference l.target b.owner b.side).addReference target b.owner b.side }
  | none => h

/-- What a link answers, if its host is still there. A call is one change of the host: when `turnOn` finds
that the target cannot be reached, nobody comes between that, the start of another computer of its id and
the moment from which the link stands for that one. -/
def callLink (h : Host) (name : String) (l : Link) (method : String) : Script.Reply × Host :=
  let live := h.registry.resolve? l.target
  match method with
  | "getID" => (.results [.integer (Int64.ofNat l.target.id.toNat)], h)
  | "isOn" => (.results [.boolean live.isSome], h)
  | "turnOn" =>
    if live.isSome then (.results [], h)
    else
      match h.spawn l.target.id false with
      | (.ok who, h) => (.results [], h.retarget name l who)
      | (.error e, h) => (.refused e.message, h)
  | "shutdown" => (.results [], if live.isSome then h.modify l.target Computer.shutdown else h)
  | "reboot" => (.results [], if live.isSome then h.modify l.target Computer.reboot else h)
  | "getLabel" =>
    let label := ((live.bind h.computer?).bind (·.config.label)).map Value.text
    (.results [label.getD .nil], h)
  | method => (.refused s!"No such method {method}", h)

/-- A device lets a waiting call go on, if it has a permit left. -/
def takePermit? (h : Host) (name : String) : Option Host :=
  match h.peripheral? name with
  | some (.device d) =>
    if d.permits = 0 then none
    else some (h.setPeripheral name (.device { d with permits := d.permits - 1 }))
  | _ => none

/-- Give a device a permit. -/
def givePermit (h : Host) (name : String) : Host :=
  match h.peripheral? name with
  | some (.device d) => h.setPeripheral name (.device { d with permits := d.permits + 1 })
  | _ => h

/-- How a call of a peripheral goes. -/
inductive CallOutcome where
  | replied (reply : Script.Reply)
  /-- A device holds the caller. -/
  | held (device : String)

/-- Call a method of the peripheral at a side of a computer. -/
def call (h : Host) (who : Handle) (side method : String) (args : List Value) :
    CallOutcome × Host :=
  match (h.computer? who).bind (·.peripheral? side) with
  | none => (.replied (.refused s!"No peripheral attached to {side}"), h)
  | some name =>
    let lastCall := some s!"peripheral.call({side}, {method})"
    let h := h.modify who fun c => { c with lastCall }
    match h.peripheral? name with
    | none => (.replied (.refused s!"No peripheral attached to {side}"), h)
    | some (.link l) =>
      if l.hasHost then
        let (reply, h) := h.callLink name l method
        (.replied reply, h)
      else (.replied (.refused "host is shutting down"), h)
    | some (.device d) =>
      match h.setup.answer ⟨d, lastCall, method, args⟩ with
      | .results values => (.replied (.results values), h)
      | .refused message => (.replied (.refused message), h)
      | .panicked message => (.replied (.panicked message), h)
      | .waits =>
        match h.takePermit? name with
        | some h => (.replied (.results []), h)
        | none => (.held name, h)

end ComputerHost.Host
