import ComputerHost.Host.Wiring

/-! # Teardown

The moves that take a computer down after its last boot. From the first one on its handle does not
resolve; the last one forgets the handle. In between everything that the computer holds is let go
once.
-/

namespace ComputerHost.Host

/-- Open a connection for a computer: its number. -/
def openConnection (h : Host) (who : Handle) (name : String) : Nat × Host :=
  h.update who (·.openConnection name) 0

/-- Close one connection of a computer, and whether it was open. -/
def closeConnection (h : Host) (who : Handle) (id : Nat) : Bool × Host :=
  match h.update who (·.takeConnection id) none with
  | (some c, h) => (true, h.note who (.closed c.name))
  | (none, h) => (false, h)

/-- Close all connections of a computer. -/
def closeConnections (h : Host) (who : Handle) : Host :=
  let (closed, h) := h.update who Computer.takeConnections []
  closed.foldl (fun h c => h.note who (.closed c.name)) h

/-- Have something run when a computer is torn down. -/
def addFinalizer (h : Host) (who : Handle) (name : String) : Host :=
  h.modify who fun c => { c with finalizers := c.finalizers ++ [name] }

/-- Run one finalizer of a computer. -/
def runFinalizer (h : Host) (who : Handle) (name : String) : Host :=
  (h.modify who fun c => { c with config := h.setup.finalize name c.config }).note who
    (.finalized name)

/-- Run the finalizers of a computer, in order. -/
def runFinalizers (h : Host) (who : Handle) : Host :=
  let (names, h) := h.update who (fun c => (c.finalizers, { c with finalizers := [] })) []
  names.foldl (fun h name => h.runFinalizer who name) h

/-- Let go of the terminal of a computer: it is kept if it shows a failure. -/
def releaseTerminal (h : Host) (who : Handle) : Host :=
  match h.terminalOf? who with
  | none => h
  | some (n, t) =>
    if t.errorMode then { h with orphans := h.orphans ++ [n] }
    else (h.onTerminal n Terminal.destroy).note who .terminalDestroyed

/-- Give the settings of a computer to the store. A store that fails keeps what it has. -/
def saveConfig (h : Host) (who : Handle) : Host :=
  match h.computer? who with
  | none => h
  | some c =>
    let (_, store, tree) := h.store.save h.tree who.id c.config
    { h with store, tree }.note who .saved

/-- Let go of all peripherals of a computer. -/
def releasePeripherals (h : Host) (who : Handle) : Host :=
  let (names, h) :=
    h.update who (fun c => (c.peripherals.map (·.2), { c with peripherals := [] })) []
  names.foldl (fun h name => h.tellDetached name who) h

/-- Detach what stands for a computer from the computers that can be reached. -/
def detachReferences (h : Host) (who : Handle) : Host :=
  let (refs, registry) := h.registry.takeReferences who
  refs.foldl
    (fun h r =>
      if h.registry.resolves r.referencer then h.detachReference r.referencer r.side who else h)
    { h with registry }

/-- One move of a teardown. -/
def teardownStep (h : Host) (who : Handle) (step : TeardownStep) : Host :=
  match step with
  | .retire => { h with registry := (h.registry.retire who).2 }
  | .runFinalizers => h.runFinalizers who
  | .releaseTerminal => h.releaseTerminal who
  | .saveConfig => h.saveConfig who
  | .releasePeripherals => h.releasePeripherals who
  | .detachReferences => h.detachReferences who
  | .takeTimers => h.modify who Computer.takeTimers
  | .invalidateTimers =>
    let (taken, h) := h.update who (fun c => (c.takenTimers, { c with takenTimers := [] })) []
    { h with registry := h.registry.invalidateTimers taken }
  | .cancelDebounce =>
    let (debounce, h) := h.update who (fun c => (c.debounce, { c with debounce := none })) none
    match debounce with
    | some id => { h with timers := h.timers.cancel id }
    | none => h
  | .closeConnections => h.closeConnections who
  | .release => { h with registry := h.registry.release who }

end ComputerHost.Host
