import ComputerHost.Host.Basic

/-! # Constructing computers

A computer is constructed from its stored settings: it gets a terminal, the system mounts, those custom
mounts that can be made, and a data directory. Only then does it get a handle, so a construction that
fails leaves no computer behind; directories above a data directory that cannot be made stay. Starting a
computer registers it and gives it a thread. There is always a thread to give: a machine that has none left
is not described here.
-/

namespace ComputerHost.Host

/-- The title of the terminal of a computer. -/
def terminalTitle (config : ComputerConfig) (id : UInt32) : String :=
  match config.label with
  | some label => s!"Tinkerbox Terminal: {label}"
  | none => s!"Tinkerbox Terminal: Computer {id.toNat}"

/-- Make a terminal, if there are any: its number. -/
def openTerminal (h : Host) (id : UInt32) (title : String) (grayscale : Bool) : Option Nat × Host :=
  match h.setup.terminals with
  | .headless => (none, h)
  | .buffer =>
    (some h.terminals.length,
      { h with terminals := h.terminals ++ [(id, (Terminal.new title).setGrayscale grayscale)] })

/-- Give up a terminal of a construction that fails. -/
def destroyTerminal (h : Host) (id : UInt32) (terminal : Option Nat) : Host :=
  match terminal with
  | some n => (h.onTerminal n Terminal.destroy).noteFor id .booting .terminalDestroyed
  | none => h

/-- Keep a terminal of a construction that fails, with the reason on it. -/
def orphanTerminal (h : Host) (id : UInt32) (terminal : Option Nat) (message : String) : Host :=
  match terminal with
  | some n =>
    let h := (h.onTerminal n (·.showFatal message)).noteFor id .booting .terminalFailed
    { h with orphans := h.orphans ++ [n] }
  | none => h

/-- The mounts that no computer goes without. -/
def systemMounts (h : Host) (isDebugger : Bool) : Except MountFailure MountTable :=
  match MountTable.empty.mount? h.tree.isDirectory h.config.romDir "rom" h.config.romReadOnly with
  | none => .error ⟨"ROM", "rom"⟩
  | some mounts =>
    if isDebugger then
      match mounts.mount? h.tree.isDirectory h.config.debugRomDir "debug" true with
      | none => .error ⟨"debugger ROM", "debug"⟩
      | some mounts => .ok mounts
    else .ok mounts

/-- The mounts with a custom one, if it may and can be made. -/
def customMount (h : Host) (mounts : MountTable) (custom : CustomMount) : MountTable :=
  match custom.policy.readOnly? h.config.mountMode with
  | none => mounts
  | some readOnly =>
    (mounts.mount? h.tree.isDirectory custom.hostPath custom.mountPoint readOnly).getD mounts

/-- Construct a computer. -/
def create (h : Host) (id : UInt32) (isDebugger : Bool) : Except SpawnError Handle × Host :=
  match h.store.load h.tree id with
  | .error e => (.error (.config e), h)
  | .ok config =>
    let (terminal, h) := h.openTerminal id (terminalTitle config id) (!config.isColor)
    match h.systemMounts isDebugger with
    | .error failure =>
      (.error (.mount failure),
        if h.config.standardsMode then h.orphanTerminal id terminal "Cannot mount ROM"
        else h.destroyTerminal id terminal)
    | .ok mounts =>
      let mounts := h.config.customMounts.foldl h.customMount mounts
      let dataDir := h.config.dataDir id
      match h.tree.makePath dataDir with
      | (.error e, tree) =>
        (.error (.dataDir dataDir e.detail), { h with tree }.destroyTerminal id terminal)
      | (.ok (), tree) =>
        let (handle, counters) := h.counters.newHandle id
        let computer := Computer.new handle isDebugger terminal mounts config dataDir
        (.ok handle, { h with tree, counters, computers := h.computers ++ [computer] })

/-- Register a computer and give it a thread. -/
def start (h : Host) (who : Handle) : Host :=
  { h with registry := h.registry.insert who, threads := h.threads ++ [(who, .betweenBoots)],
           unjoined := h.unjoined ++ [who] }

/-- Tell people that a computer could not be constructed. -/
def reportSpawnError (h : Host) (e : SpawnError) : Host :=
  if h.config.standardsMode then h
  else h.showDialog none "Failed to open computer"
    s!"An error occurred while opening the computer session: {e.message}"

/-- Construct a computer and start it. A thread for it can always be had. -/
def spawn (h : Host) (id : UInt32) (isDebugger : Bool) : Except SpawnError Handle × Host :=
  match h.create id isDebugger with
  | (.ok who, h) => (.ok who, h.start who)
  | (.error e, h) => (.error e, h.reportSpawnError e)

end ComputerHost.Host
