import ComputerHost.Host.Wiring

/-! # Booting

The moves of a boot. Each boot has a fresh interpreter state, so nothing that an earlier boot opened or
set is there; what survives are the peripherals, which set up the new state for themselves.
-/

namespace ComputerHost.Host

/-- The chunk name of the boot script. -/
def biosChunk : String := "@bios.lua"

def version : String := "0.2.0"

/-- What programs are told about the host. -/
def banner : String := s!"Tinkerbox {version}"

/-- Write down a call of the interpreter. -/
def noteCall (h : Host) (who : Handle) (session : Session) (call : EngineCall) : Host :=
  h.note who (.engine call session.interpreter.bound.isSome)

/-- Set a global in the state of a boot. -/
def setGlobal (h : Host) (who : Handle) (session : Session) (name : String) (value : Value) :
    Host × Session :=
  (h.noteCall who session (.setGlobal name value),
    { session with interpreter := session.interpreter.setGlobal name value })

/-- Set several globals, in order. -/
def setGlobals (h : Host) (who : Handle) (session : Session) (globals : List (String × Value)) :
    Host × Session :=
  globals.foldl (fun (h, session) (name, value) => h.setGlobal who session name value) (h, session)

/-- Let one peripheral set up the state of a boot. -/
def reinitialize (h : Host) (who : Handle) (session : Session) (name : String) : Host × Session :=
  match h.peripheral? name with
  | some (.device d) =>
    let h := h.setPeripheral name (.device { d with reinitialized := d.reinitialized + 1 })
    (h.note who (.reinitialized name)).setGlobals who session d.globals
  | _ => (h, session)

/-- The source of the startup script. An escape character in front says that the setting is the
source itself and not a path. A script that cannot be read counts for none. -/
def startupSource? (h : Host) : Option String :=
  match h.config.startupScript with
  | none => none
  | some script =>
    match script.toList with
    | '\x1b' :: source => some (String.ofList source)
    | _ => (h.tree.readText script).toOption

/-- The globals that tell programs about the host. -/
def hostGlobals (h : Host) (headless : Bool) : List (String × Value) :=
  [("_HOST", .text banner)] ++
  (if headless then [("_HEADLESS", .boolean true)] else []) ++
  [("_DEFAULT_SETTINGS", .text h.config.defaultComputerSettings),
   ("_DISABLE_LUA51_FEATURES", .boolean h.config.disableLua51Features)] ++
  (h.startupSource?.map fun s => ("_STARTUP_SCRIPT", Value.text s)).toList ++
  (h.config.startupArgs.map fun s => ("_STARTUP_ARGS", Value.text s)).toList

/-- The boot script. -/
def readBios (h : Host) : Except BootError ByteArray :=
  match h.setup.bios with
  | .embedded source => .ok source.toUTF8
  | .file path =>
    match h.tree.read path with
    | .ok source => .ok source
    | .error e => .error (.biosMissing path e.detail)

/-- Ask for a fresh interpreter state. -/
def openState (h : Host) : Except BootError Session × Host :=
  let ordinal := h.states + 1
  let h := { h with states := ordinal }
  match h.setup.faults.newState ordinal with
  | some e => (.error (.state e), h)
  | none =>
    (.ok { interpreter := Script.Interpreter.fresh, ordinal, main := 0, opened := [], resumes := 0 },
      h)

/-- Create the coroutine that the boot script runs in. -/
def openCoroutine (h : Host) (who : Handle) (session : Session) : Except BootError Session × Host :=
  let h := h.noteCall who session .newCoroutine
  match h.setup.faults.newCoroutine session.ordinal with
  | some e => (.error (.state e), h)
  | none =>
    let (main, interpreter) := session.interpreter.createCoroutine
    (.ok { session with main, interpreter }, h)

/-- Load the boot script into the state of a boot. -/
def loadBios (h : Host) (who : Handle) (session : Session) : Except BootError Session × Host :=
  let h := h.modify who (·.setPhase .loadingBios)
  match h.readBios with
  | .error e => (.error e, h)
  | .ok source =>
    let h := h.noteCall who session (.load biosChunk)
    match session.interpreter.load session.main source biosChunk with
    | .ok interpreter => (.ok { session with interpreter }, h)
    | .error e => (.error (.biosLoad h.setup.bios.name e.message), h)

/-- A move of a boot that has a state. -/
def stepInSession (h : Host) (who : Handle) (session : Session) (step : BootStep) :
    Except BootError Session × Host :=
  match step with
  | .openCoroutine => h.openCoroutine who session
  | .clearEvents => (.ok session, h.modify who fun c => { c with events := EventQueue.empty })
  | .reinitializePeripherals =>
    let names := ((h.computer? who).map fun c => c.peripherals.map (·.2)).getD []
    let (h, session) :=
      names.foldl (fun (h, session) name => h.reinitialize who session name) (h, session)
    (.ok session, h)
  | .bindComputer =>
    let session := { session with interpreter := session.interpreter.bind who.id }
    (.ok session, h.noteCall who session .bind)
  | .openBase =>
    let hidden := Library.hiddenGlobals h.config
    (.ok { session with interpreter := session.interpreter.openBase hidden },
      (h.modify who (·.setPhase .loadingLibraries)).noteCall who session (.openBase hidden))
  | .openLibrary library surfaces =>
    (.ok { session with interpreter := session.interpreter.openLibrary library.name surfaces
                        opened := session.opened ++ [library] },
      h.noteCall who session (.openLibrary library.name surfaces.length))
  | .showPluginFailures =>
    match Plugin.table? h.setup.pluginFailures with
    | none => (.ok session, h)
    | some table =>
      let (h, session) := h.setGlobal who session "_PLUGIN_ERRORS" table
      (.ok session, h)
  | .loadPlugins =>
    match h.setup.plugins with
    | none => (.ok session, h)
    | some globals =>
      let (h, session) := (h.note who .pluginsLoaded).setGlobals who session globals
      (.ok session, h)
  | .setGlobals =>
    let headless := (h.terminalOf? who).isNone
    let (h, session) := h.setGlobals who session (h.hostGlobals headless)
    (.ok session, h)
  | .chooseLoader =>
    (.ok { session with interpreter := session.interpreter.setLoader .yieldable },
      h.noteCall who session .setLoader)
  | .loadBios => h.loadBios who session
  | .enterProgram => (.ok session, h.modify who (·.setPhase .running))
  | .resetTerminal | .openState => (.ok session, h)

/-- One move of a boot: the session afterwards or the failure, and the host. -/
def bootStep (h : Host) (who : Handle) (session : Option Session) (step : BootStep) :
    Except BootError (Option Session) × Host :=
  match step, session with
  | .resetTerminal, session =>
    match h.terminalOf? who with
    | some (n, _) => (.ok session, (h.onTerminal n Terminal.reset).note who .terminalReset)
    | none => (.ok session, h)
  | .openState, _ =>
    let (session, h) := h.openState
    (session.map some, h)
  | step, some session =>
    let (session, h) := h.stepInSession who session step
    (session.map some, h)
  | _, none => (.ok none, h)

/-- Tell people that a boot has failed. -/
def reportBootFailure (h : Host) (who : Handle) (e : BootError) : Host :=
  let (fatal, title, message) := match e with
    | .biosMissing path _ | .biosLoad path _ =>
      ("Error loading bios.lua", "Couldn't load BIOS",
        s!"Couldn't load BIOS from {path}. Please make sure the ROM is installed properly.")
    | .state _ => ("Error starting computer", "Couldn't start computer", e.message)
  match h.terminalOf? who with
  | some (n, _) =>
    if h.config.standardsMode then h.showFatal who n fatal
    else h.showDialog (some n) title message
  | none => h.showDialog none title message

end ComputerHost.Host
