import ComputerHost.Host.Boot
import ComputerHost.Host.Clock
import ComputerHost.Host.Teardown

/-! # Running

The moves of a computer's thread (`move?`), and how a host goes on while there is something to do
(`step?`). A thread that cannot move waits for an event, for a device or for time to pass.

While a program runs, the loop resumes it, looks at how it suspended, and waits for an event that
passes its filter. A program that stays idle too long is sent one `terminate`; if it suspends again
and nothing is there for it, it is stopped.
-/

namespace ComputerHost.Host

/-! ## The end of a program -/

/-- A program has finished. Under strict compatibility that is a failure to show. -/
def programFinished (h : Host) (who : Handle) : Host :=
  let h := h.modify who Computer.finish
  if h.config.standardsMode then
    match h.terminalOf? who with
    | some (n, t) => if t.errorMode then h else h.showFatal who n "Error running computer"
    | none => h
  else h

/-- Tell people that a program has raised an error. -/
def reportScriptError (h : Host) (who : Handle) (e : ScriptError) : Host :=
  match h.terminalOf? who with
  | some (n, _) =>
    if h.config.standardsMode then h.showFatal who n s!"Error running computer: {e.message}"
    else h.showDialog (some n) "Script Error" e.message
  | none => h.showDialog none "Script Error" e.message

/-- A program has raised an error. After a request to stop or to reboot that is part of stopping. -/
def programFailed (h : Host) (who : Handle) (e : ScriptError) : Host :=
  if h.isRunning who then (h.modify who Computer.shutdown).reportScriptError who e else h

/-! ## Requests of a program -/

/-- Do what a program asks for. -/
def serve (h : Host) (who : Handle) (request : Script.Request) : CallOutcome × Host :=
  match request with
  | .shutdown => (.replied .done, h.modify who Computer.shutdown)
  | .reboot => (.replied .done, h.modify who Computer.reboot)
  | .setBreakpoint source line =>
    let (reply, h) := h.update who (fun c =>
      let (id, breakpoints, changes) := c.breakpoints.set source line.toInt
      (Script.Reply.breakpoint id changes, { c with breakpoints })) .done
    (.replied reply, h)
  | .clearBreakpoint id =>
    let (reply, h) := h.update who (fun c =>
      let (found, breakpoints, changes) := c.breakpoints.clear id.toNat
      (Script.Reply.cleared found changes, { c with breakpoints })) .done
    (.replied reply, h)
  | .startTimer ms =>
    let (id, h) := h.startTimer who ms
    (.replied (.timer id), h)
  | .queue e => (.replied .done, h.queueEvent who e)
  | .call side method args => h.call who side method args
  | .setLabel text =>
    (.replied .done, h.modify who fun c => { c with config := { c.config with label := some text } })

/-! ## Executing -/

/-- What a thread does after a line of its program, other than asking the computer. -/
def afterTurn (h : Host) (who : Handle) (session : Session) (program : Script.Program)
    (warned : Bool) (turn : Script.Turn) : Host :=
  match turn with
  | .next => h.setStage who (.executing session program warned)
  | .suspend values =>
    let interpreter := session.interpreter.put session.main program
    h.setStage who (.suspended { session with interpreter } values warned)
  | .finish => (h.programFinished who).setStage who (.leaving session .ordinary)
  | .fail e => (h.programFailed who e).setStage who (.leaving session .ordinary)
  | .panic message => h.setStage who (.leaving session (.panicked message))
  | .ask _ => h.setStage who (.executing session program warned)

/-- Go on with a program that asked for something and has a reply. -/
def afterReply (h : Host) (who : Handle) (session : Session) (program : Script.Program)
    (warned : Bool) (request : Script.Request) (reply : Script.Reply) : Host :=
  let interpreter := session.interpreter.applyHooks reply.hookChanges
  let (lines, turn) := request.resolve reply
  (h.log who.id lines).afterTurn who { session with interpreter } program warned turn

/-- What a thread does after a line of its program. -/
def afterLine (h : Host) (who : Handle) (session : Session) (warned : Bool)
    (line : List String × Script.Turn × Script.Program) : Host :=
  let (lines, turn, program) := line
  let h := h.log who.id lines
  match turn with
  | .ask request =>
    match h.serve who request with
    | (.replied reply, h) => h.afterReply who session program warned request reply
    | (.held device, h) => h.setStage who (.held session program request device warned)
  | turn => h.afterTurn who session program warned turn

/-- Resume the program of a boot. -/
def resume (h : Host) (who : Handle) (session : Session) (args : List Value) (warned : Bool) :
    Host :=
  let resumes := session.resumes + 1
  let h := h.noteCall who session (.resume args.length)
  let session : Session := { session with resumes }
  match h.setup.faults.resume session.ordinal resumes with
  | some e => (h.programFailed who e).setStage who (.leaving session .ordinary)
  | none =>
    match session.interpreter.take session.main with
    | .error e => (h.programFailed who e).setStage who (.leaving session .ordinary)
    | .ok (program, interpreter) =>
      h.afterLine who { session with interpreter } warned (program.enter args)

/-! ## Between programs -/

/-- The kind of event that a suspended program asks for. -/
def filterOf (values : List Value) : String :=
  (values.head?.bind Value.asText?).getD ""

/-- Clean up after a boot: close the connections, and tell the libraries that were opened. -/
def leave (h : Host) (who : Handle) (session : Option Session) : Host :=
  match session with
  | none => h
  | some session =>
    session.opened.foldl (fun h l => h.note who (.deinitialized l)) (h.closeConnections who)

/-- The message about a panic. -/
def panicMessage (detail : String) : String :=
  s!"An uncaught exception has occurred on the computer thread: \"{detail}\". " ++
    "The computer will now shut down."

/-- See how a boot has ended, and what comes next. -/
def judge (h : Host) (who : Handle) (ending : Ending) : Host :=
  let goOn (h : Host) : Host :=
    if ((h.computer? who).map (·.runState)) = some .rebooting then
      (h.modify who (·.setPhase .rebooting)).setStage who .betweenBoots
    else h.setStage who .stopping
  match ending with
  | .ordinary => goOn h
  | .failed e => goOn ((h.reportBootFailure who e).modify who Computer.shutdown)
  | .panicked detail =>
    let terminal := (h.terminalOf? who).map (·.1)
    let h := h.showDialog terminal "Uncaught Exception" (panicMessage detail)
    ((h.modify who Computer.shutdown).closeConnections who).setStage who
      (.tearingDown teardownPlan)

/-- Begin a boot, unless the computer was asked to stop. -/
def beginBoot (h : Host) (who : Handle) : Host :=
  let (begun, h) := h.update who Computer.beginBoot false
  let isDebugger := ((h.computer? who).map (·.isDebugger)).getD false
  if begun then
    (h.modify who (·.setPhase .booting)).setStage who
      (.booting (bootPlan h.config isDebugger h.setup.libraries) none)
  else h.setStage who .stopping

/-- Nothing has come for a program in time: it is told to terminate, or stopped if it was told so
already. -/
def timeOut (h : Host) (who : Handle) (session : Session) (warned : Bool) : Host :=
  if warned then (h.modify who Computer.shutdown).setStage who (.resuming session [] true)
  else h.setStage who (.resuming session Event.terminate.values true)

/-- Look for the event that a suspended program waits for. An event that does not pass the filter is
dropped. -/
def await (h : Host) (who : Handle) (session : Session) (filter : String) (deadline : Nat)
    (warned : Bool) : Option Host :=
  match h.computer? who with
  | none => none
  | some c =>
    match c.events.look c.isRunning (decide (deadline ≤ h.clock)) with
    | (none, _) => none
    | (some (.event e), events) =>
      let h := h.modify who fun c => { c with events }
      some (if e.passes filter then h.setStage who (.resuming session e.values false) else h)
    | (some .interrupted, _) => some (h.setStage who (.leaving session .ordinary))
    | (some .timedOut, _) => some (h.timeOut who session warned)

/-- One move of a computer's thread, if it can move. -/
def move? (h : Host) (who : Handle) : Option Host :=
  match h.stage? who with
  | none | some .gone => none
  | some .betweenBoots => some (h.beginBoot who)
  | some (.booting [] session) =>
    some (h.setStage who (match session with
      | some session => .resuming session [] false
      | none => .leaving none .ordinary))
  | some (.booting (step :: todo) session) =>
    match h.bootStep who session step with
    | (.ok session, h) => some (h.setStage who (.booting todo session))
    | (.error e, h) => some (h.setStage who (.leaving session (.failed e)))
  | some (.resuming session args warned) =>
    some (if h.isRunning who then h.resume who session args warned
      else h.setStage who (.leaving session .ordinary))
  | some (.executing session program warned) =>
    some (h.afterLine who session warned (program.execute session.interpreter))
  | some (.held session program request device warned) =>
    (h.takePermit? device).map fun h =>
      h.afterReply who session program warned request (.results [])
  | some (.suspended session values warned) =>
    some (if h.isRunning who then
      let idle := if warned then 0 else h.config.idleMs
      h.setStage who (.waiting session (filterOf values) (h.clock + idle) warned)
    else h.setStage who (.leaving session .ordinary))
  | some (.waiting session filter deadline warned) => h.await who session filter deadline warned
  | some (.leaving session ending) => some ((h.leave who session).setStage who (.ended ending))
  | some (.ended ending) => some (h.judge who ending)
  | some .stopping =>
    some ((h.modify who fun c => c.finish.setPhase .stopped).setStage who
      (.tearingDown teardownPlan))
  | some (.tearingDown []) => some (h.setStage who .gone)
  | some (.tearingDown (step :: todo)) =>
    some ((h.teardownStep who step).setStage who (.tearingDown todo))

/-! ## The host as a whole -/

/-- The first thread that can move has moved. -/
def moveFirst? (h : Host) : List Handle → Option Host
  | [] => none
  | who :: rest =>
    match h.move? who with
    | some h => some h
    | none => h.moveFirst? rest

/-- The timer thread goes on, unless it waits for a moment: it finishes the delivery of a timer, or begins
the next one, or takes timers whose moment has come from the service. -/
def tick? (h : Host) : Option Host :=
  match h.fire? with
  | some h => some h
  | none =>
    match h.resolveDue? with
    | some h => some h
    | none =>
      match h.timers.nextMoment? with
      | some moment => if moment ≤ h.clock then some h.sweep else none
      | none => none

/-- One step of the host without the passing of time: a thread moves, or else timers do. -/
def step? (h : Host) : Option Host :=
  match h.moveFirst? (h.threads.map (·.1)) with
  | some h => some h
  | none => h.tick?

/-- Go on until nothing is left to do without the passing of time, for at most so many steps. -/
def settle : Nat → Host → Host
  | 0, h => h
  | fuel + 1, h =>
    match h.step? with
    | some h => settle fuel h
    | none => h

/-- The moment until which a thread waits. -/
def Stage.deadline? : Stage → Option Nat
  | .waiting _ _ deadline _ => some deadline
  | _ => none

/-- The next moment at which something happens by itself. -/
def nextMoment? (h : Host) : Option Nat :=
  let deadlines := h.threads.filterMap fun (_, stage) => Stage.deadline? stage
  ((h.timers.nextMoment?.toList ++ deadlines).filter (h.clock < ·)).min?

/-- Let time pass until a condition holds, from one moment at which something happens to the next, for
at most so many of them. -/
def waitUntil (stop : Host → Bool) (fuel : Nat) : Nat → Host → Host
  | 0, h => h
  | moments + 1, h =>
    let h := h.settle fuel
    if stop h then h
    else
      match h.nextMoment? with
      | some moment => waitUntil stop fuel moments { h with clock := moment }
      | none => h

/-- Let time pass up to a moment. -/
def sleepUntil (fuel moment : Nat) : Nat → Host → Host
  | 0, h => h
  | moments + 1, h =>
    let h := h.settle fuel
    match h.nextMoment? with
    | some next =>
      if next < moment then sleepUntil fuel moment moments { h with clock := next }
      else settle fuel { h with clock := max h.clock moment }
    | none => { h with clock := max h.clock moment }

/-- Wait for the end of a computer's thread: whether there was one to wait for. -/
def join (h : Host) (fuel moments : Nat) (who : Handle) : Bool × Host :=
  if who ∈ h.unjoined then
    let h := { h with unjoined := h.unjoined.erase who }
    (true, waitUntil (·.isGone who) fuel moments h)
  else (false, h)

/-- Wait for the end of all threads. -/
def joinAll (h : Host) (fuel moments : Nat) : Host :=
  let h := waitUntil (fun h => h.threads.all (·.2.isGone)) fuel moments h
  { h with unjoined := [] }

end ComputerHost.Host
