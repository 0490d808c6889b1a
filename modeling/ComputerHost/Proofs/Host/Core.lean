import ComputerHost.Proofs.Host.Thread

/-!
# What is nobody else's business

Some of what belongs to a computer is changed by its own thread alone: its phase and its breakpoints.
The rest of `Computer.core` never changes. `Spares` says of a function that it leaves the core of a
computer as it is; the phase is set in three moves of a boot, at its ends and when the thread stops, and
the breakpoints by two requests of the program.

Results:
1. `Spares.trans`, `spares_modify`, `spares_foldl`: how the frame is put together.
2. `spares_serve`: requests of programs other than those about breakpoints.
3. `spares_stepInSession`, `spares_teardownStep`: a boot sets the phases of its moves, a teardown none.
4. `spares_on`: what comes from outside.
-/

namespace ComputerHost

namespace Computer

/-- A computer without what others change. -/
def core (c : Computer) : Computer :=
  { c with runState := .running, events := EventQueue.empty, peripherals := [], connections := [],
           nextConnection := 0, config := ⟨none, false, false⟩, timers := [], takenTimers := [],
           debounce := none, finalizers := [], lastCall := none }

theorem handle_of_core {c c' : Computer} (hc : c'.core = c.core) : c'.handle = c.handle := by
  have hhandle : c'.core.handle = c.core.handle := by rw [hc]
  exact hhandle

theorem core_reboot (c : Computer) : c.reboot.core = c.core := by
  rw [reboot_frame]
  rfl

theorem core_beginBoot (c : Computer) : c.beginBoot.2.core = c.core := by
  rw [beginBoot_frame]
  rfl

theorem core_finish (c : Computer) : c.finish.core = c.core := by
  rw [finish_frame]
  rfl

theorem core_timerFired (c : Computer) (id : TimerId) (e : Event) :
    (c.timerFired id e).core = c.core := by
  rw [timerFired_frame]
  rfl

end Computer

/-- The phase that a move of a boot sets, if it sets one. -/
def BootStep.phase? : BootStep → Option BootPhase
  | .openBase => some .loadingLibraries
  | .loadBios => some .loadingBios
  | .enterProgram => some .running
  | _ => none

/-- Is a request about the breakpoints of the computer? -/
def Script.Request.isAboutBreakpoints : Script.Request → Bool
  | .setBreakpoint _ _ | .clearBreakpoint _ => true
  | _ => false

namespace Host

def core? (h : Host) (who : Handle) : Option Computer := (h.computer? who).map Computer.core

def phase? (h : Host) (who : Handle) : Option BootPhase := (h.computer? who).map (·.phase)

/-- The second host has what is nobody else's business of `who` as the first one has it. -/
structure Spares (who : Handle) (h h' : Host) : Prop where
  core : ∀ c, h.core? who = some c → h'.core? who = some c

/-- The host in the phase that a move of a boot sets. -/
def enterPhase (h : Host) (who : Handle) (step : BootStep) : Host :=
  match step.phase? with
  | some phase => h.modify who (·.setPhase phase)
  | none => h

/-! ## 1. Putting the frame together -/

section
variable {who w : Handle} {h h' h'' : Host}

theorem Spares.of_eq (hc : h'.computers = h.computers) : Spares who h h' where
  core c hcore := by rw [← hcore, core?, computer?, hc, core?, computer?]

theorem Spares.refl (who : Handle) (h : Host) : Spares who h h := ⟨fun _ hc => hc⟩

theorem Spares.trans (hs : Spares who h h') (hs' : Spares who h' h'') : Spares who h h'' :=
  ⟨fun c hc => hs'.core c (hs.core c hc)⟩

theorem Spares.setStage (hs : Spares who h h') (w : Handle) (stage : Stage) :
    Spares who h (h'.setStage w stage) :=
  ⟨hs.core⟩

theorem spares_ite {p : Prop} [Decidable p] (hs : p → Spares who h h')
    (hs' : ¬p → Spares who h h'') : Spares who h (if p then h' else h'') := by
  split
  · next hp => exact hs hp
  · next hp => exact hs' hp

theorem spares_foldl {α : Type} {f : Host → α → Host} (hf : ∀ h x, Spares who h (f h x)) (h : Host)
    (xs : List α) : Spares who h (xs.foldl f h) := by
  induction xs generalizing h with
  | nil => exact .refl who h
  | cons x xs ih => exact (hf h x).trans (ih (f h x))

theorem spares_foldl_fst {α β : Type} {f : Host × β → α → Host × β}
    (hf : ∀ p x, Spares who p.1 (f p x).1) (p : Host × β) (xs : List α) :
    Spares who p.1 (xs.foldl f p).1 := by
  induction xs generalizing p with
  | nil => exact .refl who p.1
  | cons x xs ih => exact (hf p x).trans (ih (f p x))

theorem spares_modify {f : Computer → Computer} (hf : ∀ c : Computer, (f c).core = c.core) (h : Host)
    (w : Handle) : Spares who h (h.modify w f) where
  core c hc := by
    rw [← hc, core?, map_computer?_modify (fun c => Computer.handle_of_core (hf c)) fun _ c => hf c,
      core?]

/-- Whatever is done to another computer. -/
theorem spares_modify_other (hne : w ≠ who) {f : Computer → Computer}
    (hf : ∀ c, (f c).handle = c.handle) (h : Host) : Spares who h (h.modify w f) where
  core c hc := by rw [← hc, core?, map_computer?_modify hf fun heq => absurd heq.symm hne, core?]

theorem spares_update {α : Type} {f : Computer → α × Computer}
    (hf : ∀ c : Computer, (f c).2.core = c.core) (h : Host) (w : Handle) (other : α) :
    Spares who h (h.update w f other).2 := by
  unfold update
  cases h.computer? w with
  | none => exact .refl who h
  | some c => exact spares_modify hf h w

theorem Spares.phase? {phase : BootPhase} (hs : Spares who h h') (hp : h.phase? who = some phase) :
    h'.phase? who = some phase := by
  obtain ⟨c, hc, rfl⟩ := Option.map_eq_some_iff.mp hp
  have hcore : h.core? who = some c.core := by rw [core?, hc]; rfl
  obtain ⟨c', hc', heq⟩ := Option.map_eq_some_iff.mp (hs.core _ hcore)
  have hphase : c'.core.phase = c.core.phase := by rw [heq]
  rw [Host.phase?, hc', Option.map_some]
  exact congrArg some hphase

end

/-! ## 2. Requests of programs -/

section
variable {who : Handle}

theorem spares_note (h : Host) (w : Handle) (deed : Deed) : Spares who h (h.note w deed) :=
  .of_eq rfl

theorem spares_log (h : Host) (id : UInt32) (lines : List String) : Spares who h (h.log id lines) := by
  unfold log
  split
  · exact .refl who h
  · split <;> exact .of_eq rfl

theorem spares_queueEvent (h : Host) (w : Handle) (e : Event) : Spares who h (h.queueEvent w e) :=
  spares_modify (fun _ => by rfl) h w

theorem spares_shutdown (h : Host) (w : Handle) : Spares who h (h.modify w Computer.shutdown) :=
  spares_modify (fun _ => by rfl) h w

theorem spares_startTimer (h : Host) (w : Handle) (ms : Nat) : Spares who h (h.startTimer w ms).2 := by
  have hcount : Spares who h { h with counters := h.counters.newTimer.2 } := .of_eq rfl
  have htrack := hcount.trans
    (spares_modify (f := (·.trackTimer h.counters.newTimer.1)) (fun _ => rfl) _ w)
  exact spares_ite (fun _ => htrack.trans (.of_eq rfl)) fun _ => htrack

theorem spares_append (h : Host) (computer : Computer) :
    Spares who h { h with computers := h.computers ++ [computer] } where
  core c hcore := by
    obtain ⟨c, hc, rfl⟩ := Option.map_eq_some_iff.mp hcore
    have hfound : ({ h with computers := h.computers ++ [computer] } : Host).computer? who = some c := by
      rw [computer?, List.find?_append, ← computer?, hc]
      rfl
    rw [core?, hfound, Option.map_some]

theorem spares_create (h : Host) (id : UInt32) (isDebugger : Bool) :
    Spares who h (h.create id isDebugger).2 := by
  rcases hc : h.create id isDebugger with ⟨e | w, h'⟩
  · rw [(aborts_of_create_error hc).1.rest]
    exact .of_eq rfl
  · obtain ⟨-, terminal, mounts, config, tree, -, -, heq⟩ := made_of_create_ok hc
    rw [heq]
    exact (spares_append h _).trans (.of_eq rfl)

theorem spares_spawn (h : Host) (id : UInt32) (isDebugger : Bool) :
    Spares who h (h.spawn id isDebugger).2 := by
  unfold spawn
  have hs : Spares who h (h.create id isDebugger).2 := spares_create ..
  rcases hc : h.create id isDebugger with ⟨made, h₁⟩
  rw [hc] at hs
  cases made with
  | error e => exact hs.trans (spares_ite (fun _ => .refl who h₁) fun _ => .of_eq rfl)
  | ok w => exact hs.trans (.of_eq rfl)

theorem spares_retarget (h : Host) (name : String) (l : Link) (target : Handle) :
    Spares who h (h.retarget name l target) := by
  unfold retarget
  dsimp only
  split <;> exact .of_eq rfl

theorem spares_callLink (h : Host) (name : String) (l : Link) (method : String) :
    Spares who h (h.callLink name l method).2 := by
  unfold callLink
  dsimp only
  split
  case h_3 =>
    have hspawn : Spares who h (h.spawn l.target.id false).2 := spares_spawn ..
    split
    · exact .refl who h
    · rcases hs : h.spawn l.target.id false with ⟨made, h₁⟩
      rw [hs] at hspawn
      cases made with
      | error e => exact hspawn
      | ok w => exact hspawn.trans (spares_retarget h₁ name l w)
  case h_4 => exact spares_ite (fun _ => spares_shutdown h l.target) fun _ => .refl who h
  case h_5 =>
    exact spares_ite (fun _ => spares_modify Computer.core_reboot h l.target) fun _ => .refl who h
  all_goals exact .refl who h

theorem spares_takePermit? {h h' : Host} {name : String} (hp : h.takePermit? name = some h') :
    Spares who h h' := by
  unfold takePermit? at hp
  split at hp
  · split at hp
    · cases hp
    · rw [← Option.some.inj hp]
      exact .of_eq rfl
  · cases hp

theorem spares_call (h : Host) (w : Handle) (side method : String) (args : List Value) :
    Spares who h (h.call w side method args).2 := by
  unfold call
  split
  · exact .refl who h
  · dsimp only
    generalize hm : h.modify w _ = h₁
    have hs : Spares who h h₁ := by
      rw [← hm]
      exact spares_modify (fun _ => by rfl) h w
    split
    · exact hs
    · split
      · exact hs.trans (spares_callLink ..)
      · exact hs
    · split
      · exact hs
      · exact hs
      · exact hs
      · split
        · next hp => exact hs.trans (spares_takePermit? hp)
        · exact hs

/-- Requests of a program, other than those about its own breakpoints. -/
theorem spares_serve (h : Host) (w : Handle) {request : Script.Request}
    (hr : w ≠ who ∨ request.isAboutBreakpoints = false) :
    Spares who h (h.serve w request).2 := by
  have hbreakpoints {f : Computer → Script.Reply × Computer}
      (hf : ∀ c, (f c).2.handle = c.handle) (hne : w ≠ who) :
      Spares who h (h.update w f Script.Reply.done).2 := by
    unfold update
    cases h.computer? w with
    | none => exact .refl who h
    | some c => exact spares_modify_other hne hf h
  cases request with
  | setBreakpoint source line | clearBreakpoint id =>
    exact hbreakpoints (fun _ => by rfl)
      (hr.resolve_right (by simp [Script.Request.isAboutBreakpoints]))
  | shutdown => exact spares_shutdown h w
  | reboot => exact spares_modify Computer.core_reboot h w
  | startTimer ms => exact spares_startTimer h w ms
  | queue e => exact spares_queueEvent h w e
  | call side method args => exact spares_call h w side method args
  | setLabel text => exact spares_modify (fun _ => by rfl) h w

theorem spares_showFatal (h : Host) (w : Handle) (n : Nat) (message : String) :
    Spares who h (h.showFatal w n message) :=
  .of_eq rfl

theorem Announces.spares (ha : Announces w h h') : Spares who h h' := by
  cases ha with
  | shows => exact spares_showFatal ..
  | tells => exact .of_eq rfl

theorem spares_programFinished (h : Host) (w : Handle) : Spares who h (h.programFinished w) := by
  have hs : Spares who h (h.modify w Computer.finish) := spares_modify Computer.core_finish h w
  obtain heq | ⟨n, t, -, -, heq⟩ := programFinished_cases h w <;> rw [heq]
  · exact hs
  · exact hs.trans (spares_showFatal ..)

theorem spares_programFailed (h : Host) (w : Handle) (e : ScriptError) :
    Spares who h (h.programFailed w e) := by
  obtain ⟨-, heq⟩ | ⟨-, ha⟩ := programFailed_cases h w e
  · rw [heq]
    exact .refl who h
  · exact (spares_shutdown h w).trans ha.spares

/-! ## 3. The moves of a boot and of a teardown -/

theorem spares_setGlobals (h : Host) (w : Handle) (session : Session)
    (globals : List (String × Value)) : Spares who h (h.setGlobals w session globals).1 :=
  spares_foldl_fst (f := fun p x => p.1.setGlobal w p.2 x.1 x.2) (fun _ _ => .of_eq rfl) (h, session)
    globals

theorem spares_reinitialize (h : Host) (w : Handle) (session : Session) (name : String) :
    Spares who h (h.reinitialize w session name).1 := by
  unfold reinitialize
  split
  · next d _ =>
    have hnote : Spares who h ((h.setPeripheral name
        (.device { d with reinitialized := d.reinitialized + 1 })).note w (.reinitialized name)) :=
      .of_eq rfl
    exact hnote.trans (spares_setGlobals ..)
  · exact .refl who h

/-- A move of a boot that has a state sets its phase and nothing else. -/
theorem spares_stepInSession (h : Host) (w : Handle) (session : Session) (step : BootStep) :
    Spares who (h.enterPhase w step) (h.stepInSession w session step).2 := by
  cases step with
  | openCoroutine =>
    show Spares who h (h.openCoroutine w session).2
    unfold openCoroutine
    dsimp only
    split <;> exact .of_eq rfl
  | clearEvents => exact spares_modify (fun _ => by rfl) h w
  | reinitializePeripherals =>
    exact spares_foldl_fst (fun p name => by exact spares_reinitialize p.1 w p.2 name) (h, session) _
  | bindComputer | openLibrary | chooseLoader | openBase | enterProgram => exact .of_eq rfl
  | showPluginFailures =>
    show Spares who h _
    unfold stepInSession
    dsimp only
    split
    · exact .refl who h
    · exact .of_eq rfl
  | loadPlugins =>
    show Spares who h _
    unfold stepInSession
    dsimp only
    split
    · exact .refl who h
    · exact (spares_note ..).trans (spares_setGlobals ..)
  | setGlobals => exact spares_setGlobals h w session (h.hostGlobals (h.terminalOf? w).isNone)
  | loadBios =>
    show Spares who (h.modify w (·.setPhase .loadingBios)) (h.loadBios w session).2
    unfold loadBios
    dsimp only
    split
    · exact .refl who _
    · split <;> exact .of_eq rfl
  | resetTerminal | openState => exact .refl who h

theorem spares_resetTerminal (h : Host) (w : Handle) (session : Option Session) :
    Spares who h (h.bootStep w session .resetTerminal).2 := by
  obtain ⟨-, heq⟩ | ⟨n, t, -, heq⟩ := resetTerminal_cases h w session <;> rw [heq] <;> exact .of_eq rfl

theorem spares_openState (h : Host) : Spares who h h.openState.2 := by
  unfold openState
  dsimp only
  split <;> exact .of_eq rfl

theorem spares_bootStep_some (h : Host) (w : Handle) (session : Session) (step : BootStep) :
    Spares who (h.enterPhase w step) (h.bootStep w (some session) step).2 := by
  cases step with
  | resetTerminal => exact spares_resetTerminal h w (some session)
  | openState => exact spares_openState h
  | _ => exact spares_stepInSession h w session _

theorem spares_bootStep_none (h : Host) (w : Handle) (step : BootStep) :
    Spares who h (h.bootStep w none step).2 := by
  cases step with
  | resetTerminal => exact spares_resetTerminal h w none
  | openState => exact spares_openState h
  | _ => exact .refl who h

theorem spares_reportBootFailure (h : Host) (w : Handle) (e : BootError) :
    Spares who h (h.reportBootFailure w e) :=
  (announces_reportBootFailure h w e).spares

theorem spares_closeConnections (h : Host) (w : Handle) : Spares who h (h.closeConnections w) := by
  have hs : Spares who h (h.update w Computer.takeConnections []).2 :=
    spares_update (fun _ => by rfl) h w []
  exact hs.trans (spares_foldl (fun h c => spares_note h w _) _ _)

theorem spares_leave (h : Host) (w : Handle) (session : Option Session) :
    Spares who h (h.leave w session) := by
  unfold leave
  split
  · exact .refl who h
  · exact (spares_closeConnections h w).trans (spares_foldl (fun h l => spares_note h w _) _ _)

theorem spares_tellDetached (h : Host) (name : String) (owner : Handle) :
    Spares who h (h.tellDetached name owner) := by
  unfold tellDetached
  split
  · exact .of_eq rfl
  · dsimp only
    split
    · exact spares_ite (fun _ => .of_eq rfl) fun _ => .of_eq rfl
    · exact .of_eq rfl
  · exact .refl who h

theorem spares_detach (h : Host) (w : Handle) (side : String) : Spares who h (h.detach w side).2 := by
  unfold detach
  split
  · exact .refl who h
  · have hs : Spares who h (h.modify w fun c =>
        { c with peripherals := c.peripherals.filter (·.1 != side) }) :=
      spares_modify (fun _ => by rfl) h w
    exact (hs.trans (spares_tellDetached ..)).trans (spares_queueEvent ..)

theorem spares_teardownStep (h : Host) (w : Handle) (step : TeardownStep) :
    Spares who h (h.teardownStep w step) := by
  cases step with
  | retire | release => exact .of_eq rfl
  | runFinalizers =>
    have hs : Spares who h (h.update w (fun c => (c.finalizers, { c with finalizers := [] })) []).2 :=
      spares_update (fun _ => by rfl) h w []
    refine hs.trans (spares_foldl (fun h name => ?_) _ _)
    have hrun : Spares who h
        (h.modify w fun c => { c with config := h.setup.finalize name c.config }) :=
      spares_modify (fun _ => by rfl) h w
    exact hrun.trans (spares_note ..)
  | releaseTerminal =>
    show Spares who h (h.releaseTerminal w)
    obtain ⟨-, heq⟩ | ⟨n, t, -, ⟨-, heq⟩ | ⟨-, heq⟩⟩ := releaseTerminal_cases h w <;> rw [heq]
    · exact .refl who h
    · exact .of_eq rfl
    · exact .of_eq rfl
  | saveConfig =>
    show Spares who h (h.saveConfig w)
    unfold saveConfig
    split
    · exact .refl who h
    · exact .of_eq rfl
  | releasePeripherals =>
    have hs : Spares who h
        (h.update w (fun c => (c.peripherals.map (·.2), { c with peripherals := [] })) []).2 :=
      spares_update (fun _ => by rfl) h w []
    exact hs.trans (spares_foldl (fun h name => spares_tellDetached h name w) _ _)
  | detachReferences =>
    have hs : Spares who h { h with registry := (h.registry.takeReferences w).2 } := .of_eq rfl
    refine hs.trans (spares_foldl (fun h r => spares_ite (fun _ => ?_) fun _ => .refl who h) _ _)
    exact spares_ite (fun _ => spares_detach ..) fun _ => .refl who h
  | takeTimers => exact spares_modify (fun _ => by rfl) h w
  | invalidateTimers =>
    have hs : Spares who h
        (h.update w (fun c => (c.takenTimers, { c with takenTimers := [] })) []).2 :=
      spares_update (fun _ => by rfl) h w []
    exact hs.trans (.of_eq rfl)
  | cancelDebounce =>
    have hs : Spares who h (h.update w (fun c => (c.debounce, { c with debounce := none })) none).2 :=
      spares_update (fun _ => by rfl) h w none
    unfold teardownStep
    dsimp only
    split
    · exact hs.trans (.of_eq rfl)
    · exact hs
  | closeConnections => exact spares_closeConnections h w

/-! ## 4. What comes from outside -/

theorem spares_attach (h : Host) (w : Handle) (side name : String) :
    Spares who h (h.attach w side name).2 := by
  have htold (h : Host) : Spares who h (h.tellAttached name w side) := by
    unfold tellAttached
    split
    · exact .of_eq rfl
    · exact spares_ite (fun _ => .of_eq rfl) fun _ => .of_eq rfl
    · exact .refl who h
  unfold attach
  split
  · exact .refl who h
  · split
    · exact .refl who h
    · have hs : Spares who h (h.modify w fun c =>
          { c with peripherals := c.peripherals ++ [(side, name)] }) :=
        spares_modify (fun _ => by rfl) h w
      exact (hs.trans (htold _)).trans (spares_queueEvent ..)

theorem spares_resolveDue? {h h' : Host} (hr : h.resolveDue? = some h') : Spares who h h' := by
  obtain ⟨entry, due, -, -, rfl⟩ := of_resolveDue? hr
  exact .of_eq rfl

theorem spares_fire? {h h' : Host} (hf : h.fire? = some h') : Spares who h h' := by
  obtain ⟨entry, -, rfl⟩ := Option.map_eq_some_iff.mp hf
  have hs : Spares who h { h with firing := none } := .of_eq rfl
  exact hs.trans (spares_modify (fun c => Computer.core_timerFired c entry.id entry.event) _ _)

/-- A change never touches the core of a computer. -/
theorem spares_on (x : Change) (h : Host) : Spares who h (x.on h) := by
  cases x with
  | queue w e => exact spares_queueEvent h w e
  | setQueue | shutdown | setLabel | addFinalizer => exact spares_modify (fun _ => by rfl) h _
  | reboot w => exact spares_modify Computer.core_reboot h w
  | beginBoot w => exact spares_update Computer.core_beginBoot h w false
  | finish w => exact spares_modify Computer.core_finish h w
  | startTimer w ms => exact spares_startTimer h w ms
  | cancelTimer w id =>
    have hs : Spares who h (h.update w (·.dropTimer id) false).2 :=
      spares_update (fun _ => by rfl) h w false
    exact spares_ite (fun _ => hs.trans (.of_eq rfl)) fun _ => hs
  | debounce w ms e =>
    have hcount : Spares who h { h with counters := h.counters.newTimer.2 } := .of_eq rfl
    have hs := hcount.trans (spares_update (f := (·.armDebounce h.counters.newTimer.1))
      (fun _ => rfl) _ w none)
    exact spares_ite (fun _ => hs.trans (.of_eq rfl)) fun _ => hs
  | sweep => exact .of_eq rfl
  | resolve =>
    show Spares who h (h.resolveDue?.getD h)
    cases hr : h.resolveDue? with
    | none => exact .refl who h
    | some h' => exact spares_resolveDue? hr
  | fire =>
    show Spares who h (h.fire?.getD h)
    cases hf : h.fire? with
    | none => exact .refl who h
    | some h' => exact spares_fire? hf
  | spawn id isDebugger => exact spares_spawn h id isDebugger
  | supply name p => exact spares_ite (fun _ => .refl who h) fun _ => .of_eq rfl
  | attach w side name => exact spares_attach h w side name
  | detach w side => exact spares_detach h w side
  | turnOn link =>
    show Spares who h (h.turnOn link)
    unfold turnOn
    split
    · exact spares_ite (fun _ => spares_callLink ..) fun _ => .refl who h
    · exact .refl who h
  | connect w name => exact spares_update (fun _ => by rfl) h w 0
  | disconnect w id =>
    have hs : Spares who h (h.update w (·.takeConnection id) none).2 :=
      spares_update (fun _ => by rfl) h w none
    show Spares who h (h.closeConnection w id).2
    unfold closeConnection
    rcases hu : h.update w (·.takeConnection id) none with ⟨_ | c, h₁⟩
    · rwa [hu] at hs
    · rw [hu] at hs
      exact hs.trans (spares_note ..)
  | disconnectAll w => exact spares_closeConnections h w
  | teardown w step => exact spares_teardownStep h w step

theorem spares_runTasks (h : Host) : Spares who h h.runTasks.2 := by
  have hperform (h : Host) (d : Dialog) : Spares who h (h.perform d) := by
    unfold perform
    split <;> exact .of_eq rfl
  have hs : Spares who h { h with tasks := h.tasks.runPending.2 } := .of_eq rfl
  exact hs.trans (spares_foldl hperform _ _)

end

end Host

end ComputerHost
