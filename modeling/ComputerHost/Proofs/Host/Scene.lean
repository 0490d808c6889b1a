import ComputerHost.Proofs.Host.Screens

/-!
# What the fate of a terminal depends on

The `scene` of a host is whatever the fate of its terminals and of its dialogs depends on: the terminals
themselves, those that are kept, the dialogs that wait, who has which terminal, and how far the threads are.
Nearly all that a host does leaves the scene as it is, and there is one lemma for each function that does.

What a program asks for leaves the scene too, unless it turns a link on: then there is a construction.

Results:
1. `scene_modify`, `scene_foldl`: how the lemmas are put together.
2. `scene_bootStep`, `scene_leave`, `scene_teardownStep`: the moves of boots and teardowns.
3. `scene_attach`, `scene_debounce`, …: what comes from outside.
4. `yieldsTo_serve`, `yieldsTo_on`: programs and calls that may construct a computer.
5. `stage?_of_scene`, `face?_of_scene`, …: what is read off a scene.
-/

namespace ComputerHost

namespace Host

/-- Whatever the fate of terminals and dialogs depends on. -/
structure Scene where
  setup : HostSetup
  terminals : List (UInt32 × Terminal)
  orphans : List Nat
  tasks : TaskQueue Dialog
  /-- Who there is, and the number of the terminal of each. -/
  owner : Handle → Option (Option Nat)
  threads : List (Handle × Stage)
  registered : List Handle
  generation : Nat

def scene (h : Host) : Scene :=
  { setup := h.setup, terminals := h.terminals, orphans := h.orphans, tasks := h.tasks,
    owner := fun who => (h.computer? who).map (·.terminal), threads := h.threads,
    registered := h.registry.registered, generation := h.counters.generation }

/-- The scene stays, or it becomes that of a construction in a host with the same scene. -/
inductive YieldsTo (h h' : Host) : Prop
  | same : h'.scene = h.scene → YieldsTo h h'
  | spawns {h₁ : Host} {id : UInt32} {isDebugger : Bool} : h₁.scene = h.scene →
      h'.scene = (h₁.spawn id isDebugger).2.scene → YieldsTo h h'

section
variable {who w : Handle} {h h' h₁ : Host}

/-! ## 1. Single changes -/

theorem scene_modify {f : Computer → Computer}
    (hf : ∀ c, (f c).handle = c.handle ∧ (f c).terminal = c.terminal) (h : Host) (w : Handle) :
    (h.modify w f).scene = h.scene := by
  have howner : (fun who => ((h.modify w f).computer? who).map (·.terminal)) =
      fun who => (h.computer? who).map (·.terminal) := by
    funext who
    rw [computer?_modify h w f fun c => (hf c).1]
    cases h.computer? who with
    | none => rfl
    | some c =>
      simp only [Option.map_some, Option.some.injEq]
      split
      · exact (hf c).2
      · rfl
  unfold scene
  rw [howner]
  rfl

theorem scene_update {α : Type} {f : Computer → α × Computer}
    (hf : ∀ c, (f c).2.handle = c.handle ∧ (f c).2.terminal = c.terminal) (h : Host) (w : Handle)
    (other : α) : (h.update w f other).2.scene = h.scene := by
  unfold update
  split
  · exact scene_modify hf h w
  · rfl

theorem scene_foldl {α : Type} {f : Host → α → Host} (hf : ∀ h x, (f h x).scene = h.scene)
    (h : Host) (xs : List α) : (xs.foldl f h).scene = h.scene := by
  induction xs generalizing h with
  | nil => rfl
  | cons x xs ih => exact (ih (f h x)).trans (hf h x)

theorem scene_foldl_fst {α β : Type} {f : Host × β → α → Host × β}
    (hf : ∀ p x, (f p x).1.scene = p.1.scene) (p : Host × β) (xs : List α) :
    (xs.foldl f p).1.scene = p.1.scene := by
  induction xs generalizing p with
  | nil => rfl
  | cons x xs ih => exact (ih (f p x)).trans (hf p x)

theorem scene_ite {p : Prop} [Decidable p] (hp : h₁.scene = h.scene) (hn : h'.scene = h.scene) :
    (if p then h₁ else h').scene = h.scene := by
  split
  · exact hp
  · exact hn

theorem scene_log (h : Host) (id : UInt32) (lines : List String) :
    (h.log id lines).scene = h.scene := by
  rw [log_eq]
  rfl

theorem scene_shutdown (h : Host) (w : Handle) : (h.modify w Computer.shutdown).scene = h.scene :=
  scene_modify (fun _ => by exact ⟨rfl, rfl⟩) h w

theorem scene_reboot (h : Host) (w : Handle) : (h.modify w Computer.reboot).scene = h.scene := by
  refine scene_modify (fun c => ?_) h w
  rw [Computer.reboot_frame]
  exact ⟨rfl, rfl⟩

theorem scene_finish (h : Host) (w : Handle) : (h.modify w Computer.finish).scene = h.scene := by
  refine scene_modify (fun c => ?_) h w
  rw [Computer.finish_frame]
  exact ⟨rfl, rfl⟩

theorem scene_setPhase (h : Host) (w : Handle) (phase : BootPhase) :
    (h.modify w (·.setPhase phase)).scene = h.scene :=
  scene_modify (fun _ => by exact ⟨rfl, rfl⟩) h w

theorem scene_queueEvent (h : Host) (w : Handle) (e : Event) : (h.queueEvent w e).scene = h.scene :=
  scene_modify (fun _ => by exact ⟨rfl, rfl⟩) h w

theorem scene_takePermit? {device : String} (hp : h.takePermit? device = some h₁) :
    h₁.scene = h.scene := by
  unfold takePermit? at hp
  split at hp
  · split at hp
    · cases hp
    · rw [← Option.some.inj hp]
      rfl
  · cases hp

/-! ## 2. Boots and teardowns -/

theorem scene_setGlobals (h : Host) (who : Handle) (session : Session)
    (globals : List (String × Value)) : (h.setGlobals who session globals).1.scene = h.scene :=
  scene_foldl_fst (f := fun p (x : String × Value) => setGlobal p.1 who p.2 x.1 x.2)
    (fun _ _ => by rfl) (h, session) globals

theorem scene_reinitialized (h : Host) (who : Handle) (session : Session) (name : String) :
    (h.reinitialize who session name).1.scene = h.scene := by
  unfold reinitialize
  split
  · exact scene_setGlobals ..
  · rfl

theorem scene_stepInSession (h : Host) (who : Handle) (session : Session) (step : BootStep) :
    (h.stepInSession who session step).2.scene = h.scene := by
  cases step with
  | openCoroutine =>
    show (h.openCoroutine who session).2.scene = _
    unfold openCoroutine
    dsimp only
    split <;> rfl
  | clearEvents => exact scene_modify (fun _ => by exact ⟨rfl, rfl⟩) h who
  | reinitializePeripherals =>
    exact scene_foldl_fst (f := fun p name => reinitialize p.1 who p.2 name)
      (fun p name => scene_reinitialized p.1 who p.2 name) (h, session) _
  | openBase => exact scene_setPhase h who .loadingLibraries
  | enterProgram => exact scene_setPhase h who .running
  | showPluginFailures =>
    unfold stepInSession
    dsimp only
    split <;> rfl
  | loadPlugins =>
    unfold stepInSession
    dsimp only
    split
    · rfl
    · exact scene_setGlobals ..
  | setGlobals => exact scene_setGlobals h who session (h.hostGlobals (h.terminalOf? who).isNone)
  | loadBios =>
    have hphase := scene_setPhase h who .loadingBios
    show (h.loadBios who session).2.scene = _
    unfold loadBios
    dsimp only
    split
    · exact hphase
    · split <;> exact hphase
  | bindComputer | openLibrary | chooseLoader | resetTerminal | openState => rfl

/-- Every move of a boot but the first. -/
theorem scene_bootStep {step : BootStep} (hstep : step ≠ .resetTerminal) (h : Host) (who : Handle)
    (session : Option Session) : (h.bootStep who session step).2.scene = h.scene := by
  by_cases hopen : step = .openState
  · subst hopen
    show h.openState.2.scene = _
    unfold openState
    dsimp only
    split <;> rfl
  cases session with
  | none => cases step <;> first | rfl | contradiction
  | some session =>
    rw [snd_bootStep_some hstep hopen]
    exact scene_stepInSession ..

theorem scene_closeConnections (h : Host) (who : Handle) : (h.closeConnections who).scene = h.scene :=
  (scene_foldl (fun _ _ => by rfl) _ _).trans
    (scene_update (f := Computer.takeConnections) (fun _ => by exact ⟨rfl, rfl⟩) h who [])

theorem scene_leave (h : Host) (who : Handle) (session : Option Session) :
    (h.leave who session).scene = h.scene := by
  unfold leave
  split
  · rfl
  · exact (scene_foldl (fun _ _ => by rfl) _ _).trans (scene_closeConnections h who)

theorem scene_tellDetached (h : Host) (name : String) (w : Handle) :
    (h.tellDetached name w).scene = h.scene := by
  unfold tellDetached
  split
  · rfl
  · dsimp only
    split
    · exact scene_ite rfl rfl
    · rfl
  · rfl

theorem scene_detach (h : Host) (w : Handle) (side : String) :
    (h.detach w side).2.scene = h.scene := by
  rcases detach_cases h w side with ⟨-, heq⟩ | ⟨name, -, heq⟩
  · rw [heq]
  · rw [heq]
    exact (scene_queueEvent ..).trans ((scene_tellDetached ..).trans
      (scene_modify (fun _ => by exact ⟨rfl, rfl⟩) h w))

theorem scene_detachReferences (h : Host) (who : Handle) :
    (h.detachReferences who).scene = h.scene := by
  refine (scene_foldl (fun h r => ?_) _ _).trans rfl
  split
  · unfold detachReference
    exact scene_ite (scene_detach ..) rfl
  · rfl

theorem scene_runFinalizers (h : Host) (who : Handle) : (h.runFinalizers who).scene = h.scene := by
  have htake : (h.update who (fun c => (c.finalizers, { c with finalizers := [] })) []).2.scene =
      h.scene := scene_update (fun _ => by exact ⟨rfl, rfl⟩) h who []
  refine (scene_foldl (fun h name => ?_) _ _).trans htake
  exact scene_modify (f := fun c => { c with config := h.setup.finalize name c.config })
    (fun _ => by exact ⟨rfl, rfl⟩) h who

theorem scene_releasePeripherals (h : Host) (who : Handle) :
    (h.releasePeripherals who).scene = h.scene := by
  have htake : (h.update who (fun c => (c.peripherals.map (·.2), { c with peripherals := [] })) []).2.scene =
      h.scene := scene_update (fun _ => by exact ⟨rfl, rfl⟩) h who []
  exact (scene_foldl (fun h name => scene_tellDetached h name who) _ _).trans htake

/-- Every move of a teardown but the one that lets go of the terminal and the one that takes the computer
out of the registry. -/
theorem scene_teardownStep {step : TeardownStep} (hretire : step ≠ .retire)
    (hrelease : step ≠ .releaseTerminal) (h : Host) (who : Handle) :
    (h.teardownStep who step).scene = h.scene := by
  cases step with
  | retire => exact absurd rfl hretire
  | releaseTerminal => exact absurd rfl hrelease
  | runFinalizers => exact scene_runFinalizers h who
  | saveConfig =>
    show (h.saveConfig who).scene = _
    unfold saveConfig
    split <;> rfl
  | releasePeripherals => exact scene_releasePeripherals h who
  | detachReferences => exact scene_detachReferences h who
  | takeTimers => exact scene_modify (fun _ => by exact ⟨rfl, rfl⟩) h who
  | invalidateTimers =>
    exact scene_update (f := fun c => (c.takenTimers, { c with takenTimers := [] }))
      (fun _ => by exact ⟨rfl, rfl⟩) h who []
  | cancelDebounce =>
    have htake : (h.update who (fun c => (c.debounce, { c with debounce := none })) none).2.scene =
        h.scene := scene_update (fun _ => by exact ⟨rfl, rfl⟩) h who none
    unfold teardownStep
    dsimp only
    split <;> exact htake
  | closeConnections => exact scene_closeConnections h who
  | release => rfl

/-! ## 3. What comes from outside -/

theorem scene_startTimer (h : Host) (w : Handle) (ms : Nat) : (h.startTimer w ms).2.scene = h.scene := by
  have htrack : (({ h with counters := h.counters.newTimer.2 } : Host).modify w
      (·.trackTimer h.counters.newTimer.1)).scene = h.scene :=
    scene_modify (fun _ => by exact ⟨rfl, rfl⟩) { h with counters := h.counters.newTimer.2 } w
  exact scene_ite htrack htrack

theorem scene_cancelTimer (h : Host) (w : Handle) (id : TimerId) :
    (h.cancelTimer w id).2.scene = h.scene := by
  have hdrop : (h.update w (·.dropTimer id) false).2.scene = h.scene :=
    scene_update (fun _ => by exact ⟨rfl, rfl⟩) h w false
  exact scene_ite hdrop hdrop

theorem scene_debounce (h : Host) (w : Handle) (ms : Nat) (e : Event) :
    (h.debounce w ms e).2.scene = h.scene := by
  have harm : (({ h with counters := h.counters.newTimer.2 } : Host).update w
      (·.armDebounce h.counters.newTimer.1) none).2.scene = h.scene :=
    scene_update (fun _ => by exact ⟨rfl, rfl⟩) { h with counters := h.counters.newTimer.2 } w none
  exact scene_ite harm harm

theorem scene_resolveDue? (hr : h.resolveDue? = some h') : h'.scene = h.scene := by
  obtain ⟨entry, due, -, -, rfl⟩ := of_resolveDue? hr
  have hreg : (h.registry.resolveTimer entry.id entry.owner).2.registered = h.registry.registered := by
    unfold Registry.resolveTimer
    dsimp only
    split <;> rfl
  unfold scene
  rw [← hreg]
  rfl

theorem scene_fire? (hf : h.fire? = some h') : h'.scene = h.scene := by
  obtain ⟨entry, -, rfl⟩ := Option.map_eq_some_iff.mp hf
  refine scene_modify (fun c => ?_) { h with firing := none } entry.owner
  rw [Computer.timerFired_frame]
  exact ⟨rfl, rfl⟩

theorem scene_tellAttached (h : Host) (name : String) (w : Handle) (side : String) :
    (h.tellAttached name w side).scene = h.scene := by
  unfold tellAttached
  split
  · rfl
  · refine scene_ite ?_ rfl
    unfold scene
    rw [(addReference_others ..).1]
    rfl
  · rfl

theorem scene_attach (h : Host) (w : Handle) (side name : String) :
    (h.attach w side name).2.scene = h.scene := by
  rcases attach_cases h w side name with heq | ⟨-, -, -, heq⟩
  · exact congrArg scene (congrArg Prod.snd heq)
  · rw [heq]
    exact (scene_queueEvent ..).trans ((scene_tellAttached ..).trans
      (scene_modify (fun _ => by exact ⟨rfl, rfl⟩) h w))

theorem scene_closeConnection (h : Host) (w : Handle) (id : Nat) :
    (h.closeConnection w id).2.scene = h.scene := by
  have htake : (h.update w (·.takeConnection id) none).2.scene = h.scene :=
    scene_update (fun _ => by exact ⟨rfl, rfl⟩) h w none
  unfold closeConnection
  rcases hu : h.update w (·.takeConnection id) none with ⟨_ | c, h₁⟩
  · rw [hu] at htake
    exact htake
  · rw [hu] at htake
    exact htake

/-! ## 4. Whatever may construct a computer -/

theorem scene_retarget (h : Host) (name : String) (l : Link) (target : Handle) :
    (h.retarget name l target).scene = h.scene := by
  unfold retarget
  dsimp only
  split
  · unfold scene
    rw [(addReference_others ..).1]
    rfl
  · rfl

theorem YieldsTo.trans_same (hy : YieldsTo h h₁) (hs : h'.scene = h₁.scene) : YieldsTo h h' := by
  cases hy with
  | same heq => exact .same (hs.trans heq)
  | spawns hbefore hafter => exact .spawns hbefore (hs.trans hafter)

theorem YieldsTo.of_same (hs : h₁.scene = h.scene) (hy : YieldsTo h₁ h') : YieldsTo h h' := by
  cases hy with
  | same heq => exact .same (heq.trans hs)
  | spawns hbefore hafter => exact .spawns (hbefore.trans hs) hafter

theorem yieldsTo_callLink (h : Host) (name : String) (l : Link) (method : String) :
    YieldsTo h (h.callLink name l method).2 := by
  unfold callLink
  dsimp only
  split
  case h_3 =>
    split
    · exact .same rfl
    · have hspawn : YieldsTo h (h.spawn l.target.id false).2 := .spawns rfl rfl
      rcases hs : h.spawn l.target.id false with ⟨made, h₁⟩
      rw [hs] at hspawn
      cases made with
      | error e => exact hspawn
      | ok w => exact hspawn.trans_same (scene_retarget h₁ name l w)
  case h_4 => exact .same (scene_ite (scene_shutdown ..) rfl)
  case h_5 => exact .same (scene_ite (scene_reboot ..) rfl)
  all_goals exact .same rfl

theorem yieldsTo_call (h : Host) (who : Handle) (side method : String) (args : List Value) :
    YieldsTo h (h.call who side method args).2 := by
  unfold call
  split
  · exact .same rfl
  · dsimp only
    generalize hm : h.modify who _ = h₁
    have hcall : h₁.scene = h.scene := by
      rw [← hm]
      exact scene_modify (fun _ => by exact ⟨rfl, rfl⟩) h who
    split
    · exact .same hcall
    · split
      · exact .of_same hcall (yieldsTo_callLink ..)
      · exact .same hcall
    · split
      · exact .same hcall
      · exact .same hcall
      · exact .same hcall
      · split
        · next hp => exact .same ((scene_takePermit? hp).trans hcall)
        · exact .same hcall

/-- What a program asks for. -/
theorem yieldsTo_serve (h : Host) (who : Handle) (request : Script.Request) :
    YieldsTo h (h.serve who request).2 := by
  have hupdate {f : Computer → Script.Reply × Computer}
      (hf : ∀ c, (f c).2.handle = c.handle ∧ (f c).2.terminal = c.terminal) :
      YieldsTo h (h.update who f Script.Reply.done).2 := .same (scene_update hf h who _)
  cases request with
  | shutdown => exact .same (scene_shutdown h who)
  | reboot => exact .same (scene_reboot h who)
  | setBreakpoint source line | clearBreakpoint id =>
    exact hupdate fun _ => by exact ⟨rfl, rfl⟩
  | startTimer ms => exact .same (scene_startTimer h who ms)
  | queue e => exact .same (scene_queueEvent h who e)
  | call side method args => exact yieldsTo_call h who side method args
  | setLabel text => exact .same (scene_modify (fun _ => by exact ⟨rfl, rfl⟩) h who)

/-- Calls from outside. -/
theorem yieldsTo_on {x : Change} (hx : x.IsCall) (h : Host) : YieldsTo h (x.on h) := by
  cases x with
  | queue w e => exact .same (scene_queueEvent h w e)
  | shutdown w => exact .same (scene_shutdown h w)
  | reboot w => exact .same (scene_reboot h w)
  | setLabel w | addFinalizer w =>
    exact .same (scene_modify (fun _ => by exact ⟨rfl, rfl⟩) h w)
  | startTimer w ms => exact .same (scene_startTimer h w ms)
  | cancelTimer w id => exact .same (scene_cancelTimer h w id)
  | debounce w ms e => exact .same (scene_debounce h w ms e)
  | sweep => exact .same rfl
  | resolve =>
    show YieldsTo h (h.resolveDue?.getD h)
    cases hr : h.resolveDue? with
    | none => exact .same rfl
    | some h' => exact .same (scene_resolveDue? hr)
  | fire =>
    show YieldsTo h (h.fire?.getD h)
    cases hf : h.fire? with
    | none => exact .same rfl
    | some h' => exact .same (scene_fire? hf)
  | spawn id isDebugger => exact .spawns rfl rfl
  | supply name p => exact .same (scene_ite rfl rfl)
  | attach w side name => exact .same (scene_attach h w side name)
  | detach w side => exact .same (scene_detach h w side)
  | turnOn link =>
    show YieldsTo h (h.turnOn link)
    unfold turnOn
    split
    · split
      · exact yieldsTo_callLink ..
      · exact .same rfl
    · exact .same rfl
  | connect w name => exact .same (scene_update (fun _ => by exact ⟨rfl, rfl⟩) h w 0)
  | disconnect w id => exact .same (scene_closeConnection h w id)
  | disconnectAll w => exact .same (scene_closeConnections h w)
  | setQueue | beginBoot | finish | teardown => cases hx

/-- Whatever happens that is not a step of a thread, other than that messages are shown. -/
theorem yieldsTo_of_passes (hp : Passes h none h') : YieldsTo h h' ∨ h' = h.runTasks.2 := by
  cases hp with
  | call hx => exact .inl (yieldsTo_on hx h)
  | step hs =>
    cases hs with
    | runsTasks => exact .inr rfl
    | passes => exact .inl (.same rfl)
    | resolves hr => exact .inl (.same (scene_resolveDue? hr))
    | fires hf => exact .inl (.same (scene_fire? hf))
    | broadcasts e => exact .inl (.same (scene_foldl (fun h w => scene_queueEvent h w e) h _))
    | shutsAllDown => exact .inl (.same (scene_foldl scene_shutdown h _))
    | sweeps => exact .inl (.same rfl)
    | queues w e => exact .inl (.same (scene_queueEvent h w e))
    | shutsDown w => exact .inl (.same (scene_shutdown h w))
    | reboots w => exact .inl (.same (scene_reboot h w))
    | spawns id isDebugger => exact .inl (.spawns rfl rfl)
    | attaches w side name => exact .inl (.same (scene_attach h w side name))
    | detaches w side => exact .inl (.same (scene_detach h w side))
    | startsTimer w ms => exact .inl (.same (scene_startTimer h w ms))
    | cancelsTimer w id => exact .inl (.same (scene_cancelTimer h w id))
    | debounces w ms e => exact .inl (.same (scene_debounce h w ms e))

/-! ## 5. What is read off a scene -/

theorem stage?_of_scene (hs : h'.scene = h.scene) (who : Handle) : h'.stage? who = h.stage? who := by
  unfold stage?
  rw [show h'.threads = h.threads from congrArg Scene.threads hs]

theorem terminal?_of_scene (hs : h'.scene = h.scene) (n : Nat) : h'.terminal? n = h.terminal? n := by
  unfold terminal?
  rw [show h'.terminals = h.terminals from congrArg Scene.terminals hs]

theorem terminalNumber?_eq_owner (h : Host) (who : Handle) :
    h.terminalNumber? who = (h.scene.owner who).join := by
  show h.terminalNumber? who = ((h.computer? who).map (·.terminal)).join
  unfold terminalNumber?
  cases h.computer? who <;> rfl

theorem terminalNumber?_of_scene (hs : h'.scene = h.scene) (who : Handle) :
    h'.terminalNumber? who = h.terminalNumber? who := by
  rw [terminalNumber?_eq_owner, terminalNumber?_eq_owner, hs]

theorem isSome_of_scene (hs : h'.scene = h.scene) (who : Handle) :
    (h'.computer? who).isSome = (h.computer? who).isSome := by
  have howner : (h'.computer? who).map (·.terminal) = (h.computer? who).map (·.terminal) :=
    congrFun (congrArg Scene.owner hs) who
  rw [← Option.isSome_map, howner, Option.isSome_map]

theorem face?_of_scene (hs : h'.scene = h.scene) (who : Handle) : h'.face? who = h.face? who := by
  rw [face?_eq, face?_eq, terminalNumber?_of_scene hs]
  exact Option.bind_congr fun n _ => by rw [terminal?_of_scene hs]

/-- A construction shows nothing on the terminals that there are. -/
theorem YieldsTo.face? (hy : YieldsTo h h') (ha : Apart h) (hc : (h.computer? who).isSome = true) :
    h'.face? who = h.face? who := by
  cases hy with
  | same hs => exact face?_of_scene hs who
  | @spawns h₁ id isDebugger hbefore hafter =>
    have ha₁ : Apart h₁ := by
      have hlength : h₁.terminals.length = h.terminals.length := by
        rw [show h₁.terminals = h.terminals from congrArg Scene.terminals hbefore]
      refine ⟨fun hn => ?_, fun hn hn' => ?_⟩
      · rw [hlength]
        exact ha.bound ((terminalNumber?_of_scene hbefore _).symm.trans hn)
      · exact ha.apart ((terminalNumber?_of_scene hbefore _).symm.trans hn)
          ((terminalNumber?_of_scene hbefore _).symm.trans hn')
    have hw : Works (.all none False False) h₁ (h₁.spawn id isDebugger).2 :=
      works_spawn trivial h₁ id isDebugger
    rw [face?_of_scene hafter, hw.face? ha₁ ((isSome_of_scene hbefore who).trans hc) (.inr not_false),
      face?_of_scene hbefore]

end

end Host

end ComputerHost
