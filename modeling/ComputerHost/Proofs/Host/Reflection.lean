import ComputerHost.Proofs.Host.Bystander

/-!
# What is done for a computer on hosts that mirror each other

Functions of the host that are applied for a computer on two hosts that mirror each other for it lead to
hosts that mirror each other again, and their answers are alike.

Results:
1. `Announces.blind`, `blind_releaseTerminal`: what nobody sees.
2. `Mirror.isRunning`, `Mirror.sides`, `Mirror.headless`: what the computers are like.
3. `Mirror.bootStep`: boots.
4. `Mirror.serve`, `Mirror.afterLine`, `Mirror.resume`: programs.
-/

namespace ComputerHost

/-- The same reply, or the numbers of a timer and its counterpart. -/
inductive ReplyAlike (ρ : Renaming) : Script.Reply → Script.Reply → Prop
  | same (reply : Script.Reply) : ReplyAlike ρ reply reply
  | timer {i i' : TimerId} : ρ i i' → ReplyAlike ρ (.timer i) (.timer i')

/-- Replies that are alike, or the same device of a pool that holds the caller. -/
inductive CallsAlike (pool : String → Prop) (ρ : Renaming) : Host.CallOutcome → Host.CallOutcome → Prop
  | replied {reply reply' : Script.Reply} : ReplyAlike ρ reply reply' →
      CallsAlike pool ρ (.replied reply) (.replied reply')
  | held {device : String} : pool device → CallsAlike pool ρ (.held device) (.held device)

namespace Host

section
variable {W : Ward} {ρ : Renaming} {h h' h₁ h₁' h₂ : Host} {i i' : TimerId} {session session' : Session}

/-! ## 1. What nobody sees -/

theorem Blind.refl (h : Host) : Blind h h := ⟨rfl⟩

theorem Blind.trans (hb : Blind h h₁) (hb' : Blind h₁ h₂) : Blind h h₂ := by
  obtain ⟨hlength⟩ := hb
  obtain ⟨hlength'⟩ := hb'
  exact ⟨hlength'.trans hlength⟩

theorem blind_note (h : Host) (w : Handle) (d : Deed) : Blind h (h.note w d) := ⟨rfl⟩

theorem blind_onTerminal (h : Host) (n : Nat) (f : Terminal → Terminal) : Blind h (h.onTerminal n f) :=
  ⟨List.length_modify ..⟩

theorem blind_showFatal (h : Host) (w : Handle) (n : Nat) (message : String) :
    Blind h (h.showFatal w n message) :=
  (blind_onTerminal h n _).trans (blind_note _ w _)

theorem blind_showDialog (h : Host) (terminal : Option Nat) (title message : String) :
    Blind h (h.showDialog terminal title message) := ⟨rfl⟩

theorem Announces.blind {w : Handle} (ha : Announces w h h') : Blind h h' := by
  cases ha with
  | shows => exact blind_showFatal ..
  | tells => exact blind_showDialog ..

theorem blind_releaseTerminal (h : Host) (w : Handle) : Blind h (h.releaseTerminal w) := by
  obtain ⟨-, heq⟩ | ⟨n, t, -, ⟨-, heq⟩ | ⟨-, heq⟩⟩ := releaseTerminal_cases h w <;> rw [heq]
  · exact .refl h
  · exact ⟨rfl⟩
  · exact (blind_onTerminal h _ _).trans (blind_note _ w _)

theorem Mirror.sameSetup (hm : Mirror W ρ h h') : h'.setup = h.setup := hm.setup'.trans hm.setup.symm

/-- Writing something down in both hosts. -/
theorem Mirror.note (hm : Mirror W ρ h h') (w w' : Handle) (d d' : Deed) :
    Mirror W ρ (h.note w d) (h'.note w' d') :=
  hm.blind (blind_note h w d) (blind_note h' w' d')

/-! ## 2. What the computers are like -/

theorem Mirror.isRunning (hm : Mirror W ρ h h') : h'.isRunning W.who = h.isRunning W.who := by
  have hold := hm.computer
  unfold Host.isRunning
  generalize h.computer? W.who = found at hold ⊢
  generalize h'.computer? W.who = found' at hold ⊢
  cases hold with
  | none => rfl
  | some hc =>
    obtain ⟨-⟩ := hc
    rfl

/-- What the computers have in common but for timers and events. -/
theorem Mirror.reading {α : Type} (hm : Mirror W ρ h h') {f : Computer → α}
    (hf : ∀ (c : Computer) (events : EventQueue) (timers takenTimers : List TimerId)
      (debounce : Option TimerId), f { c with events, timers, takenTimers, debounce } = f c) :
    (h'.computer? W.who).map f = (h.computer? W.who).map f := by
  have hold := hm.computer
  generalize h.computer? W.who = found at hold ⊢
  generalize h'.computer? W.who = found' at hold ⊢
  cases hold with
  | none => rfl
  | some hc =>
    obtain ⟨-⟩ := hc
    exact congrArg some (hf ..)

theorem Mirror.sides (hm : Mirror W ρ h h') : h'.sidesOf W.who = h.sidesOf W.who := by
  unfold sidesOf
  rw [hm.reading fun _ _ _ _ _ => rfl]

theorem Mirror.side (hm : Mirror W ρ h h') {side : String} :
    (h'.computer? W.who).bind (·.peripheral? side) = (h.computer? W.who).bind (·.peripheral? side) := by
  rw [← lookup_sidesOf, ← lookup_sidesOf, hm.sides]

theorem Mirror.sides_pool (hm : Mirror W ρ h h') : ∀ p ∈ h.sidesOf W.who, W.pool p.2 := by
  have hold := hm.computer
  unfold sidesOf
  generalize h.computer? W.who = found at hold ⊢
  generalize h'.computer? W.who = found' at hold ⊢
  cases hold with
  | none => exact nofun
  | some hc =>
    obtain ⟨-, -, -, -, hsides⟩ := hc
    exact hsides

theorem Mirror.side_pool (hm : Mirror W ρ h h') {side name : String}
    (hname : (h.computer? W.who).bind (·.peripheral? side) = some name) : W.pool name :=
  hm.sides_pool (side, name) (mem_of_lookup ((lookup_sidesOf h W.who side).trans hname))

theorem Mirror.setPhase (hm : Mirror W ρ h h') (phase : BootPhase) :
    Mirror W ρ (h.modify W.who (·.setPhase phase)) (h'.modify W.who (·.setPhase phase)) := by
  refine hm.change (·.setPhase phase) (fun _ => rfl) fun c c' hc => ?_
  obtain ⟨hevents, htimers, htaken, hdebounce, hsides⟩ := hc
  exact ⟨hevents, htimers, htaken, hdebounce, hsides⟩

/-- What is attached to the computer is a device that both hosts have, or nothing. -/
theorem Mirror.device_cases (hm : Mirror W ρ h h') {name : String} (hn : W.pool name) :
    (h.peripheral? name = none ∧ h'.peripheral? name = none) ∨
      ∃ d, h.peripheral? name = some (.device d) ∧ h'.peripheral? name = some (.device d) := by
  rw [hm.devices name hn]
  cases hp : h.peripheral? name with
  | none => exact .inl ⟨rfl, rfl⟩
  | some p =>
    cases p with
    | device d => exact .inr ⟨d, rfl, rfl⟩
    | link l =>
      have hnone := hm.unlinked name hn
      rw [link?_eq_some.mpr hp] at hnone
      cases hnone

theorem isNone_terminalOf? (h : Host) (who : Handle) : (h.terminalOf? who).isNone =
    !(((h.computer? who).map (·.terminal)).getD none).any fun n => decide (n < h.terminals.length) := by
  unfold terminalOf?
  cases h.computer? who with
  | none => rfl
  | some c =>
    show (c.terminal.bind fun n => (h.terminal? n).bind fun t => some (n, t)).isNone =
      !c.terminal.any fun n => decide (n < h.terminals.length)
    cases c.terminal with
    | none => rfl
    | some n =>
      unfold terminal?
      by_cases hn : n < h.terminals.length
      · simp [hn]
      · simp [hn]

theorem Mirror.headless (hm : Mirror W ρ h h') :
    (h'.terminalOf? W.who).isNone = (h.terminalOf? W.who).isNone := by
  rw [isNone_terminalOf?, isNone_terminalOf?, hm.reading fun _ _ _ _ _ => rfl, hm.terminals]

/-! ## 3. Boots -/

/-- Hosts that mirror each other, with sessions that are alike. -/
structure InStep (W : Ward) (ρ : Renaming) (x y : Host × Session) : Prop where
  hosts : Mirror W ρ x.1 y.1
  sessions : x.2.Alike y.2

theorem Mirror.setGlobals (hm : Mirror W ρ h h') (hs : session.Alike session')
    (globals : List (String × Value)) :
    InStep W ρ (h.setGlobals W.who session globals) (h'.setGlobals W.who session' globals) := by
  refine List.foldl_rel (r := InStep W ρ) ⟨hm, hs⟩ fun g _ x y hr => ⟨hr.hosts.note .., ?_⟩
  exact hr.sessions.map (·.setGlobal g.1 g.2) fun _ _ => rfl

theorem Mirror.reinitialized (hm : Mirror W ρ h h') (hs : session.Alike session') {name : String}
    (hn : W.pool name) :
    InStep W ρ (h.reinitialize W.who session name) (h'.reinitialize W.who session' name) := by
  unfold reinitialize
  rcases hm.device_cases hn with ⟨hp, hp'⟩ | ⟨d, hp, hp'⟩
  · rw [hp, hp']
    exact ⟨hm, hs⟩
  · rw [hp, hp']
    exact ((hm.setPeripheral hn _).note ..).setGlobals hs d.globals

/-- A boot goes on alike in both hosts, or fails in both. -/
structure Reflects {α β : Type} (W : Ward) (ρ : Renaming) (r : α → β → Prop)
    (x : Except BootError α × Host) (y : Except BootError β × Host) : Prop where
  result : ResultAlike r x.1 y.1
  hosts : Mirror W ρ x.2 y.2

theorem Mirror.openState (hm : Mirror W ρ h h') :
    Reflects W ρ Session.Alike h.openState h'.openState := by
  have hcount (n n' : Nat) : Mirror W ρ { h with states := n } { h' with states := n' } :=
    hm.blind ⟨rfl⟩ ⟨rfl⟩
  have hfault : h'.setup.faults.newState (h'.states + 1) = h.setup.faults.newState (h.states + 1) := by
    rw [hm.setup, hm.setup', W.steady.newState]
  unfold Host.openState
  dsimp only
  rw [hfault]
  split
  · exact ⟨.error _, hcount ..⟩
  · exact ⟨.ok ⟨.nil⟩, hcount ..⟩

theorem Mirror.noteCall (hm : Mirror W ρ h h') (session session' : Session) (call call' : EngineCall) :
    Mirror W ρ (h.noteCall W.who session call) (h'.noteCall W.who session' call') :=
  hm.note ..

theorem Mirror.openCoroutine (hm : Mirror W ρ h h') (hs : session.Alike session') :
    Reflects W ρ Session.Alike (h.openCoroutine W.who session) (h'.openCoroutine W.who session') := by
  have hcall := hm.noteCall session session' .newCoroutine .newCoroutine
  have hfault : (h'.noteCall W.who session' .newCoroutine).setup.faults.newCoroutine session'.ordinal =
      (h.noteCall W.who session .newCoroutine).setup.faults.newCoroutine session.ordinal := by
    rw [hcall.setup, hcall.setup', W.steady.newCoroutine]
  unfold Host.openCoroutine
  dsimp only
  rw [hfault]
  split
  · exact ⟨.error _, hcall⟩
  · exact ⟨.ok (alike_createCoroutine hs), hcall⟩

theorem Mirror.loadBios (hm : Mirror W ρ h h') (hs : session.Alike session') :
    Reflects W ρ Session.Alike (h.loadBios W.who session) (h'.loadBios W.who session') := by
  have hphase := hm.setPhase .loadingBios
  have hcall := hphase.noteCall session session' (.load biosChunk) (.load biosChunk)
  unfold Host.loadBios
  dsimp only
  rw [hphase.boots.2]
  split
  · exact ⟨.error _, hphase⟩
  · next source _ =>
    have hload := alike_load hs source biosChunk
    generalize session.interpreter.load session.main source biosChunk = loaded at hload ⊢
    generalize session'.interpreter.load session'.main source biosChunk = loaded' at hload ⊢
    cases hload with
    | error e =>
      dsimp only
      rw [hcall.sameSetup]
      exact ⟨.error _, hcall⟩
    | ok hloaded => exact ⟨.ok hloaded, hcall⟩

theorem Mirror.hostGlobals (hm : Mirror W ρ h h') (headless : Bool) :
    h'.hostGlobals headless = h.hostGlobals headless := by
  unfold Host.hostGlobals Host.config
  rw [hm.boots.1, hm.sameSetup]

/-- One move of a boot that has a state. -/
theorem Mirror.stepInSession (hm : Mirror W ρ h h') (hs : session.Alike session') (step : BootStep) :
    Reflects W ρ Session.Alike (h.stepInSession W.who session step)
      (h'.stepInSession W.who session' step) := by
  have hcall (call : EngineCall) := hm.noteCall session session' call call
  cases step with
  | openCoroutine => exact hm.openCoroutine hs
  | clearEvents =>
    refine ⟨.ok hs, hm.change (fun c => { c with events := EventQueue.empty }) (fun _ => rfl) ?_⟩
    rintro c _ ⟨-, htimers, htaken, hdebounce, hsides⟩
    exact ⟨.nil, htimers, htaken, hdebounce, hsides⟩
  | reinitializePeripherals =>
    have hnames {name : String}
        (hn : name ∈ ((h.computer? W.who).map fun c => c.peripherals.map (·.2)).getD []) :
        W.pool name := by
      have hsides := hm.sides_pool
      unfold sidesOf at hsides
      cases hc : h.computer? W.who with
      | none => simp [hc] at hn
      | some c =>
        rw [hc] at hn hsides
        obtain ⟨p, hp, rfl⟩ := List.mem_map.mp hn
        exact hsides p hp
    unfold Host.stepInSession
    dsimp only
    rw [hm.reading fun _ _ _ _ _ => rfl]
    have hstep := List.foldl_rel (r := InStep W ρ)
      (f := fun (x : Host × Session) name => reinitialize x.1 W.who x.2 name)
      (g := fun (x : Host × Session) name => reinitialize x.1 W.who x.2 name)
      (a := (h, session)) (b := (h', session')) ⟨hm, hs⟩
      fun name hn _ _ hr => hr.hosts.reinitialized hr.sessions (hnames hn)
    exact ⟨.ok hstep.sessions, hstep.hosts⟩
  | bindComputer => exact ⟨.ok (hs.map (·.bind W.who.id) fun _ _ => rfl), hm.noteCall ..⟩
  | openBase =>
    unfold Host.stepInSession Host.config
    dsimp only
    rw [hm.sameSetup]
    exact ⟨.ok (hs.map (·.openBase _) fun _ _ => rfl), (hm.setPhase _).noteCall ..⟩
  | openLibrary library surfaces =>
    obtain ⟨hprograms⟩ := hs
    exact ⟨.ok ⟨hprograms⟩, hm.noteCall ..⟩
  | showPluginFailures =>
    unfold Host.stepInSession
    dsimp only
    rw [hm.sameSetup]
    split
    · exact ⟨.ok hs, hm⟩
    · exact ⟨.ok (hs.map (·.setGlobal _ _) fun _ _ => rfl), hm.noteCall ..⟩
  | loadPlugins =>
    unfold Host.stepInSession
    dsimp only
    rw [hm.sameSetup]
    split
    · exact ⟨.ok hs, hm⟩
    · next globals _ =>
      have hset := (hm.note W.who W.who .pluginsLoaded .pluginsLoaded).setGlobals hs globals
      exact ⟨.ok hset.sessions, hset.hosts⟩
  | setGlobals =>
    unfold Host.stepInSession
    dsimp only
    rw [hm.headless, hm.hostGlobals]
    have hset := hm.setGlobals hs (h.hostGlobals (h.terminalOf? W.who).isNone)
    exact ⟨.ok hset.sessions, hset.hosts⟩
  | chooseLoader => exact ⟨.ok (hs.map (·.setLoader .yieldable) fun _ _ => rfl), hm.noteCall ..⟩
  | loadBios => exact hm.loadBios hs
  | enterProgram => exact ⟨.ok hs, hm.setPhase .running⟩
  | resetTerminal | openState => exact ⟨.ok hs, hm⟩

theorem Reflects.some {x : Except BootError Session × Host} {y : Except BootError Session × Host}
    (hr : Reflects W ρ Session.Alike x y) :
    Reflects W ρ (Option.Rel Session.Alike) (x.1.map some, x.2) (y.1.map some, y.2) := by
  obtain ⟨result, h⟩ := x
  obtain ⟨result', h'⟩ := y
  obtain ⟨hresult, hm⟩ := hr
  cases hresult with
  | error e => exact ⟨.error e, hm⟩
  | ok hs => exact ⟨.ok (.some hs), hm⟩

/-- One move of a boot. -/
theorem Mirror.bootStep (hm : Mirror W ρ h h') {session session' : Option Session}
    (hs : Option.Rel Session.Alike session session') (step : BootStep) :
    Reflects W ρ (Option.Rel Session.Alike) (h.bootStep W.who session step)
      (h'.bootStep W.who session' step) := by
  by_cases hreset : step = .resetTerminal
  · subst hreset
    have hblind (h : Host) (session : Option Session) :
        (h.bootStep W.who session .resetTerminal).1 = .ok session ∧
          Blind h (h.bootStep W.who session .resetTerminal).2 := by
      obtain ⟨-, heq⟩ | ⟨n, t, -, heq⟩ := resetTerminal_cases h W.who session <;> rw [heq]
      · exact ⟨rfl, .refl h⟩
      · exact ⟨rfl, (blind_onTerminal ..).trans (blind_note ..)⟩
    obtain ⟨hresult, hb⟩ := hblind h session
    obtain ⟨hresult', hb'⟩ := hblind h' session'
    refine ⟨?_, hm.blind hb hb'⟩
    rw [hresult, hresult']
    exact .ok hs
  by_cases hopen : step = .openState
  · subst hopen
    cases hs <;> exact hm.openState.some
  cases hs with
  | none =>
    cases step with
    | resetTerminal => exact absurd rfl hreset
    | openState => exact absurd rfl hopen
    | _ => exact ⟨.ok .none, hm⟩
  | some hs =>
    have hstep := (hm.stepInSession hs step).some
    cases step with
    | resetTerminal => exact absurd rfl hreset
    | openState => exact absurd rfl hopen
    | _ => exact hstep

/-! ## 4. Programs -/

theorem Mirror.shutdown (hm : Mirror W ρ h h') :
    Mirror W ρ (h.modify W.who Computer.shutdown) (h'.modify W.who Computer.shutdown) := by
  refine hm.change Computer.shutdown (fun _ => rfl) ?_
  rintro c _ ⟨hevents, htimers, htaken, hdebounce, hsides⟩
  exact ⟨hevents, htimers, htaken, hdebounce, hsides⟩

theorem Mirror.reboot (hm : Mirror W ρ h h') :
    Mirror W ρ (h.modify W.who Computer.reboot) (h'.modify W.who Computer.reboot) := by
  refine hm.change Computer.reboot (fun c => ?_) ?_
  · rw [Computer.reboot_frame]
  · rintro c _ ⟨hevents, htimers, htaken, hdebounce, hsides⟩
    unfold Computer.reboot
    dsimp only
    split <;> exact ⟨hevents, htimers, htaken, hdebounce, hsides⟩

theorem Mirror.finish (hm : Mirror W ρ h h') :
    Mirror W ρ (h.modify W.who Computer.finish) (h'.modify W.who Computer.finish) := by
  refine hm.change Computer.finish (fun c => ?_) ?_
  · rw [Computer.finish_frame]
  · rintro c _ ⟨hevents, htimers, htaken, hdebounce, hsides⟩
    unfold Computer.finish
    dsimp only
    split <;> exact ⟨hevents, htimers, htaken, hdebounce, hsides⟩

/-- Queueing an event of the computer in one host, and its counterpart in the other. -/
theorem Mirror.queueEvent (hm : Mirror W ρ h h') {e e' : Event} (he : Event.Alike ρ e e') :
    Mirror W ρ (h.queueEvent W.who e) (h'.queueEvent W.who e') := by
  refine hm.modify _ _ (fun _ => rfl) (fun _ => rfl) ?_
  rintro c _ ⟨hevents, htimers, htaken, hdebounce, hsides⟩
  exact ⟨List.rel_append hevents (.cons he .nil), htimers, htaken, hdebounce, hsides⟩

theorem Mirror.setLabel (hm : Mirror W ρ h h') (text : String) :
    Mirror W ρ (h.modify W.who fun c => { c with config := { c.config with label := some text } })
      (h'.modify W.who fun c => { c with config := { c.config with label := some text } }) := by
  refine hm.modify _ _ (fun _ => rfl) (fun _ => rfl) ?_
  rintro c _ ⟨hevents, htimers, htaken, hdebounce, hsides⟩
  exact ⟨hevents, htimers, htaken, hdebounce, hsides⟩

theorem blind_programFinished (h : Host) (w : Handle) :
    Blind (h.modify w Computer.finish) (h.programFinished w) := by
  obtain heq | ⟨n, t, -, -, heq⟩ := programFinished_cases h w <;> rw [heq]
  · exact .refl _
  · exact blind_showFatal ..

theorem Mirror.programFinished (hm : Mirror W ρ h h') :
    Mirror W ρ (h.programFinished W.who) (h'.programFinished W.who) :=
  hm.finish.blind (blind_programFinished ..) (blind_programFinished ..)

theorem Mirror.programFailed (hm : Mirror W ρ h h') (e : ScriptError) :
    Mirror W ρ (h.programFailed W.who e) (h'.programFailed W.who e) := by
  have hsame := hm.isRunning
  obtain ⟨hr, heq⟩ | ⟨hr, ha⟩ := programFailed_cases h W.who e <;>
    obtain ⟨hr', heq'⟩ | ⟨hr', ha'⟩ := programFailed_cases h' W.who e
  · rwa [heq, heq']
  · exact absurd (hsame.symm.trans hr') (by rw [hr]; nofun)
  · exact absurd (hsame.symm.trans hr') (by rw [hr]; nofun)
  · exact hm.shutdown.blind ha.blind ha'.blind

theorem Mirror.takePermit? (hm : Mirror W ρ h h') {name : String} (hn : W.pool name) :
    Option.Rel (Mirror W ρ) (h.takePermit? name) (h'.takePermit? name) := by
  unfold Host.takePermit?
  rcases hm.device_cases hn with ⟨hp, hp'⟩ | ⟨d, hp, hp'⟩
  · rw [hp, hp']
    exact .none
  · rw [hp, hp']
    dsimp only
    split
    · exact .none
    · exact .some (hm.setPeripheral hn _)

theorem Mirror.hasHost (hm : Mirror W ρ h h') : h'.hasHost W.who = h.hasHost W.who := by
  unfold Host.hasHost
  rw [hm.reading fun _ _ _ _ _ => rfl]

/-- The number that is drawn next is not marked. -/
theorem TimersApart.fresh (ha : TimersApart h) :
    h.timers.cancelled.count ⟨h.counters.timer⟩ = 0 ∧ ⟨h.counters.timer⟩ ∉ h.registry.freedTimers :=
  ⟨List.count_eq_zero.mpr fun hc => Nat.lt_irrefl _ (ha.marked _ (.inl hc)),
    fun hf => Nat.lt_irrefl _ (ha.marked _ (.inr hf))⟩

/-- Starting a timer in each host. The two are counterparts. -/
theorem Mirror.startTimer (hm : Mirror W ρ h h') (ha : TimersApart h) (ha' : TimersApart h') (ms : Nat) :
    Mirror W (ρ.drawn (h.startTimer W.who ms).1 (h'.startTimer W.who ms).1)
      (h.startTimer W.who ms).2 (h'.startTimer W.who ms).2 := by
  obtain ⟨hcancelled, hfreed⟩ := ha.fresh
  obtain ⟨hcancelled', hfreed'⟩ := ha'.fresh
  have hnew : ρ.drawn ⟨h.counters.timer⟩ ⟨h'.counters.timer⟩ ⟨h.counters.timer⟩ ⟨h'.counters.timer⟩ :=
    .inr ⟨rfl, rfl⟩
  have htrack := hm.draw.modify (·.trackTimer ⟨h.counters.timer⟩)
    (·.trackTimer ⟨h'.counters.timer⟩) (fun _ => rfl) (fun _ => rfl) (by
      rintro c _ ⟨hevents, htimers, htaken, hdebounce, hsides⟩
      exact ⟨hevents, List.rel_append htimers (.cons hnew .nil), htaken, hdebounce, hsides⟩)
  have hschedule := htrack.schedule ha.sorted ha'.sorted hnew (.timer hnew)
    (hcancelled'.trans hcancelled.symm) (iff_of_false hfreed' hfreed) (congrArg (· + ms) hm.clock.symm)
  exact .ite (Bool.eq_iff_iff.mp htrack.hasHost) (fun _ => hschedule) fun _ => htrack

theorem Mirror.call (hm : Mirror W ρ h h') (side method : String) (args : List Value) :
    CallsAlike W.pool ρ (h.call W.who side method args).1 (h'.call W.who side method args).1 ∧
      Mirror W ρ (h.call W.who side method args).2 (h'.call W.who side method args).2 := by
  unfold Host.call
  rw [hm.side]
  cases hname : (h.computer? W.who).bind (·.peripheral? side) with
  | none => exact ⟨.replied (.same _), hm⟩
  | some name =>
    have hn := hm.side_pool hname
    have hcalled := hm.change (fun c => { c with lastCall := some s!"peripheral.call({side}, {method})" })
      (fun _ => rfl) (by
        rintro c _ ⟨hevents, htimers, htaken, hdebounce, hsides⟩
        exact ⟨hevents, htimers, htaken, hdebounce, hsides⟩)
    dsimp only
    rcases hcalled.device_cases hn with ⟨hp, hp'⟩ | ⟨d, hp, hp'⟩
    · rw [hp, hp']
      exact ⟨.replied (.same _), hcalled⟩
    · rw [hp, hp', hcalled.sameSetup]
      dsimp only
      split
      · exact ⟨.replied (.same _), hcalled⟩
      · exact ⟨.replied (.same _), hcalled⟩
      · exact ⟨.replied (.same _), hcalled⟩
      · have hpermit := hcalled.takePermit? hn
        generalize Host.takePermit? (h.modify _ _) name = taken at hpermit ⊢
        generalize Host.takePermit? (h'.modify _ _) name = taken' at hpermit ⊢
        cases hpermit with
        | none => exact ⟨.held hn, hcalled⟩
        | some hpermit => exact ⟨.replied (.same _), hpermit⟩

/-- What a program asks for is done in both hosts, with replies that are alike. -/
theorem Mirror.serve (hm : Mirror W ρ h h') (ha : TimersApart h) (ha' : TimersApart h')
    (request : Script.Request) : ∃ ρ', Mirror W ρ' (h.serve W.who request).2 (h'.serve W.who request).2 ∧
      CallsAlike W.pool ρ' (h.serve W.who request).1 (h'.serve W.who request).1 := by
  have hupdate (f : Computer → Script.Reply × Computer) (hf : ∀ c, (f c).2.handle = c.handle)
      (hsame : ∀ c c', c.Alike W.pool ρ c' → (f c').1 = (f c).1 ∧ (f c).2.Alike W.pool ρ (f c').2) :
      ∃ ρ', Mirror W ρ' (h.update W.who f .done).2 (h'.update W.who f .done).2 ∧
        CallsAlike W.pool ρ' (.replied (h.update W.who f .done).1)
          (.replied (h'.update W.who f .done).1) := by
    obtain ⟨hreply, hu⟩ := hm.update (r := fun x y => y = x) f f .done hf hf hsame rfl
    exact ⟨ρ, hu, hreply ▸ .replied (.same _)⟩
  cases request with
  | shutdown => exact ⟨ρ, hm.shutdown, .replied (.same _)⟩
  | reboot => exact ⟨ρ, hm.reboot, .replied (.same _)⟩
  | setBreakpoint source line =>
    refine hupdate _ (fun _ => rfl) ?_
    rintro c _ ⟨hevents, htimers, htaken, hdebounce, hsides⟩
    exact ⟨rfl, hevents, htimers, htaken, hdebounce, hsides⟩
  | clearBreakpoint id =>
    refine hupdate _ (fun _ => rfl) ?_
    rintro c _ ⟨hevents, htimers, htaken, hdebounce, hsides⟩
    exact ⟨rfl, hevents, htimers, htaken, hdebounce, hsides⟩
  | startTimer ms => exact ⟨_, hm.startTimer ha ha' ms, .replied (.timer (.inr ⟨rfl, rfl⟩))⟩
  | queue e => exact ⟨ρ, hm.queueEvent (.same e), .replied (.same _)⟩
  | call side method args =>
    obtain ⟨hcall, hmirror⟩ := hm.call side method args
    exact ⟨ρ, hmirror, hcall⟩
  | setLabel text => exact ⟨ρ, hm.setLabel text, .replied (.same _)⟩

theorem Mirror.afterTurn (hm : Mirror W ρ h h') (hs : session.Alike session')
    {program program' : Script.Program} (hp : program.Alike program') (warned : Bool)
    (turn : Script.Turn) : Mirror W ρ (h.afterTurn W.who session program warned turn)
      (h'.afterTurn W.who session' program' warned turn) := by
  cases turn with
  | next | ask => exact hm.setStage (.executing warned hs hp)
  | suspend values => exact hm.setStage (.suspended values warned (alike_put hs hp))
  | finish => exact hm.programFinished.setStage (.leaving .ordinary (.some hs))
  | fail e => exact (hm.programFailed e).setStage (.leaving .ordinary (.some hs))
  | panic message => exact hm.setStage (.leaving (.panicked message) (.some hs))

theorem lines_refl (ρ : Renaming) (lines : List String) : List.Forall₂ (LineAlike ρ) lines lines :=
  List.forall₂_same.mpr fun line _ => .same line

theorem alike_resolve (request : Script.Request) {reply reply' : Script.Reply}
    (hr : ReplyAlike ρ reply reply') :
    List.Forall₂ (LineAlike ρ) (request.resolve reply).1 (request.resolve reply').1 ∧
      (request.resolve reply').2 = (request.resolve reply).2 ∧ reply'.hookChanges = reply.hookChanges := by
  cases hr with
  | same => exact ⟨lines_refl ρ _, rfl, rfl⟩
  | timer hi =>
    cases request with
    | startTimer => exact ⟨.cons (.started hi) .nil, rfl, rfl⟩
    | _ => exact ⟨.nil, rfl, rfl⟩

theorem Mirror.afterReply (hm : Mirror W ρ h h') (hs : session.Alike session')
    {program program' : Script.Program} (hp : program.Alike program') (warned : Bool)
    (request : Script.Request) {reply reply' : Script.Reply} (hr : ReplyAlike ρ reply reply') :
    Mirror W ρ (h.afterReply W.who session program warned request reply)
      (h'.afterReply W.who session' program' warned request reply') := by
  obtain ⟨hlines, hturn, hhooks⟩ := alike_resolve request hr
  unfold Host.afterReply
  dsimp only
  rw [hturn, hhooks]
  exact (hm.log hlines).afterTurn (hs.map (·.applyHooks _) fun _ _ => rfl) hp warned _

/-- A line of a program leads to hosts that mirror each other. -/
theorem Mirror.afterLine (hm : Mirror W ρ h h') (ha : TimersApart h) (ha' : TimersApart h')
    (hs : session.Alike session') (warned : Bool) {lines lines' : List String}
    (hl : List.Forall₂ (LineAlike ρ) lines lines') (turn : Script.Turn)
    {program program' : Script.Program} (hp : program.Alike program') :
    ∃ ρ', Mirror W ρ' (h.afterLine W.who session warned (lines, turn, program))
      (h'.afterLine W.who session' warned (lines', turn, program')) := by
  have hlog := hm.log hl
  cases turn with
  | ask request =>
    obtain ⟨ρ', hserve, hcalls⟩ := hlog.serve (timersApart_of_quiet ha (quiet_log ..))
      (timersApart_of_quiet ha' (quiet_log ..)) request
    unfold Host.afterLine
    dsimp only
    generalize (h.log W.who.id lines).serve W.who request = served at hserve hcalls ⊢
    generalize (h'.log W.who.id lines').serve W.who request = served' at hserve hcalls ⊢
    obtain ⟨outcome, h₁⟩ := served
    obtain ⟨outcome', h₁'⟩ := served'
    cases hcalls with
    | replied hr => exact ⟨ρ', hserve.afterReply hs hp warned request hr⟩
    | held hn => exact ⟨ρ', hserve.setStage (.held request warned hs hp hn)⟩
  | next => exact ⟨ρ, hlog.afterTurn hs hp warned .next⟩
  | suspend values => exact ⟨ρ, hlog.afterTurn hs hp warned (.suspend values)⟩
  | finish => exact ⟨ρ, hlog.afterTurn hs hp warned .finish⟩
  | fail e => exact ⟨ρ, hlog.afterTurn hs hp warned (.fail e)⟩
  | panic message => exact ⟨ρ, hlog.afterTurn hs hp warned (.panic message)⟩

theorem alike_received {args args' : List Value} (ha : ValuesAlike ρ args args') :
    LineAlike ρ ("event " ++ Value.displayAll args) ("event " ++ Value.displayAll args') := by
  cases ha with
  | same => exact .same _
  | timer hi => exact .received hi

/-- Resuming a program leads to hosts that mirror each other. -/
theorem Mirror.resume (hm : Mirror W ρ h h') (ha : TimersApart h) (ha' : TimersApart h')
    (hs : session.Alike session') {args args' : List Value} (hargs : ValuesAlike ρ args args')
    (warned : Bool) :
    ∃ ρ', Mirror W ρ' (h.resume W.who session args warned) (h'.resume W.who session' args' warned) := by
  have hcall := hm.noteCall session session' (.resume args.length) (.resume args'.length)
  have hresumes : session'.resumes = session.resumes := by
    obtain ⟨-⟩ := hs
    rfl
  have hnext : Session.Alike { session with resumes := session.resumes + 1 }
      { session' with resumes := session.resumes + 1 } := by
    obtain ⟨hprograms⟩ := hs
    exact ⟨hprograms⟩
  have hfault : (h'.noteCall W.who session' (.resume args'.length)).setup.faults.resume session'.ordinal
        (session.resumes + 1) =
      (h.noteCall W.who session (.resume args.length)).setup.faults.resume session.ordinal
        (session.resumes + 1) := by
    rw [hcall.sameSetup, hcall.setup, W.steady.resume]
  have hfailed (e : ScriptError) := (hcall.programFailed e).setStage (.leaving .ordinary (.some hnext))
  unfold Host.resume
  dsimp only
  rw [hresumes, hfault]
  split
  · exact ⟨ρ, hfailed _⟩
  · have htake := alike_take hnext
    dsimp only at htake
    generalize session.interpreter.take session.main = taken at htake ⊢
    generalize session'.interpreter.take session'.main = taken' at htake ⊢
    cases htake with
    | error e => exact ⟨ρ, hfailed e⟩
    | @ok x y hok =>
      obtain ⟨program, interpreter⟩ := x
      obtain ⟨program', interpreter'⟩ := y
      obtain ⟨hprogram, hsession⟩ := hok
      obtain ⟨hlines, hturn, hafter⟩ := Script.alike_enter (r := LineAlike ρ) .same hprogram
        (alike_received hargs)
      dsimp only
      generalize program.enter args = line at hlines hturn hafter ⊢
      generalize program'.enter args' = line' at hlines hturn hafter ⊢
      obtain ⟨lines, turn, program⟩ := line
      obtain ⟨lines', turn', program'⟩ := line'
      cases hturn
      exact hcall.afterLine (timersApart_of_quiet ha (quiet_note h W.who rfl))
        (timersApart_of_quiet ha' (quiet_note h' W.who rfl)) hsession warned hlines turn hafter

end

end Host

end ComputerHost
