import ComputerHost.Proofs.Host.Announcement
import ComputerHost.Proofs.Host.Construction

/-!
# What others leave alone

A computer's event queue, its run state and the stage of its thread are changed by many hands. `Keeps`
says what all of them but the computer's own thread respect: events are only added, at the end; a stop
is never taken back; the stage stays; time does not run backwards. There is one lemma for each function
of the host.

Results:
1. `Keeps.trans`, `keeps_modify`, `keeps_foldl`: how the frame is put together.
2. `keeps_serve`: requests of programs.
3. `keeps_bootStep`, `keeps_teardownStep`: the moves of a boot and of a teardown.
4. `keeps_fire?`, `keeps_spawn`, `keeps_attach`, …: what comes from outside.
-/

namespace ComputerHost

/-- What a computer has become of another one, if its own thread did not interfere. -/
structure Computer.Grows (c c' : Computer) : Prop where
  handle : c'.handle = c.handle
  events : c.events.toList <+: c'.events.toList
  runState : c'.runState = c.runState ∨ c'.runState = .stopped ∨
    (c.runState ≠ .stopped ∧ c'.runState = .rebooting)

namespace Computer

theorem Grows.of_eq {c c' : Computer} (hh : c'.handle = c.handle) (he : c'.events = c.events)
    (hr : c'.runState = c.runState) : c.Grows c' :=
  ⟨hh, he ▸ List.prefix_rfl, .inl hr⟩

theorem Grows.refl (c : Computer) : c.Grows c := .of_eq rfl rfl rfl

theorem Grows.trans {c c' c'' : Computer} (h : c.Grows c') (h' : c'.Grows c'') : c.Grows c'' := by
  refine ⟨h'.handle.trans h.handle, h.events.trans h'.events, ?_⟩
  rcases h'.runState with hr' | hr' | ⟨hn, hr'⟩
  · rw [hr']
    exact h.runState
  · exact .inr (.inl hr')
  · rcases h.runState with hr | hr | ⟨hn', -⟩
    · rw [hr] at hn
      exact .inr (.inr ⟨hn, hr'⟩)
    · exact absurd hr hn
    · exact .inr (.inr ⟨hn', hr'⟩)

theorem grows_queue (c : Computer) (e : Event) : c.Grows (c.queue e) :=
  ⟨rfl, by simp [queue], .inl rfl⟩

theorem grows_shutdown (c : Computer) : c.Grows c.shutdown :=
  ⟨rfl, List.prefix_rfl, .inr (.inl rfl)⟩

theorem grows_reboot (c : Computer) : c.Grows c.reboot := by
  unfold reboot
  split
  · exact .refl c
  · next hn => exact ⟨rfl, List.prefix_rfl, .inr (.inr ⟨hn, rfl⟩)⟩

theorem grows_finish (c : Computer) : c.Grows c.finish := by
  unfold finish
  split
  · exact ⟨rfl, List.prefix_rfl, .inr (.inl rfl)⟩
  · exact .refl c

theorem timerFired_frame (c : Computer) (id : TimerId) (e : Event) : c.timerFired id e =
    { c with
      timers := (c.timerFired id e).timers, debounce := (c.timerFired id e).debounce,
      events := (c.timerFired id e).events } := by
  unfold timerFired
  split
  · rfl
  · split <;> rfl

theorem grows_timerFired (c : Computer) (id : TimerId) (e : Event) : c.Grows (c.timerFired id e) := by
  unfold timerFired
  split
  · exact ⟨rfl, by simp [queue, dropTimer], .inl rfl⟩
  · split
    · exact ⟨rfl, by simp [queue], .inl rfl⟩
    · exact .refl c

theorem grows_trackTimer (c : Computer) (id : TimerId) : c.Grows (c.trackTimer id) :=
  .of_eq rfl rfl rfl

theorem grows_setPhase (c : Computer) (phase : BootPhase) : c.Grows (c.setPhase phase) :=
  .of_eq rfl rfl rfl

theorem Grows.isRunning {c c' : Computer} (h : c.Grows c') (hr : c'.isRunning = true) :
    c.isRunning = true := by
  simp only [Computer.isRunning, beq_iff_eq] at hr ⊢
  rcases h.runState with h | h | ⟨-, h⟩
  · exact h ▸ hr
  · simp [h] at hr
  · simp [h] at hr

theorem Grows.stopped {c c' : Computer} (h : c.Grows c') (hs : c.runState = .stopped) :
    c'.runState = .stopped := by
  rcases h.runState with h | h | ⟨hn, -⟩
  · exact h.trans hs
  · exact h
  · exact absurd hs hn

end Computer

namespace Host

/-- What everyone but the thread of `who` respects about it. -/
structure Keeps (who : Handle) (h h' : Host) : Prop where
  setup : h'.setup = h.setup
  clock : h.clock ≤ h'.clock
  computer : ∀ c, h.computer? who = some c → ∃ c', h'.computer? who = some c' ∧ c.Grows c'
  stage : ∀ stage, h.stage? who = some stage → h'.stage? who = some stage

/-! ## 1. Putting the frame together -/

section
variable {who : Handle} {h h' h'' : Host}

theorem Keeps.of_eq (hs : h'.setup = h.setup) (hk : h'.clock = h.clock)
    (hc : h'.computers = h.computers) (ht : h'.threads = h.threads) : Keeps who h h' where
  setup := hs
  clock := Nat.le_of_eq hk.symm
  computer c hcomp := ⟨c, by rw [← hcomp, computer?, hc, computer?], .refl c⟩
  stage stage hstage := by rw [← hstage, stage?, ht, stage?]

theorem Keeps.refl (who : Handle) (h : Host) : Keeps who h h := .of_eq rfl rfl rfl rfl

theorem Keeps.trans (hk : Keeps who h h') (hk' : Keeps who h' h'') : Keeps who h h'' where
  setup := hk'.setup.trans hk.setup
  clock := Nat.le_trans hk.clock hk'.clock
  computer c hc := by
    obtain ⟨c', hc', hg⟩ := hk.computer c hc
    obtain ⟨c'', hc'', hg'⟩ := hk'.computer c' hc'
    exact ⟨c'', hc'', hg.trans hg'⟩
  stage stage hstage := hk'.stage stage (hk.stage stage hstage)

/-- Frames that are told apart by a condition. -/
theorem keeps_ite {p : Prop} [Decidable p] (hk : p → Keeps who h h') (hk' : ¬p → Keeps who h h'') :
    Keeps who h (if p then h' else h'') := by
  split
  · next hp => exact hk hp
  · next hp => exact hk' hp

theorem keeps_foldl {α : Type} {f : Host → α → Host} (hf : ∀ h x, Keeps who h (f h x)) (h : Host)
    (xs : List α) : Keeps who h (xs.foldl f h) := by
  induction xs generalizing h with
  | nil => exact .refl who h
  | cons x xs ih => exact (hf h x).trans (ih (f h x))

theorem computer?_modify (h : Host) (w : Handle) (f : Computer → Computer)
    (hf : ∀ c, (f c).handle = c.handle) :
    (h.modify w f).computer? who =
      (h.computer? who).map fun c => if c.handle = w then f c else c := by
  have hpred : ((fun c : Computer => c.handle == who) ∘ fun c => if c.handle = w then f c else c) =
      fun c => c.handle == who := by
    funext c
    simp only [Function.comp]
    split
    · rw [hf]
    · rfl
  rw [computer?, modify, List.find?_map, hpred, computer?]

theorem handle_of_computer? {c : Computer} (hc : h.computer? who = some c) : c.handle = who := by
  simpa using List.find?_some hc

theorem computer?_modify_self {c : Computer} (hc : h.computer? who = some c)
    (f : Computer → Computer) (hf : ∀ c, (f c).handle = c.handle) :
    (h.modify who f).computer? who = some (f c) := by
  rw [computer?_modify h who f hf, hc, Option.map_some, if_pos (handle_of_computer? hc)]

theorem computer?_modify_other {w : Handle} (hne : w ≠ who) {f : Computer → Computer}
    (hf : ∀ c, (f c).handle = c.handle) (h : Host) :
    (h.modify w f).computer? who = h.computer? who := by
  rw [computer?_modify h w f hf]
  cases hc : h.computer? who with
  | none => rfl
  | some c => rw [Option.map_some, if_neg fun heq => hne (heq.symm.trans (handle_of_computer? hc))]

theorem keeps_modify {f : Computer → Computer} (hf : ∀ c : Computer, c.Grows (f c)) (h : Host)
    (w : Handle) : Keeps who h (h.modify w f) where
  setup := rfl
  clock := Nat.le_refl _
  computer c hc := by
    refine ⟨if c.handle = w then f c else c, ?_, ?_⟩
    · rw [computer?_modify h w f fun c => (hf c).handle, hc, Option.map_some]
    split
    · exact hf c
    · exact .refl c
  stage _ hstage := hstage

/-- Whatever is done to another computer. -/
theorem keeps_modify_other {w : Handle} (hne : w ≠ who) {f : Computer → Computer}
    (hf : ∀ c, (f c).handle = c.handle) (h : Host) : Keeps who h (h.modify w f) where
  setup := rfl
  clock := Nat.le_refl _
  computer c hc := by
    refine ⟨c, ?_, .refl c⟩
    rw [computer?_modify h w f hf, hc, Option.map_some, handle_of_computer? hc, if_neg hne.symm]
  stage _ hstage := hstage

theorem update_of_computer? {α : Type} {c : Computer} (hc : h.computer? who = some c)
    (f : Computer → α × Computer) (other : α) :
    h.update who f other = ((f c).1, h.modify who fun c => (f c).2) := by
  rw [update, hc]

theorem keeps_update {α : Type} {f : Computer → α × Computer} (hf : ∀ c : Computer, c.Grows (f c).2)
    (h : Host) (w : Handle) (other : α) : Keeps who h (h.update w f other).2 := by
  unfold update
  cases h.computer? w with
  | none => exact .refl who h
  | some c => exact keeps_modify hf h w

end

/-! ## 2. Requests of programs -/

section
variable {who : Handle}

theorem keeps_note (h : Host) (w : Handle) (deed : Deed) : Keeps who h (h.note w deed) :=
  .of_eq rfl rfl rfl rfl

theorem keeps_log (h : Host) (id : UInt32) (lines : List String) : Keeps who h (h.log id lines) := by
  unfold log
  split
  · exact .refl who h
  · split <;> exact .of_eq rfl rfl rfl rfl

theorem keeps_queueEvent (h : Host) (w : Handle) (e : Event) : Keeps who h (h.queueEvent w e) :=
  keeps_modify (Computer.grows_queue · e) h w

theorem keeps_showFatal (h : Host) (w : Handle) (n : Nat) (message : String) :
    Keeps who h (h.showFatal w n message) :=
  .of_eq rfl rfl rfl rfl

theorem keeps_showDialog (h : Host) (terminal : Option Nat) (title message : String) :
    Keeps who h (h.showDialog terminal title message) :=
  .of_eq rfl rfl rfl rfl

theorem keeps_schedule (h : Host) (w : Handle) (id : TimerId) (fireAt : Nat) (e : Event) :
    Keeps who h (h.schedule w id fireAt e) :=
  .of_eq rfl rfl rfl rfl

theorem keeps_startTimer (h : Host) (w : Handle) (ms : Nat) :
    Keeps who h (h.startTimer w ms).2 := by
  have hcount : Keeps who h { h with counters := h.counters.newTimer.2 } := .of_eq rfl rfl rfl rfl
  have hk := hcount.trans (keeps_modify (Computer.grows_trackTimer · h.counters.newTimer.1) _ w)
  exact keeps_ite (fun _ => hk.trans (keeps_schedule ..)) fun _ => hk

theorem keeps_setPeripheral (h : Host) (name : String) (p : Peripheral) :
    Keeps who h (h.setPeripheral name p) :=
  .of_eq rfl rfl rfl rfl

/-- A new computer does not hide an old one. -/
theorem keeps_append (h : Host) (computer : Computer) :
    Keeps who h { h with computers := h.computers ++ [computer] } where
  setup := rfl
  clock := Nat.le_refl _
  computer c hc := ⟨c, by rw [computer?, List.find?_append, ← computer?, hc]; rfl, .refl c⟩
  stage _ hstage := hstage

theorem keeps_create (h : Host) (id : UInt32) (isDebugger : Bool) :
    Keeps who h (h.create id isDebugger).2 := by
  rcases hc : h.create id isDebugger with ⟨e | w, h'⟩
  · rw [(aborts_of_create_error hc).1.rest]
    exact .of_eq rfl rfl rfl rfl
  · obtain ⟨-, terminal, mounts, config, tree, -, -, heq⟩ := made_of_create_ok hc
    rw [heq]
    exact (keeps_append h _).trans (.of_eq rfl rfl rfl rfl)

theorem keeps_start (h : Host) (w : Handle) : Keeps who h (h.start w) where
  setup := rfl
  clock := Nat.le_refl _
  computer c hc := ⟨c, hc, .refl c⟩
  stage s hs := by
    have hs' : h.threads.lookup who = some s := hs
    show (h.threads ++ [(w, Stage.betweenBoots)]).lookup who = some s
    rw [List.lookup_append, hs']
    rfl

theorem keeps_reportSpawnError (h : Host) (e : SpawnError) : Keeps who h (h.reportSpawnError e) :=
  keeps_ite (fun _ => .refl who h) fun _ => keeps_showDialog ..

theorem keeps_spawn (h : Host) (id : UInt32) (isDebugger : Bool) :
    Keeps who h (h.spawn id isDebugger).2 := by
  unfold spawn
  have hk : Keeps who h (h.create id isDebugger).2 := keeps_create ..
  rcases hc : h.create id isDebugger with ⟨made, h₁⟩
  rw [hc] at hk
  cases made with
  | error e => exact hk.trans (keeps_reportSpawnError h₁ e)
  | ok w => exact hk.trans (keeps_start h₁ w)

theorem keeps_retarget (h : Host) (name : String) (l : Link) (target : Handle) :
    Keeps who h (h.retarget name l target) := by
  unfold retarget
  dsimp only
  split <;> exact .of_eq rfl rfl rfl rfl

theorem keeps_callLink (h : Host) (name : String) (l : Link) (method : String) :
    Keeps who h (h.callLink name l method).2 := by
  unfold callLink
  dsimp only
  split
  case h_3 =>
    have hspawn : Keeps who h (h.spawn l.target.id false).2 := keeps_spawn ..
    split
    · exact .refl who h
    · rcases hs : h.spawn l.target.id false with ⟨made, h₁⟩
      rw [hs] at hspawn
      cases made with
      | error e => exact hspawn
      | ok w => exact hspawn.trans (keeps_retarget h₁ name l w)
  case h_4 =>
    exact keeps_ite (fun _ => keeps_modify Computer.grows_shutdown h l.target) fun _ => .refl who h
  case h_5 =>
    exact keeps_ite (fun _ => keeps_modify Computer.grows_reboot h l.target) fun _ => .refl who h
  all_goals exact .refl who h

theorem keeps_takePermit? {h h' : Host} {name : String} (hp : h.takePermit? name = some h') :
    Keeps who h h' := by
  unfold takePermit? at hp
  split at hp
  · split at hp
    · cases hp
    · rw [← Option.some.inj hp]
      exact keeps_setPeripheral ..
  · cases hp

theorem keeps_call (h : Host) (w : Handle) (side method : String) (args : List Value) :
    Keeps who h (h.call w side method args).2 := by
  unfold call
  split
  · exact .refl who h
  · dsimp only
    generalize hm : h.modify w _ = h₁
    have hk : Keeps who h h₁ := by
      rw [← hm]
      refine keeps_modify ?_ h w
      exact fun c => .of_eq rfl rfl rfl
    split
    · exact hk
    · split
      · exact hk.trans (keeps_callLink ..)
      · exact hk
    · split
      · exact hk
      · exact hk
      · exact hk
      · split
        · next hp => exact hk.trans (keeps_takePermit? hp)
        · exact hk

theorem keeps_serve (h : Host) (w : Handle) (request : Script.Request) :
    Keeps who h (h.serve w request).2 := by
  cases request with
  | shutdown => exact keeps_modify Computer.grows_shutdown h w
  | reboot => exact keeps_modify Computer.grows_reboot h w
  | setBreakpoint source line =>
    show Keeps who h (h.update w _ Script.Reply.done).2
    exact keeps_update (fun c => .of_eq rfl rfl rfl) h w _
  | clearBreakpoint id =>
    show Keeps who h (h.update w _ Script.Reply.done).2
    exact keeps_update (fun c => .of_eq rfl rfl rfl) h w _
  | startTimer ms => exact keeps_startTimer h w ms
  | queue e => exact keeps_queueEvent h w e
  | call side method args => exact keeps_call h w side method args
  | setLabel text =>
    refine keeps_modify ?_ h w
    exact fun c => .of_eq rfl rfl rfl

end

/-! ## 3. The moves of a boot and of a teardown -/

section
variable {who : Handle}

theorem keeps_setGlobal (h : Host) (w : Handle) (session : Session) (name : String)
    (value : Value) : Keeps who h (h.setGlobal w session name value).1 :=
  .of_eq rfl rfl rfl rfl

/-- The host after a fold that carries something along. -/
theorem keeps_foldl_fst {α β : Type} {f : Host × β → α → Host × β}
    (hf : ∀ p x, Keeps who p.1 (f p x).1) (p : Host × β) (xs : List α) :
    Keeps who p.1 (xs.foldl f p).1 := by
  induction xs generalizing p with
  | nil => exact .refl who p.1
  | cons x xs ih => exact (hf p x).trans (ih (f p x))

theorem keeps_setGlobals (h : Host) (w : Handle) (session : Session)
    (globals : List (String × Value)) : Keeps who h (h.setGlobals w session globals).1 :=
  keeps_foldl_fst (fun p x => keeps_setGlobal p.1 w p.2 x.1 x.2) (h, session) globals

theorem keeps_reinitialize (h : Host) (w : Handle) (session : Session) (name : String) :
    Keeps who h (h.reinitialize w session name).1 := by
  unfold reinitialize
  split
  · exact ((keeps_setPeripheral ..).trans (keeps_note ..)).trans (keeps_setGlobals ..)
  · exact .refl who h

theorem keeps_openState (h : Host) : Keeps who h h.openState.2 := by
  unfold openState
  dsimp only
  split <;> exact .of_eq rfl rfl rfl rfl

theorem keeps_openCoroutine (h : Host) (w : Handle) (session : Session) :
    Keeps who h (h.openCoroutine w session).2 := by
  unfold openCoroutine
  dsimp only
  split <;> exact .of_eq rfl rfl rfl rfl

theorem keeps_loadBios (h : Host) (w : Handle) (session : Session) :
    Keeps who h (h.loadBios w session).2 := by
  have hk : Keeps who h (h.modify w (·.setPhase .loadingBios)) :=
    keeps_modify (Computer.grows_setPhase · .loadingBios) h w
  unfold loadBios
  dsimp only
  split
  · exact hk
  · split <;> exact hk.trans (.of_eq rfl rfl rfl rfl)

/-- Every move of a boot but the one that empties the queue. -/
theorem keeps_stepInSession (h : Host) (w : Handle) (session : Session) {step : BootStep}
    (hne : step ≠ .clearEvents) : Keeps who h (h.stepInSession w session step).2 := by
  cases step with
  | clearEvents => exact absurd rfl hne
  | openCoroutine => exact keeps_openCoroutine h w session
  | reinitializePeripherals =>
    exact keeps_foldl_fst (fun p name => keeps_reinitialize p.1 w p.2 name) (h, session) _
  | bindComputer | openLibrary | chooseLoader => exact .of_eq rfl rfl rfl rfl
  | openBase =>
    exact (keeps_modify (Computer.grows_setPhase · .loadingLibraries) h w).trans
      (.of_eq rfl rfl rfl rfl)
  | showPluginFailures =>
    unfold stepInSession
    dsimp only
    split
    · exact .refl who h
    · exact keeps_setGlobal ..
  | loadPlugins =>
    unfold stepInSession
    dsimp only
    split
    · exact .refl who h
    · exact (keeps_note ..).trans (keeps_setGlobals ..)
  | setGlobals => exact keeps_setGlobals h w session (h.hostGlobals (h.terminalOf? w).isNone)
  | loadBios => exact keeps_loadBios h w session
  | enterProgram => exact keeps_modify (Computer.grows_setPhase · .running) h w
  | resetTerminal | openState => exact .refl who h

theorem keeps_bootStep (h : Host) (w : Handle) (session : Option Session) {step : BootStep}
    (hne : step ≠ .clearEvents) : Keeps who h (h.bootStep w session step).2 := by
  unfold bootStep
  split
  · split <;> exact .of_eq rfl rfl rfl rfl
  · exact keeps_openState h
  · exact keeps_stepInSession h w _ hne
  · exact .refl who h

theorem Announces.keeps {w : Handle} {h h' : Host} (ha : Announces w h h') : Keeps who h h' := by
  cases ha with
  | shows => exact keeps_showFatal ..
  | tells => exact keeps_showDialog ..

theorem keeps_reportBootFailure (h : Host) (w : Handle) (e : BootError) :
    Keeps who h (h.reportBootFailure w e) :=
  (announces_reportBootFailure h w e).keeps

theorem keeps_closeConnections (h : Host) (w : Handle) : Keeps who h (h.closeConnections w) := by
  have hk : Keeps who h (h.update w Computer.takeConnections []).2 :=
    keeps_update (fun c => .of_eq rfl rfl rfl) h w []
  exact hk.trans (keeps_foldl (fun h c => keeps_note h w _) _ _)

theorem keeps_tellDetached (h : Host) (name : String) (owner : Handle) :
    Keeps who h (h.tellDetached name owner) := by
  unfold tellDetached
  split
  · exact .of_eq rfl rfl rfl rfl
  · dsimp only
    split
    · exact keeps_ite (fun _ => .of_eq rfl rfl rfl rfl) fun _ => .of_eq rfl rfl rfl rfl
    · exact .of_eq rfl rfl rfl rfl
  · exact .refl who h

theorem keeps_detach (h : Host) (w : Handle) (side : String) :
    Keeps who h (h.detach w side).2 := by
  unfold detach
  split
  · exact .refl who h
  · have hk : Keeps who h (h.modify w fun c =>
        { c with peripherals := c.peripherals.filter (·.1 != side) }) := by
      refine keeps_modify ?_ h w
      exact fun c => .of_eq rfl rfl rfl
    exact (hk.trans (keeps_tellDetached ..)).trans (keeps_queueEvent ..)

theorem keeps_detachReferences (h : Host) (w : Handle) : Keeps who h (h.detachReferences w) := by
  have hk : Keeps who h { h with registry := (h.registry.takeReferences w).2 } :=
    .of_eq rfl rfl rfl rfl
  refine hk.trans (keeps_foldl (fun h r => keeps_ite (fun _ => ?_) fun _ => .refl who h) _ _)
  exact keeps_ite (fun _ => keeps_detach ..) fun _ => .refl who h

theorem keeps_releaseTerminal (h : Host) (w : Handle) : Keeps who h (h.releaseTerminal w) := by
  obtain ⟨-, heq⟩ | ⟨n, t, -, ⟨-, heq⟩ | ⟨-, heq⟩⟩ := releaseTerminal_cases h w <;> rw [heq]
  · exact .refl who h
  · exact .of_eq rfl rfl rfl rfl
  · exact .of_eq rfl rfl rfl rfl

theorem keeps_saveConfig (h : Host) (w : Handle) : Keeps who h (h.saveConfig w) := by
  unfold saveConfig
  split
  · exact .refl who h
  · exact .of_eq rfl rfl rfl rfl

theorem keeps_runFinalizers (h : Host) (w : Handle) : Keeps who h (h.runFinalizers w) := by
  have hk : Keeps who h
      (h.update w (fun c => (c.finalizers, { c with finalizers := [] })) []).2 :=
    keeps_update (fun c => .of_eq rfl rfl rfl) h w []
  refine hk.trans (keeps_foldl (fun h name => ?_) _ _)
  have hrun : Keeps who h
      (h.modify w fun c => { c with config := h.setup.finalize name c.config }) := by
    refine keeps_modify ?_ h w
    exact fun c => .of_eq rfl rfl rfl
  exact hrun.trans (keeps_note ..)

theorem keeps_releasePeripherals (h : Host) (w : Handle) : Keeps who h (h.releasePeripherals w) := by
  have hk : Keeps who h
      (h.update w (fun c => (c.peripherals.map (·.2), { c with peripherals := [] })) []).2 :=
    keeps_update (fun c => .of_eq rfl rfl rfl) h w []
  exact hk.trans (keeps_foldl (fun h name => keeps_tellDetached h name w) _ _)

theorem keeps_teardownStep (h : Host) (w : Handle) (step : TeardownStep) :
    Keeps who h (h.teardownStep w step) := by
  cases step with
  | retire | release => exact .of_eq rfl rfl rfl rfl
  | runFinalizers => exact keeps_runFinalizers h w
  | releaseTerminal => exact keeps_releaseTerminal h w
  | saveConfig => exact keeps_saveConfig h w
  | releasePeripherals => exact keeps_releasePeripherals h w
  | detachReferences => exact keeps_detachReferences h w
  | takeTimers =>
    refine keeps_modify ?_ h w
    exact fun c => .of_eq rfl rfl rfl
  | invalidateTimers =>
    have hk : Keeps who h (h.update w (fun c => (c.takenTimers, { c with takenTimers := [] })) []).2 :=
      keeps_update (fun c => .of_eq rfl rfl rfl) h w []
    exact hk.trans (.of_eq rfl rfl rfl rfl)
  | cancelDebounce =>
    have hk : Keeps who h
        (h.update w (fun c => (c.debounce, { c with debounce := none })) none).2 :=
      keeps_update (fun c => .of_eq rfl rfl rfl) h w none
    unfold teardownStep
    dsimp only
    split
    · exact hk.trans (.of_eq rfl rfl rfl rfl)
    · exact hk
  | closeConnections => exact keeps_closeConnections h w

theorem keeps_leave (h : Host) (w : Handle) (session : Option Session) :
    Keeps who h (h.leave w session) := by
  unfold leave
  split
  · exact .refl who h
  · exact (keeps_closeConnections h w).trans (keeps_foldl (fun h l => keeps_note h w _) _ _)

theorem keeps_programFinished (h : Host) (w : Handle) : Keeps who h (h.programFinished w) := by
  have hk : Keeps who h (h.modify w Computer.finish) := keeps_modify Computer.grows_finish h w
  obtain heq | ⟨n, t, -, -, heq⟩ := programFinished_cases h w <;> rw [heq]
  · exact hk
  · exact hk.trans (keeps_showFatal ..)

theorem keeps_programFailed (h : Host) (w : Handle) (e : ScriptError) :
    Keeps who h (h.programFailed w e) := by
  obtain ⟨-, heq⟩ | ⟨-, ha⟩ := programFailed_cases h w e
  · rw [heq]
    exact .refl who h
  · exact (keeps_modify Computer.grows_shutdown h w).trans ha.keeps

end

/-! ## 4. What comes from outside -/

section
variable {who : Handle}

theorem keeps_broadcast (h : Host) (e : Event) : Keeps who h (h.broadcast e) :=
  keeps_foldl (fun h w => keeps_queueEvent h w e) h _

theorem keeps_shutdownAll (h : Host) : Keeps who h h.shutdownAll :=
  keeps_foldl (fun h w => keeps_modify Computer.grows_shutdown h w) h _

theorem keeps_tellAttached (h : Host) (name : String) (owner : Handle) (side : String) :
    Keeps who h (h.tellAttached name owner side) := by
  unfold tellAttached
  split
  · exact .of_eq rfl rfl rfl rfl
  · exact keeps_ite (fun _ => .of_eq rfl rfl rfl rfl) fun _ => .of_eq rfl rfl rfl rfl
  · exact .refl who h

theorem keeps_attach (h : Host) (w : Handle) (side name : String) :
    Keeps who h (h.attach w side name).2 := by
  unfold attach
  split
  · exact .refl who h
  · split
    · exact .refl who h
    · have hk : Keeps who h (h.modify w fun c =>
          { c with peripherals := c.peripherals ++ [(side, name)] }) := by
        refine keeps_modify ?_ h w
        exact fun c => .of_eq rfl rfl rfl
      exact (hk.trans (keeps_tellAttached ..)).trans (keeps_queueEvent ..)

theorem keeps_cancelTimer (h : Host) (w : Handle) (id : TimerId) :
    Keeps who h (h.cancelTimer w id).2 := by
  have hk : Keeps who h (h.update w (·.dropTimer id) false).2 :=
    keeps_update (fun c => .of_eq rfl rfl rfl) h w false
  exact keeps_ite (fun _ => hk.trans (.of_eq rfl rfl rfl rfl)) fun _ => hk

theorem keeps_debounce (h : Host) (w : Handle) (ms : Nat) (e : Event) :
    Keeps who h (h.debounce w ms e).2 := by
  have hcount : Keeps who h { h with counters := h.counters.newTimer.2 } := .of_eq rfl rfl rfl rfl
  have hk := hcount.trans (keeps_update (f := (·.armDebounce h.counters.newTimer.1))
    (fun c => .of_eq rfl rfl rfl) _ w none)
  refine keeps_ite (fun _ => ?_) fun _ => hk
  exact hk.trans (.of_eq rfl rfl rfl rfl)

theorem keeps_sweep (h : Host) : Keeps who h h.sweep := .of_eq rfl rfl rfl rfl

theorem of_resolveDue? {h h' : Host} (hr : h.resolveDue? = some h') :
    ∃ entry due, h.firing = none ∧ h.due = entry :: due ∧ h' = { h with
      due, registry := (h.registry.resolveTimer entry.id entry.owner).2,
      firing := (h.registry.resolveTimer entry.id entry.owner).1.map fun _ => entry } := by
  unfold resolveDue? at hr
  split at hr
  · next entry due hfiring hdue => exact ⟨entry, due, hfiring, hdue, (Option.some.inj hr).symm⟩
  · cases hr

theorem keeps_resolveDue? {h h' : Host} (hr : h.resolveDue? = some h') : Keeps who h h' := by
  obtain ⟨entry, due, -, -, rfl⟩ := of_resolveDue? hr
  exact .of_eq rfl rfl rfl rfl

theorem keeps_fire? {h h' : Host} (hf : h.fire? = some h') : Keeps who h h' := by
  obtain ⟨entry, -, rfl⟩ := Option.map_eq_some_iff.mp hf
  have hk : Keeps who h { h with firing := none } := .of_eq rfl rfl rfl rfl
  exact hk.trans (keeps_modify (Computer.grows_timerFired · entry.id entry.event) _ _)

theorem keeps_runTasks (h : Host) : Keeps who h h.runTasks.2 := by
  have hperform (h : Host) (d : Dialog) : Keeps who h (h.perform d) := by
    unfold perform
    split <;> exact .of_eq rfl rfl rfl rfl
  have hk : Keeps who h { h with tasks := h.tasks.runPending.2 } := .of_eq rfl rfl rfl rfl
  exact hk.trans (keeps_foldl hperform _ _)

theorem keeps_clock (h : Host) {moment : Nat} (hle : h.clock ≤ moment) :
    Keeps who h { h with clock := moment } where
  setup := rfl
  clock := hle
  computer c hc := ⟨c, hc, .refl c⟩
  stage _ hs := hs

end

end Host

end ComputerHost
