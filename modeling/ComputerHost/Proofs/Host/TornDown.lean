import ComputerHost.Proofs.Host.Phase
import ComputerHost.Proofs.Host.Release
import ComputerHost.Proofs.Host.Reboot

/-!
# What a computer reads as when it is gone

At the end of a thread the run state is `stopped`, whichever way led there. The phase is another matter:
only a thread that has seen its last boot through winds up (`Stage.stopping`) and sets it. A panic goes
from the end of the boot straight to the teardown and leaves the phase that the program had.

`Stage.Suits` is the phase that goes with each stage, and `Stage.Rests` the run state.

Results:
1. `suits_of_step`, `rests_of_leads`: one step of the thread.
2. `Fares.others`, `Fares.step`, `Journey.fares`: a whole journey.
3. `reads_stopped_unless_panicked`: what is read when the thread is gone.
-/

namespace ComputerHost

/-- What is left of a boot: the state is asked for if there is none yet, and the program is entered last. -/
def Planned (todo : List BootStep) (session : Option Session) (phase : BootPhase) : Prop :=
  (session.isSome = true ∨ .openState ∈ todo) ∧
    (todo.getLast? = some .enterProgram ∨ todo = [] ∧ phase = .running)

namespace Stage

/-- The phases that go with a stage, as long as the thread has not begun its teardown. -/
def Suits (phase : BootPhase) : Stage → Prop
  | .booting todo session => Planned todo session phase ∧ phase ≠ .stopped
  | .resuming _ _ _ | .executing _ _ _ | .held _ _ _ _ _ | .suspended _ _ _ | .waiting _ _ _ _
  | .leaving _ (.panicked _) | .ended (.panicked _) => phase = .running
  | .betweenBoots | .leaving _ _ | .ended _ | .stopping => phase ≠ .stopped
  | .tearingDown _ | .gone => True

/-- The run states that go with a stage. -/
def Rests (state : RunState) : Stage → Prop
  | .leaving _ .ordinary | .ended .ordinary => state ≠ .running
  | .stopping | .tearingDown _ | .gone => state = .stopped
  | _ => True

/-- Did the boot end with a panic? -/
def isPanicked : Stage → Bool
  | .ended (.panicked _) => true
  | _ => false

end Stage

namespace Host

/-- A boot of the computer has ended with a panic. -/
def Panicked (who : Handle) (trace : List Moment) : Prop :=
  ∃ o ∈ trace, ∃ stage, o.before.stage? who = some stage ∧ stage.isPanicked = true

section
variable {who : Handle} {h h' h₀ : Host} {stage stage' : Stage} {phase : BootPhase} {state : RunState}
  {changes : List Change} {mover : Option Handle} {trace : List Moment}

/-! ## 1. One step of the thread -/

theorem planned_bootPlan (config : HostConfig) (isDebugger : Bool) (libraries : List Library)
    (phase : BootPhase) : Planned (bootPlan config isDebugger libraries) none phase := by
  refine ⟨.inr (by simp [bootPlan]), .inl ?_⟩
  unfold bootPlan
  rw [List.getLast?_append_of_ne_nil _ (by simp)]
  rfl

/-- Once a boot has a state it keeps one. -/
theorem isSome_bootStep {session session' : Option Session} {step : BootStep}
    (hb : (h.bootStep who session step).1 = .ok session')
    (hs : session.isSome = true ∨ step = .openState) : session'.isSome = true := by
  rcases session_of_bootStep hb with ⟨hopen, rfl⟩ | ⟨made, rfl, -⟩
  · exact hs.resolve_right hopen
  · rfl

theorem planned_of_booting {step : BootStep} {todo : List BootStep} {session : Option Session}
    (hs : h.stage? who = some (.booting (step :: todo) session))
    (hm : Moves who h (.booting (step :: todo) session) h') (hs' : h'.stage? who = some stage')
    (hp : Planned (step :: todo) session phase) :
    (∃ session', stage' = .booting todo session' ∧
      Planned todo session' ((Stage.booting (step :: todo) session).phaseAfter stage' phase)) ∨
      ∃ e, stage' = .leaving session (.failed e) := by
  obtain ⟨stage₁, -, hs₁, hresult⟩ := stage_of_bootStep hs hm
  obtain rfl := Option.some.inj (hs'.symm.trans hs₁)
  rcases hresult with ⟨session', hb, rfl⟩ | ⟨e, -, hfails⟩
  · obtain ⟨hstate, hlast⟩ := hp
    refine .inl ⟨session', rfl, ?_, ?_⟩
    · rcases hstate with hsome | hmem
      · exact .inl (isSome_bootStep hb (.inl hsome))
      · rcases List.mem_cons.mp hmem with heq | hmem
        · exact .inl (isSome_bootStep hb (.inr heq.symm))
        · exact .inr hmem
    · have hlast : (step :: todo).getLast? = some .enterProgram := hlast.resolve_right nofun
      cases todo with
      | cons next rest => exact .inl (by rwa [List.getLast?_cons_cons] at hlast)
      | nil =>
        obtain rfl : step = .enterProgram := by simpa using hlast
        refine .inr ⟨rfl, ?_⟩
        cases session with
        | some session => rfl
        | none => simp at hstate
  · exact .inr ⟨e, hfails⟩

/-- What a program does next, and the phase that goes with it. -/
theorem suits_of_yields {warned : Bool} (hy : Yields who warned changes stage')
    (hp : phase = .running) : stage'.Suits phase := by
  have hne : phase ≠ .stopped := fun heq => BootPhase.noConfusion (hp.symm.trans heq)
  cases hy with
  | goesOn hprogram =>
    cases stage' with
    | executing | held | suspended => exact hp
    | _ => cases hprogram
  | ends => exact hne
  | panics => exact hp

theorem suits_of_step (hstep : Step h (some who) h') (hs : h.stage? who = some stage)
    (hs' : h'.stage? who = some stage') (hsuits : stage.Suits phase) :
    stage'.Suits (stage.phaseAfter stage' phase) := by
  obtain ⟨changes, stage₁, stage₂, hs₁, hl, -, hs₂⟩ := makes_of_step hstep
  obtain rfl := Option.some.inj (hs.symm.trans hs₁)
  obtain rfl := Option.some.inj (hs'.symm.trans hs₂)
  have hmove (hin : stage.isInProgram = false) : Moves who h stage h' := moves_of_step hstep hs hin
  have hstopped {phase : BootPhase} (hp : phase = .running) : phase ≠ .stopped :=
    fun heq => BootPhase.noConfusion (hp.symm.trans heq)
  -- The phase that a move of a boot sets is never the last one.
  have hboot {step : BootStep} {todo : List BootStep} {session : Option Session} {stage' : Stage}
      (hne : phase ≠ .stopped) :
      (Stage.booting (step :: todo) session).phaseAfter stage' phase ≠ .stopped := by
    cases session with
    | none => exact hne
    | some session => cases step <;> first | exact hne | exact BootPhase.noConfusion
  cases hl with
  | begins =>
    cases hmove rfl
    obtain ⟨-, isDebugger, rfl⟩ := (sets_beginBoot hs hs').2 _ _ rfl
    exact ⟨planned_bootPlan .., BootPhase.noConfusion⟩
  | clears =>
    rcases planned_of_booting hs (hmove rfl) hs' hsuits.1 with ⟨session', heq, hplanned⟩ | ⟨e, heq⟩
    · cases heq
      exact ⟨hplanned, hboot hsuits.2⟩
    · cases heq
  | prepares =>
    rcases planned_of_booting hs (hmove rfl) hs' hsuits.1 with ⟨session', heq, hplanned⟩ | ⟨e, heq⟩
    · cases heq
      exact ⟨hplanned, hboot hsuits.2⟩
    · cases heq
  | bootFails => exact hboot hsuits.2
  | enters =>
    obtain ⟨⟨-, hlast | ⟨-, hrunning⟩⟩, -⟩ := hsuits
    · cases hlast
    · exact hrunning
  | lacksState =>
    obtain ⟨⟨hstate, -⟩, -⟩ := hsuits
    simp at hstate
  | runs hin hasked hy =>
    cases hin with
    | resuming | executing | held => exact suits_of_yields hy hsuits
  | suspends | takes | drops | warns | givesUp => exact hsuits
  | declines | quits | interrupted => exact hstopped hsuits
  | @leaves _ ending | @leavesNothing ending => cases ending <;> exact hsuits
  | refuses | isOver | failed => exact hsuits
  | goesOn => exact BootPhase.noConfusion
  | panicked | windsUp | tearsDown | isDone => exact trivial

theorem rests_of_leads (hl : Leads who h stage changes stage') (hr : h.runState? who = some state)
    (hstate : stage ≠ .booting [] none) (hrests : stage.Rests state) :
    stage'.Rests (Change.runAll who changes state) := by
  have hidle (hrunning : h.isRunning who = false) : state ≠ .running := by
    rintro rfl
    rw [isRunning_iff.mpr hr] at hrunning
    cases hrunning
  -- Something is asked of the run state only when the program is over.
  cases hl with
  | refuses hstopped => exact hstopped state hr
  | lacksState => exact absurd rfl hstate
  | declines hrunning | quits hrunning | interrupted _ hrunning => exact hidle hrunning
  | runs _ _ hy =>
    rw [Change.runAll_append]
    cases hy with
    | @goesOn stage' hprogram =>
      cases stage' with
      | executing | held | suspended => trivial
      | _ => cases hprogram
    | ends =>
      show Change.runs who (.finish who) _ ≠ .running
      simp only [Change.runs, if_true]
      cases Change.runAll who _ state <;> exact RunState.noConfusion
    | panics => trivial
  | @leaves _ ending =>
    cases ending with
    | ordinary => exact hrests
    | failed | panicked => trivial
  | @leavesNothing ending =>
    cases ending with
    | ordinary => exact hrests
    | failed | panicked => trivial
  | isOver hover =>
    cases state with
    | stopped => rfl
    | running => exact absurd rfl hrests
    | rebooting => exact absurd hr hover
  | failed => exact Change.runAll_of_shutdown List.mem_cons_self state
  | panicked => exact Change.runAll_of_shutdown List.mem_cons_self state
  | windsUp =>
    rw [show state = .stopped from hrests]
    exact Change.runAll_stopped ..
  | tearsDown => exact hrests
  | isDone => exact hrests
  | _ => trivial

/-! ## 2. A whole journey -/

theorem closing_of_leads (hl : Leads who h stage changes stage') (hs' : stage'.isClosing = true) :
    stage.isClosing = true ∨ stage.isPanicked = true ∨ stage = .stopping := by
  cases hl with
  | runs _ _ hy => exact absurd hs' (by rw [(not_closing_of_yields hy).1]; exact Bool.false_ne_true)
  | panicked => exact .inr (.inl rfl)
  | windsUp => exact .inr (.inr rfl)
  | tearsDown | isDone => exact .inl rfl
  | _ => cases hs'

theorem not_closing_of_leads (hl : Leads who h stage changes stage') (hs' : stage'.isClosing = false) :
    stage.isClosing = false ∧ stage.isPanicked = false := by
  cases hl with
  | runs hin => cases hin <;> exact ⟨rfl, rfl⟩
  | panicked | windsUp | tearsDown | isDone => cases hs'
  | _ => exact ⟨rfl, rfl⟩

/-- What is read of a computer, and how that goes with what has happened to it. -/
structure Fares (who : Handle) (trace : List Moment) (h : Host) (stage : Stage) (phase : BootPhase)
    (state : RunState) : Prop where
  stage? : h.stage? who = some stage
  phase? : h.phase? who = some phase
  runState? : h.runState? who = some state
  suits : stage.Suits phase
  rests : stage.Rests state
  calm : stage.isClosing = false → stage.isPanicked = false → ¬Panicked who trace
  closing : stage.isClosing = true →
    (Panicked who trace ∧ phase = .running) ∨ (¬Panicked who trace ∧ phase = .stopped)

theorem panicked_snoc (trace : List Moment) (o : Moment) : Panicked who (trace ++ [o]) ↔
    Panicked who trace ∨ ∃ stage, o.before.stage? who = some stage ∧ stage.isPanicked = true := by
  unfold Panicked
  simp only [List.mem_append, List.mem_singleton, or_and_right, exists_or, exists_eq_left]

theorem panicked_snoc_iff (hs : h.stage? who = some stage) :
    Panicked who (trace ++ [⟨h, mover, h'⟩]) ↔ Panicked who trace ∨ stage.isPanicked = true := by
  simp [panicked_snoc, hs]

/-- Others never set a computer running. -/
theorem rests_of_grows {c c' : Computer} (hg : c.Grows c') (hrests : stage.Rests c.runState) :
    stage.Rests c'.runState := by
  have hidle (hne : c.runState ≠ .running) : c'.runState ≠ .running := by
    rcases hg.runState with heq | heq | ⟨-, heq⟩
    · rwa [heq]
    · rw [heq]
      exact RunState.noConfusion
    · rw [heq]
      exact RunState.noConfusion
  cases stage with
  | stopping | tearingDown | gone => exact hg.stopped hrests
  | leaving _ ending | ended ending =>
    cases ending with
    | ordinary => exact hidle hrests
    | failed | panicked => trivial
  | _ => trivial

/-- What others do changes nothing but the run state. -/
theorem Fares.others (hf : Fares who trace h stage phase state) (hp : Passes h mover h')
    (hne : mover ≠ some who) :
    ∃ state', Fares who (trace ++ [⟨h, mover, h'⟩]) h' stage phase state' := by
  have hk := keeps_of_passes hp hne
  have hnow : Panicked who (trace ++ [⟨h, mover, h'⟩]) ↔ _ := panicked_snoc_iff hf.stage?
  obtain ⟨c, hc, rfl⟩ := Option.map_eq_some_iff.mp hf.runState?
  obtain ⟨c', hc', hg⟩ := hk.computer c hc
  refine ⟨c'.runState, hk.stage _ hf.stage?, (spares_of_passes hp hne).phase? hf.phase?,
    by rw [Host.runState?, hc']; rfl, hf.suits, rests_of_grows hg hf.rests, ?_, ?_⟩
  · intro hclosing hpanicked
    rw [hnow, hpanicked]
    simpa using hf.calm hclosing hpanicked
  · intro hclosing
    have hpanicked : stage.isPanicked = false := by
      cases stage with
      | tearingDown | gone => rfl
      | _ => cases hclosing
    rw [hnow, hpanicked]
    simpa using hf.closing hclosing

/-- One step of the computer's own thread. -/
theorem Fares.step (hf : Fares who trace h stage phase state) (hstep : Step h (some who) h') :
    ∃ stage' phase' state', Fares who (trace ++ [⟨h, some who, h'⟩]) h' stage' phase' state' := by
  have hnow : Panicked who (trace ++ [⟨h, some who, h'⟩]) ↔ _ := panicked_snoc_iff hf.stage?
  obtain ⟨changes, stage₁, stage', hs, hl, hcomes, hs'⟩ := makes_of_step hstep
  obtain rfl := Option.some.inj (hf.stage?.symm.trans hs)
  obtain ⟨b, hsets⟩ := sets_of_step hstep hs hs'
  have hknown : (h.computer? who).isSome = true := by
    obtain ⟨c, hc, -⟩ := Option.map_eq_some_iff.mp hf.phase?
    rw [hc]
    rfl
  have hstate : stage ≠ .booting [] none := by
    rintro rfl
    obtain ⟨⟨hstate, -⟩, -⟩ := hf.suits
    simp at hstate
  refine ⟨stage', stage.phaseAfter stage' phase, Change.runAll who changes state, hs',
    hsets.phase? hf.phase?, ?_, suits_of_step hstep hs hs' hf.suits,
    rests_of_leads hl hf.runState? hstate hf.rests, ?_, ?_⟩
  · rw [runState?_of_comes hcomes hknown, hf.runState?, Option.map_some]
  · intro hclosing _
    obtain ⟨hbefore, hpanicked⟩ := not_closing_of_leads hl hclosing
    rw [hnow, hpanicked]
    simpa using hf.calm hbefore hpanicked
  · intro hclosing
    rw [hnow]
    rcases closing_of_leads hl hclosing with hbefore | hpanicked | rfl
    · cases stage with
      | tearingDown | gone => simpa [Stage.isPanicked, Stage.phaseAfter] using hf.closing hbefore
      | _ => cases hbefore
    · cases stage with
      | ended ending =>
        cases ending with
        | panicked message =>
          cases hl with
          | runs hin => cases hin
          | panicked =>
            have hrunning : phase = .running := hf.suits
            exact .inl ⟨.inr rfl, hrunning⟩
        | ordinary | failed => cases hpanicked
      | _ => cases hpanicked
    · exact .inr ⟨by simpa [Stage.isPanicked] using hf.calm rfl rfl, rfl⟩

theorem Journey.fares (hj : Journey h₀ trace h) (hf : Fares who [] h₀ stage phase state) :
    ∃ stage' phase' state', Fares who trace h stage' phase' state' := by
  induction hj with
  | refl => exact ⟨_, _, _, hf⟩
  | @snoc past h h' mover _ hp ih =>
    obtain ⟨stage', phase', state', hf'⟩ := ih
    by_cases hown : mover = some who
    · subst hown
      cases hp with
      | step hstep => exact hf'.step hstep
    · obtain ⟨state'', hf''⟩ := hf'.others hp hown
      exact ⟨_, _, _, hf''⟩

/-! ## 3. From the spawn to the end -/

/-- A computer that is new has just been constructed. -/
theorem fresh_of_spawn {id : UInt32} {isDebugger : Bool} (hnone : h.computer? who = none)
    (hsome : ((h.spawn id isDebugger).2.computer? who).isSome = true) :
    (h.spawn id isDebugger).2.phase? who = some .booting ∧
      (h.spawn id isDebugger).2.runState? who = some .running := by
  rcases hs : h.spawn id isDebugger with ⟨made, h₁⟩
  rw [hs] at hsome
  cases made with
  | error e =>
    have hsame := ((differs_of_spawn_error hs).agrees .roster nofun).2 who
    rw [hsome, hnone] at hsame
    cases hsame
  | ok v =>
    obtain ⟨-, -, -, -, terminal, mounts, config, dataDir, hcomputers⟩ := spawn_ok hs
    have hnew := computer?_of_append hcomputers who
    rw [hnone, Option.none_or] at hnew
    split at hnew
    · simp [phase?, runState?, hnew, Computer.new]
    · rw [hnew] at hsome
      cases hsome

/-- Turning a link on leaves the computers as they are, or is a spawn. -/
theorem computer?_turnOn (h : Host) (link : String) (who : Handle) :
    (h.turnOn link).computer? who = h.computer? who ∨
      ∃ id, (h.turnOn link).computer? who = (h.spawn id false).2.computer? who := by
  obtain heq | ⟨l, -, heq | ⟨v, -, heq⟩⟩ := turnOn_cases h link <;> rw [heq]
  · exact .inl rfl
  · exact .inr ⟨l.target.id, rfl⟩
  · refine .inr ⟨l.target.id, ?_⟩
    unfold retarget
    dsimp only
    split <;> rfl

theorem Spawns.fresh {x : Change} (hs : Spawns h x who) :
    (x.on h).phase? who = some .booting ∧ (x.on h).runState? who = some .running := by
  have hroster (ht : ¬x.Touches .roster) : False := by
    have hsame := ((differs_on x h).agrees .roster ht).2 who
    rw [hs.known, hs.unknown] at hsame
    cases hsame
  have hknown := hs.known
  cases x with
  | spawn id isDebugger => exact fresh_of_spawn hs.unknown hknown
  | turnOn link =>
    change ((h.turnOn link).computer? who).isSome = true at hknown
    show (h.turnOn link).phase? who = _ ∧ (h.turnOn link).runState? who = _
    unfold phase? runState?
    rcases computer?_turnOn h link who with heq | ⟨id, heq⟩
    · rw [heq, hs.unknown] at hknown
      cases hknown
    · rw [heq] at hknown ⊢
      exact fresh_of_spawn hs.unknown hknown
  | teardown w step => exact (hroster (by cases step <;> exact id)).elim
  | _ =>
    exact (hroster (by simp [Change.Touches, Aspect.OfWiring, Aspect.OfResolution, Aspect.OfFiring])).elim

/-- When the thread of a computer is gone, the computer reads as stopped, and its handle neither resolves
nor is among those that are registered, whatever has ended its loop. Its phase is the last one too, unless
a boot has ended with a panic: then it is the phase that the program had. -/
theorem reads_stopped_unless_panicked (setup : HostSetup) (tree : FileTree) (store : ConfigStore)
    {x : Change} {evolution : List (Host × Change)}
    (he : Evolves (Host.new setup tree store) evolution h₀) (hspawn : Spawns h₀ x who)
    (hj : Journey (x.on h₀) trace h) (hgone : h.stage? who = some .gone) :
    h.runState? who = some .stopped ∧ h.registry.resolve? who = none ∧
      who ∉ h.registry.registered ∧
      (¬Panicked who trace → h.phase? who = some .stopped) ∧
      (Panicked who trace → h.phase? who = some .running) := by
  have hstart : Present who (x.on h₀) :=
    ⟨rostered_on (rostered_of_evolves he (rostered_new setup tree store)) x, hspawn.known⟩
  obtain ⟨hphase, hstate⟩ := hspawn.fresh
  obtain ⟨stage, phase, state, hf⟩ := hj.fares
    ⟨hspawn.stage, hphase, hstate, BootPhase.noConfusion, trivial, fun _ _ => by simp [Panicked], nofun⟩
  obtain rfl := Option.some.inj (hgone.symm.trans hf.stage?)
  obtain rfl : state = .stopped := hf.rests
  obtain ⟨course, hc⟩ := course_of_journey hj who
  refine ⟨hf.runState?, hc.retired hstart hspawn.stage hgone, hc.unregistered hstart hspawn.stage hgone,
    fun hcalm => ?_, fun hpanicked => ?_⟩
  · obtain ⟨hpanicked, -⟩ | ⟨-, rfl⟩ := hf.closing rfl
    · exact absurd hpanicked hcalm
    · exact hf.phase?
  · obtain ⟨-, rfl⟩ | ⟨hcalm, -⟩ := hf.closing rfl
    · exact hf.phase?
    · exact absurd hpanicked hcalm

end

/-- Is the thread gone, and is this the phase that is left? -/
def isGoneIn (h : Host) (who : Handle) (phase : BootPhase) : Bool :=
  (h.stage? who).any Stage.isGone && h.phase? who == some phase

/-- If so many moves of the thread bring it to its end, there is such a journey. -/
theorem exists_journey_gone {who : Handle} {n : Nat} {h : Host} {phase : BootPhase}
    (hm : (h.moveOn? who n).any (·.2.isGoneIn who phase) = true) :
    ∃ trace h', Journey h trace h' ∧ h'.stage? who = some .gone ∧ h'.phase? who = some phase := by
  obtain ⟨⟨history, h'⟩, hmoves, hend⟩ := (Option.any_eq_true _ _).mp hm
  obtain ⟨hgone, hphase⟩ := Bool.and_eq_true_iff.mp hend
  obtain ⟨trace, hj, -⟩ := journey_of_moveOn? hmoves
  obtain ⟨stage, hs, hstage⟩ := (Option.any_eq_true _ _).mp hgone
  refine ⟨trace, h', hj, ?_, eq_of_beq hphase⟩
  cases stage with
  | gone => exact hs
  | _ => cases hstage

/-- A host whose boot script panics. -/
def panicking : Host :=
  Host.new { HostSetup.standard .default with bios := .embedded "panic boom" }
    ⟨[(["rom"], .directory)], []⟩ default

def boom : Handle := ⟨1, 1⟩

/-- A computer that panics ends with the phase of a running one; if it is stopped in time it does not. -/
theorem reads_stopped_unless_panicked_boom :
    (∃ trace h, Journey (panicking.spawn 1 false).2 trace h ∧ h.stage? boom = some .gone ∧
      Panicked boom trace ∧ h.runState? boom = some .stopped ∧ h.phase? boom = some .running) ∧
    ∃ trace h, Journey (panicking.spawn 1 false).2 trace h ∧ h.stage? boom = some .gone ∧
      ¬Panicked boom trace ∧ h.runState? boom = some .stopped ∧ h.phase? boom = some .stopped := by
  let spawned : Host := (panicking.spawn 1 false).2
  have hspawn : Spawns panicking (.spawn 1 false) boom :=
    ⟨by decide +kernel, by decide +kernel, rfl⟩
  have hends {trace : List Moment} {h : Host} (hj : Journey spawned trace h)
      (hgone : h.stage? boom = some .gone) :=
    reads_stopped_unless_panicked _ _ _ .refl hspawn hj hgone
  have hstops : Journey spawned _ (spawned.modify boom Computer.shutdown) :=
    .snoc .refl (.step (.shutsDown boom))
  constructor
  · have hmoves : (spawned.moveOn? boom 40).any (·.2.isGoneIn boom .running) = true := by
      decide +kernel
    obtain ⟨trace, h, hj, hgone, hphase⟩ := exists_journey_gone hmoves
    obtain ⟨hstate, -, -, hcalm, -⟩ := hends hj hgone
    refine ⟨trace, h, hj, hgone, ?_, hstate, hphase⟩
    by_contra hnot
    cases hphase.symm.trans (hcalm hnot)
  · have hmoves : ((spawned.modify boom Computer.shutdown).moveOn? boom 14).any
        (·.2.isGoneIn boom .stopped) = true := by decide +kernel
    obtain ⟨trace, h, hj, hgone, hphase⟩ := exists_journey_gone hmoves
    obtain ⟨hstate, -, -, -, hpanicked⟩ := hends (hstops.trans hj) hgone
    refine ⟨_, h, hstops.trans hj, hgone, fun hp => ?_, hstate, hphase⟩
    cases hphase.symm.trans (hpanicked hp)

end Host

end ComputerHost
