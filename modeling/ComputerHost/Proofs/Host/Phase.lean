import ComputerHost.Proofs.Host.Core
import ComputerHost.Proofs.Host.Course

/-!
# Phases and breakpoints

A step of a computer's thread changes the phase by the stages before and after it
(`Stage.phaseAfter`), and the breakpoints by what its program asks for. `Sets` says both, and that
every other computer is spared. A `Journey` is any number of steps of threads and calls from outside,
each with the hosts before and after it.

Results:
1. `sets_serve`, `sets_afterLine`, `sets_resume`: what a program does in one move.
2. `sets_of_step`: what a step of a thread does to the phase.
3. `spares_of_passes`, `course_of_journey`: journeys.
-/

namespace ComputerHost

/-- The breakpoints after a request of the program. -/
def Script.Request.onTable : Script.Request → BreakpointTable → BreakpointTable
  | .setBreakpoint source line, t => (t.set source line.toInt).2.1
  | .clearBreakpoint id, t => (t.clear id.toNat).2.1
  | _, t => t

/-- The breakpoints after the turn that follows a line of the program. -/
def Script.Turn.onTable : Script.Turn → BreakpointTable → BreakpointTable
  | .ask request, t => request.onTable t
  | _, t => t

/-- The phase after a step of a thread that leads from one stage to another. -/
def Stage.phaseAfter (stage stage' : Stage) (phase : BootPhase) : BootPhase :=
  match stage, stage' with
  | .betweenBoots, .booting _ _ => .booting
  | .booting (step :: _) (some _), _ => step.phase?.getD phase
  | .ended _, .betweenBoots => .rebooting
  | .stopping, _ => .stopped
  | _, _ => phase

/-- The stages from the first resume of a program to its end. -/
def Stage.isInProgram : Stage → Bool
  | .resuming _ _ _ | .executing _ _ _ | .held _ _ _ _ _ | .suspended _ _ _ | .waiting _ _ _ _ => true
  | _ => false

theorem Stage.phaseAfter_of_isInProgram {stage : Stage} (hs : stage.isInProgram = true)
    (stage' : Stage) : stage.phaseAfter stage' = id := by
  funext phase
  cases stage with
  | resuming | executing | held | suspended | waiting => rfl
  | _ => cases hs

namespace Host

/-- The phase and the breakpoints of `who` become what the functions say, and nothing else that is
nobody else's business changes. -/
def Sets (who : Handle) (p : BootPhase → BootPhase) (b : BreakpointTable → BreakpointTable)
    (h h' : Host) : Prop :=
  ∃ f : Computer → Computer,
    (∀ c, (f c).handle = c.handle ∧ (f c).phase = p c.phase ∧ (f c).breakpoints = b c.breakpoints) ∧
      ∀ v, Spares v (h.modify who f) h'

def table? (h : Host) (who : Handle) : Option BreakpointTable := (h.computer? who).map (·.breakpoints)

/-- Something happens to a host, and the thread that moves if one does. -/
inductive Passes (h : Host) : Option Handle → Host → Prop
  | step {mover : Option Handle} {h' : Host} : Step h mover h' → Passes h mover h'
  | call {x : Change} : x.IsCall → Passes h none (x.on h)

/-- A moment at which something happens. -/
structure Moment where
  before : Host
  mover : Option Handle
  after : Host

/-- What happens to a host, in order. -/
inductive Journey (h₀ : Host) : List Moment → Host → Prop
  | refl : Journey h₀ [] h₀
  | snoc {past : List Moment} {h h' : Host} {mover : Option Handle} :
      Journey h₀ past h → Passes h mover h' → Journey h₀ (past ++ [⟨h, mover, h'⟩]) h'

section
variable {who v w : Handle} {h h' h₀ h₁ : Host} {p : BootPhase → BootPhase}
  {b : BreakpointTable → BreakpointTable} {stage stage' : Stage}

/-! ## 1. What a program does in one move -/

theorem sets_of_spares (hs : ∀ v, Spares v h h') : Sets who id id h h' :=
  ⟨fun c => c, fun _ => ⟨rfl, rfl, rfl⟩, (modify_id h who).symm ▸ hs⟩

theorem Sets.spares (hs : Sets who p b h h₁) (hs' : ∀ v, Spares v h₁ h') : Sets who p b h h' := by
  obtain ⟨f, hf, hspares⟩ := hs
  exact ⟨f, hf, fun v => (hspares v).trans (hs' v)⟩

theorem Sets.of_computers (h₁ : Host) (hc : h₁.computers = h.computers) (hs : Sets who p b h₁ h') :
    Sets who p b h h' := by
  obtain ⟨f, hf, hspares⟩ := hs
  refine ⟨f, hf, fun v => .trans (.of_eq ?_) (hspares v)⟩
  unfold modify
  rw [hc]

theorem sets_modify (h : Host) (who : Handle) {f : Computer → Computer}
    (hf : ∀ c, (f c).handle = c.handle ∧ (f c).phase = p c.phase ∧
      (f c).breakpoints = b c.breakpoints) : Sets who p b h (h.modify who f) :=
  ⟨f, hf, fun v => .refl v _⟩

/-- Everybody else is spared. -/
theorem Sets.others (hs : Sets who p b h h') (hne : who ≠ v) : Spares v h h' := by
  obtain ⟨f, hf, hspares⟩ := hs
  exact (spares_modify_other hne (fun c => (hf c).1) h).trans (hspares v)

theorem Spares.table? {t : BreakpointTable} (hs : Spares who h h') (ht : h.table? who = some t) :
    h'.table? who = some t := by
  obtain ⟨c, hc, rfl⟩ := Option.map_eq_some_iff.mp ht
  obtain ⟨c', hc', heq⟩ := Option.map_eq_some_iff.mp (hs.core c.core (by rw [core?, hc]; rfl))
  have htable : c'.core.breakpoints = c.core.breakpoints := by rw [heq]
  rw [Host.table?, hc', Option.map_some]
  exact congrArg some htable

theorem Sets.phase? {phase : BootPhase} (hs : Sets who p b h h') (hp : h.phase? who = some phase) :
    h'.phase? who = some (p phase) := by
  obtain ⟨f, hf, hspares⟩ := hs
  obtain ⟨c, hc, rfl⟩ := Option.map_eq_some_iff.mp hp
  refine (hspares who).phase? ?_
  rw [Host.phase?, computer?_modify_self hc f fun c => (hf c).1, Option.map_some, (hf c).2.1]

theorem Sets.table? {t : BreakpointTable} (hs : Sets who p b h h') (ht : h.table? who = some t) :
    h'.table? who = some (b t) := by
  obtain ⟨f, hf, hspares⟩ := hs
  obtain ⟨c, hc, rfl⟩ := Option.map_eq_some_iff.mp ht
  refine (hspares who).table? ?_
  rw [Host.table?, computer?_modify_self hc f fun c => (hf c).1, Option.map_some, (hf c).2.2]

theorem Sets.setStage (hs : Sets who p b h h') (w : Handle) (stage : Stage) :
    Sets who p b h (h'.setStage w stage) :=
  hs.spares fun v => (Spares.refl v h').setStage w stage

theorem sets_serve (h : Host) (who : Handle) (request : Script.Request) :
    Sets who id request.onTable h (h.serve who request).2 := by
  have hupdate {f : Computer → Script.Reply × Computer}
      (hf : ∀ c, (f c).2.handle = c.handle ∧ (f c).2.phase = c.phase ∧
        (f c).2.breakpoints = request.onTable c.breakpoints) :
      Sets who id request.onTable h (h.update who f Script.Reply.done).2 := by
    refine ⟨fun c => (f c).2, hf, fun v => ?_⟩
    unfold update
    cases hc : h.computer? who with
    | some c => exact .refl v _
    | none =>
      -- There is no such computer, so nothing is changed on either side.
      refine ⟨fun c' hcore => ?_⟩
      rwa [core?, ← computer?_update h who f Script.Reply.done (fun c => (hf c).1), update, hc] at hcore
  cases request with
  | setBreakpoint source line => exact hupdate fun _ => ⟨rfl, rfl, rfl⟩
  | clearBreakpoint id => exact hupdate fun _ => ⟨rfl, rfl, rfl⟩
  | _ => exact sets_of_spares fun v => spares_serve h who (.inr rfl)

theorem sets_afterTurn (h : Host) (who : Handle) (session : Session) (program : Script.Program)
    (warned : Bool) (turn : Script.Turn) :
    Sets who id id h (h.afterTurn who session program warned turn) := by
  cases turn with
  | next | ask | suspend | panic => exact (sets_of_spares fun v => .refl v h).setStage ..
  | finish => exact (sets_of_spares fun v => spares_programFinished h who).setStage ..
  | fail e => exact (sets_of_spares fun v => spares_programFailed h who e).setStage ..

theorem spares_afterTurn (h : Host) (who : Handle) (session : Session) (program : Script.Program)
    (warned : Bool) (turn : Script.Turn) (v : Handle) :
    Spares v h (h.afterTurn who session program warned turn) := by
  cases turn with
  | next | ask | suspend | panic => exact (Spares.refl v h).setStage ..
  | finish => exact (spares_programFinished h who).setStage ..
  | fail e => exact (spares_programFailed h who e).setStage ..

theorem spares_afterReply (h : Host) (who : Handle) (session : Session) (program : Script.Program)
    (warned : Bool) (request : Script.Request) (reply : Script.Reply) (v : Handle) :
    Spares v h (h.afterReply who session program warned request reply) :=
  (spares_log ..).trans (spares_afterTurn ..)

theorem computers_log (h : Host) (id : UInt32) (lines : List String) :
    (h.log id lines).computers = h.computers := by
  unfold log
  split
  · rfl
  · split <;> rfl

theorem sets_afterLine (h : Host) (who : Handle) (session : Session) (warned : Bool)
    (line : List String × Script.Turn × Script.Program) :
    Sets who id line.2.1.onTable h (h.afterLine who session warned line) := by
  obtain ⟨lines, turn, program⟩ := line
  have hlog := computers_log h who.id lines
  cases turn with
  | ask request =>
    have hserve := sets_serve (h.log who.id lines) who request
    unfold afterLine
    dsimp only
    split
    · next reply h₁ hr =>
      rw [hr] at hserve
      exact .of_computers _ hlog (hserve.spares fun v => spares_afterReply ..)
    · next device h₁ hr =>
      rw [hr] at hserve
      exact .of_computers _ hlog (hserve.setStage ..)
  | next => exact .of_computers _ hlog (sets_afterTurn _ who session program warned .next)
  | suspend values =>
    exact .of_computers _ hlog (sets_afterTurn _ who session program warned (.suspend values))
  | finish => exact .of_computers _ hlog (sets_afterTurn _ who session program warned .finish)
  | fail e => exact .of_computers _ hlog (sets_afterTurn _ who session program warned (.fail e))
  | panic message =>
    exact .of_computers _ hlog (sets_afterTurn _ who session program warned (.panic message))

theorem sets_resume (h : Host) (who : Handle) (session : Session) (args : List Value)
    (warned : Bool) : ∃ b, Sets who id b h (h.resume who session args warned) := by
  have hfailed (e : ScriptError) (s : Session) : Sets who id id h
      (((h.noteCall who session (.resume args.length)).programFailed who e).setStage who
        (.leaving s .ordinary)) :=
    .of_computers (h.noteCall who session (.resume args.length)) rfl
      ((sets_of_spares fun v => spares_programFailed ..).setStage ..)
  unfold resume
  dsimp only
  split
  · exact ⟨id, hfailed _ _⟩
  · split
    · exact ⟨id, hfailed _ _⟩
    · exact ⟨_, .of_computers (h.noteCall who session (.resume args.length)) rfl
        (sets_afterLine ..)⟩

theorem sets_of_acts {warned : Bool} (ha : Acts who warned h h') : ∃ b, Sets who id b h h' := by
  cases ha with
  | turns session program turn => exact ⟨id, sets_afterTurn ..⟩
  | @asks request reply h₁ session program turn hr =>
    have hserve := sets_serve h who request
    rw [hr] at hserve
    exact ⟨_, hserve.spares fun v => spares_afterTurn ..⟩
  | @isHeld request device h₁ session program hr =>
    have hserve := sets_serve h who request
    rw [hr] at hserve
    exact ⟨_, hserve.setStage ..⟩

/-! ## 2. The steps of a thread -/

theorem computers_takePermit? {device : String} (hp : h.takePermit? device = some h₁) :
    h₁.computers = h.computers := by
  unfold takePermit? at hp
  split at hp
  · split at hp
    · cases hp
    · rw [← Option.some.inj hp]
      rfl
  · cases hp

theorem sets_timeOut (h : Host) (who : Handle) (session : Session) (warned : Bool) :
    Sets who id id h (h.timeOut who session warned) := by
  unfold timeOut
  split
  · exact (sets_of_spares fun v => spares_shutdown h who).setStage ..
  · exact (sets_of_spares fun v => .refl v h).setStage ..

theorem sets_setPhase (h : Host) (who : Handle) (phase : BootPhase) :
    Sets who (fun _ => phase) id h (h.modify who (·.setPhase phase)) :=
  sets_modify h who fun _ => ⟨rfl, rfl, rfl⟩

theorem bootStep_some {session : Session} {step : BootStep} (hreset : step ≠ .resetTerminal)
    (hopen : step ≠ .openState) :
    (h.bootStep who (some session) step).1 = (h.stepInSession who session step).1.map some := by
  cases step with
  | resetTerminal => exact absurd rfl hreset
  | openState => exact absurd rfl hopen
  | _ => rfl

theorem bootStep_resetTerminal (h : Host) (who : Handle) (session : Option Session) :
    (h.bootStep who session .resetTerminal).1 = .ok session := by
  obtain ⟨-, heq⟩ | ⟨n, t, -, heq⟩ := resetTerminal_cases h who session <;> rw [heq]

theorem bootStep_none {step : BootStep} (hopen : step ≠ .openState) :
    (h.bootStep who none step).1 = .ok none := by
  cases step with
  | resetTerminal => exact bootStep_resetTerminal ..
  | openState => exact absurd rfl hopen
  | _ => rfl

/-- Where the session after a move of a boot comes from. -/
theorem session_of_bootStep {session session' : Option Session} {step : BootStep}
    (hb : (h.bootStep who session step).1 = .ok session') :
    (step ≠ .openState ∧ session' = session) ∨ ∃ made, session' = some made ∧
      (h.openState.1 = .ok made ∨
        ∃ before, session = some before ∧ (h.stepInSession who before step).1 = .ok made) := by
  have hmap (made : Except BootError Session) (hb : made.map some = .ok session') :
      ∃ s, session' = some s ∧ made = .ok s := by
    cases made with
    | error e => cases hb
    | ok s => exact ⟨s, (Except.ok.inj hb).symm, rfl⟩
  by_cases hopen : step = .openState
  · subst hopen
    obtain ⟨s, rfl, hs⟩ := hmap h.openState.1 hb
    exact .inr ⟨s, rfl, .inl hs⟩
  by_cases hreset : step = .resetTerminal
  · subst hreset
    exact .inl ⟨hopen, (Except.ok.inj ((bootStep_resetTerminal ..).symm.trans hb)).symm⟩
  cases session with
  | none => exact .inl ⟨hopen, (Except.ok.inj ((bootStep_none hopen).symm.trans hb)).symm⟩
  | some before =>
    obtain ⟨s, rfl, hs⟩ := hmap _ ((bootStep_some hreset hopen).symm.trans hb)
    exact .inr ⟨s, rfl, .inr ⟨before, rfl, hs⟩⟩

theorem sets_bootStep (h : Host) (who : Handle) (session : Option Session) (step : BootStep)
    (todo : List BootStep) (stage' : Stage) :
    Sets who ((Stage.booting (step :: todo) session).phaseAfter stage') id h
      (h.bootStep who session step).2 := by
  cases session with
  | none =>
    have hspares (v : Handle) : Spares v h (h.bootStep who none step).2 :=
      (spares_bootStep_none h who step)
    exact sets_of_spares hspares
  | some session =>
    have hspares (v : Handle) :
        Spares v (h.enterPhase who step) (h.bootStep who (some session) step).2 :=
      spares_bootStep_some h who session step
    have hphase : Sets who (fun phase => step.phase?.getD phase) id h (h.enterPhase who step) := by
      unfold enterPhase
      cases step.phase? with
      | none => exact sets_of_spares fun v => .refl v h
      | some phase => exact sets_setPhase h who phase
    exact hphase.spares hspares

/-- A boot begins with its whole plan. -/
theorem sets_beginBoot (hs : h.stage? who = some .betweenBoots)
    (hs' : (h.beginBoot who).stage? who = some stage') :
    Sets who (Stage.betweenBoots.phaseAfter stage') id h (h.beginBoot who) ∧
      ∀ todo session, stage' = .booting todo session → session = none ∧
        ∃ isDebugger, todo = bootPlan h.config isDebugger h.setup.libraries := by
  obtain ⟨c, hc, -, heq⟩ | ⟨-, heq⟩ := beginBoot_cases h who
  · rw [heq] at hs' ⊢
    obtain rfl := Option.some.inj ((stage?_setStage_self hs _).symm.trans hs')
    refine ⟨?_, ?_⟩
    · -- Both updates are one, which sets the phase and keeps the table.
      rw [modify_modify fun c => Computer.handle_of_core (Computer.core_beginBoot c)]
      have hcore (c : Computer) : c.beginBoot.2.handle = c.handle ∧
          c.beginBoot.2.breakpoints = c.breakpoints := by
        rw [Computer.beginBoot_frame]
        exact ⟨rfl, rfl⟩
      have hset : Sets who (fun _ => .booting) id h
          (h.modify who fun c => c.beginBoot.2.setPhase .booting) :=
        sets_modify h who fun c => ⟨(hcore c).1, rfl, (hcore c).2⟩
      exact hset.setStage ..
    · rintro todo session ⟨⟩
      exact ⟨rfl, _, rfl⟩
  · rw [heq] at hs' ⊢
    have hsame : (h.update who Computer.beginBoot false).2.stage? who = some .betweenBoots := by
      rw [update_frame]
      exact hs
    obtain rfl := Option.some.inj ((stage?_setStage_self hsame _).symm.trans hs')
    have hspares (v : Handle) : Spares v h (h.update who Computer.beginBoot false).2 :=
      spares_update Computer.core_beginBoot h who false
    exact ⟨(sets_of_spares hspares).setStage .., nofun⟩

/-- What comes after the end of a boot. -/
theorem sets_judge {ending : Ending} (hs : h.stage? who = some (.ended ending))
    (hs' : (h.judge who ending).stage? who = some stage') :
    Sets who ((Stage.ended ending).phaseAfter stage') id h (h.judge who ending) := by
  cases ending with
  | ordinary =>
    by_cases hr : h.runState? who = some .rebooting
    · have hjudge : h.judge who .ordinary =
          (h.modify who (·.setPhase .rebooting)).setStage who .betweenBoots :=
        if_pos hr
      rw [hjudge] at hs' ⊢
      obtain rfl := Option.some.inj
        ((stage?_setStage_self (h := h.modify who (·.setPhase .rebooting)) hs _).symm.trans hs')
      exact (sets_setPhase h who .rebooting).setStage ..
    · have hjudge : h.judge who .ordinary = h.setStage who .stopping := if_neg hr
      rw [hjudge] at hs' ⊢
      obtain rfl := Option.some.inj ((stage?_setStage_self hs _).symm.trans hs')
      exact (sets_of_spares fun v => .refl v h).setStage ..
  | failed e =>
    rw [judge_failed] at hs' ⊢
    have hk : Keeps who h ((h.reportBootFailure who e).modify who Computer.shutdown) :=
      (keeps_reportBootFailure h who e).trans (keeps_modify Computer.grows_shutdown _ who)
    obtain rfl := Option.some.inj ((stage?_setStage_self (hk.stage _ hs) _).symm.trans hs')
    exact (sets_of_spares fun v =>
      (spares_reportBootFailure h who e).trans (spares_shutdown ..)).setStage ..
  | panicked detail =>
    let told := h.showDialog ((h.terminalOf? who).map (·.1)) "Uncaught Exception" (panicMessage detail)
    have hk : Keeps who h ((told.modify who Computer.shutdown).closeConnections who) :=
      ((keeps_showDialog ..).trans (keeps_modify Computer.grows_shutdown _ who)).trans
        (keeps_closeConnections ..)
    obtain rfl := Option.some.inj ((stage?_setStage_self (hk.stage _ hs) _).symm.trans hs')
    have htold (v : Handle) : Spares v h told := .of_eq rfl
    exact (sets_of_spares fun v =>
      ((htold v).trans (spares_shutdown ..)).trans (spares_closeConnections ..)).setStage ..

theorem sets_of_moves (hs : h.stage? who = some stage) (hm : Moves who h stage h')
    (hs' : h'.stage? who = some stage') :
    ∃ b, Sets who (stage.phaseAfter stage') b h h' ∧ (stage.isInProgram = false → b = id) := by
  have hself : Sets who id id h h := sets_of_spares fun v => .refl v h
  have hqueue (events : List Event) : Sets who id id h (h.setQueue who events) :=
    sets_of_spares fun v => spares_modify (fun _ => by rfl) h who
  -- While the program runs, its turn may do anything to the table; elsewhere the table is left.
  cases hm with
  | boots => exact ⟨id, (sets_beginBoot hs hs').1, fun _ => rfl⟩
  | lacksState | enters => exact ⟨id, hself.setStage .., fun _ => rfl⟩
  | @prepares step todo session _ _ hb | @bootFails step todo session _ _ hb =>
    have hsets := sets_bootStep h who session step todo stage'
    rw [hb] at hsets
    exact ⟨id, hsets.setStage .., fun _ => rfl⟩
  | resumes =>
    obtain ⟨b, hsets⟩ := sets_resume h who _ _ _
    exact ⟨b, hsets, nofun⟩
  | executes => exact ⟨_, sets_afterLine .., nofun⟩
  | letGo hp =>
    exact ⟨id, sets_of_spares fun v => (spares_takePermit? hp).trans (spares_afterReply ..), nofun⟩
  | declines | suspends | quits | interrupted => exact ⟨id, hself.setStage .., nofun⟩
  | takes => exact ⟨id, (hqueue _).setStage .., nofun⟩
  | drops => exact ⟨id, hqueue _, nofun⟩
  | timesOut => exact ⟨id, sets_timeOut .., nofun⟩
  | leaves => exact ⟨id, (sets_of_spares fun v => spares_leave ..).setStage .., fun _ => rfl⟩
  | judges => exact ⟨id, sets_judge hs hs', fun _ => rfl⟩
  | windsUp =>
    have hfinish (c : Computer) : c.finish.handle = c.handle ∧ c.finish.breakpoints = c.breakpoints := by
      rw [Computer.finish_frame]
      exact ⟨rfl, rfl⟩
    have hset : Sets who (fun _ => .stopped) id h
        (h.modify who fun c => c.finish.setPhase .stopped) :=
      sets_modify h who fun c => ⟨(hfinish c).1, rfl, (hfinish c).2⟩
    exact ⟨id, hset.setStage .., fun _ => rfl⟩
  | isDone => exact ⟨id, hself.setStage .., fun _ => rfl⟩
  | tearsDown =>
    exact ⟨id, (sets_of_spares fun v => spares_teardownStep ..).setStage .., fun _ => rfl⟩

/-- Only programs make other steps than the moves that are read from them. -/
theorem moves_of_step (hstep : Step h (some who) h') (hs : h.stage? who = some stage)
    (hin : stage.isInProgram = false) : Moves who h stage h' := by
  cases hstep with
  | moves hm => exact moves_of_move? hs hm
  | enters hs' | executes hs' | letGo hs' | expires hs' =>
    cases hs.symm.trans hs'
    cases hin

/-- A step of a thread changes the phase of its computer by the stages before and after it. -/
theorem sets_of_step (hstep : Step h (some who) h') (hs : h.stage? who = some stage)
    (hs' : h'.stage? who = some stage') : ∃ b, Sets who (stage.phaseAfter stage') b h h' := by
  have hacts {h₁ : Host} {warned : Bool} (hc : h₁.computers = h.computers)
      (ha : Acts who warned h₁ h') (hin : stage.isInProgram = true) :
      ∃ b, Sets who (stage.phaseAfter stage') b h h' := by
    obtain ⟨b, hsets⟩ := sets_of_acts ha
    rw [Stage.phaseAfter_of_isInProgram hin]
    exact ⟨b, .of_computers h₁ hc hsets⟩
  cases hstep with
  | moves hm =>
    obtain ⟨b, hsets, -⟩ := sets_of_moves hs (moves_of_move? hs hm) hs'
    exact ⟨b, hsets⟩
  | enters hstage _ ha =>
    cases hs.symm.trans hstage
    exact hacts rfl ha rfl
  | executes hstage ha =>
    cases hs.symm.trans hstage
    exact hacts rfl ha rfl
  | letGo hstage hp ha =>
    cases hs.symm.trans hstage
    exact hacts (computers_takePermit? hp) ha rfl
  | expires hstage =>
    cases hs.symm.trans hstage
    rw [Stage.phaseAfter_of_isInProgram rfl]
    exact ⟨id, sets_timeOut ..⟩

/-! ## 3. Journeys -/

/-- What everybody but the computer's own thread does spares it. -/
theorem spares_of_passes {mover : Option Handle} (hp : Passes h mover h') (hne : mover ≠ some who) :
    Spares who h h' := by
  cases hp with
  | @call x hx => exact spares_on x h
  | step hstep =>
    cases mover with
    | some w =>
      obtain ⟨_, stage, stage', hs, -, -, hs'⟩ := makes_of_step hstep
      obtain ⟨b, hsets⟩ := sets_of_step hstep hs hs'
      exact hsets.others fun heq => hne (by rw [heq])
    | none =>
      cases hstep with
      | passes => exact .of_eq rfl
      | runsTasks => exact spares_runTasks h
      | resolves hr => exact spares_resolveDue? hr
      | fires hf => exact spares_fire? hf
      | broadcasts e => exact spares_foldl (fun h w => spares_queueEvent h w e) h _
      | shutsAllDown => exact spares_foldl (fun h w => spares_shutdown h w) h _
      | sweeps => exact spares_on .sweep h
      | queues w e => exact spares_on (.queue w e) h
      | shutsDown w => exact spares_on (.shutdown w) h
      | reboots w => exact spares_on (.reboot w) h
      | spawns id isDebugger => exact spares_on (.spawn id isDebugger) h
      | attaches w side name => exact spares_on (.attach w side name) h
      | detaches w side => exact spares_on (.detach w side) h
      | startsTimer w ms => exact spares_on (.startTimer w ms) h
      | cancelsTimer w id => exact spares_on (.cancelTimer w id) h
      | debounces w ms e => exact spares_on (.debounce w ms e) h

theorem keeps_of_passes {mover : Option Handle} (hp : Passes h mover h') (hne : mover ≠ some who) :
    Keeps who h h' := by
  cases hp with
  | step hstep => exact keeps_of_step hstep hne
  | @call x hx => exact keeps_of_isCall x hx h

theorem course_of_passes {mover : Option Handle} (hp : Passes h mover h') (who : Handle) :
    ∃ trace, Course who h trace h' := by
  cases hp with
  | step hstep => exact course_of_step hstep who
  | call hx => exact ⟨_, (Occurs.called hx).course⟩

/-- A journey, as it occurs to one computer. -/
theorem course_of_journey {past : List Moment} (hj : Journey h₀ past h) (who : Handle) :
    ∃ trace, Course who h₀ trace h := by
  induction hj with
  | refl => exact ⟨[], .refl⟩
  | snoc _ hp ih =>
    obtain ⟨trace, hc⟩ := ih
    obtain ⟨later, hc'⟩ := course_of_passes hp who
    exact ⟨_, hc.trans hc'⟩

theorem Journey.trans {past later : List Moment} (hj : Journey h₀ past h) (hj' : Journey h later h') :
    Journey h₀ (past ++ later) h' := by
  induction hj' with
  | refl => rwa [List.append_nil]
  | snoc _ hp ih =>
    rw [← List.append_assoc]
    exact .snoc ih hp

/-- So many moves of the thread, one right after the other. -/
theorem journey_of_moveOn? {n : Nat} {history : List Happening}
    (hm : h.moveOn? who n = some (history, h')) :
    ∃ trace, Journey h trace h' ∧
      ∀ o ∈ trace, o.mover = some who ∧ o.before.move? who = some o.after := by
  induction n generalizing h history with
  | zero =>
    cases hm
    exact ⟨[], .refl, by simp⟩
  | succ n ih =>
    obtain ⟨h₁, hmove, hrest⟩ := Option.bind_eq_some_iff.mp hm
    obtain ⟨⟨later, h₂⟩, hlater, heq⟩ := Option.map_eq_some_iff.mp hrest
    cases heq
    obtain ⟨trace, hj, htrace⟩ := ih hlater
    refine ⟨_, (Journey.refl.snoc (.step (.moves hmove))).trans hj, ?_⟩
    rw [List.nil_append, List.forall_mem_append, List.forall_mem_singleton]
    exact ⟨⟨rfl, hmove⟩, htrace⟩

end

end Host

end ComputerHost
