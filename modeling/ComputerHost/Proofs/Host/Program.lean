import ComputerHost.Proofs.Host.Scene

/-!
# What a step of a thread shows

A program that has control asks its computer for something, or for nothing (`Attends`). Then it goes on, or
the loop that runs it is left, in one of three ways (`Exit`). `Advances` is all that a step of a thread may
come to while its program runs. At the other stages few steps change what is to be seen; `Displays` tells them
apart from the silent ones.

Results:
1. `advances_of_step`: the steps of a thread whose program runs.
2. `displays_of_step`: all steps of a thread.
-/

namespace ComputerHost

/-- A way out of the loop that runs a program. -/
inductive Exit where
  | finished
  | raised (e : ScriptError)
  /-- The loop has seen that something was asked of the computer. -/
  | interrupted

/-- Does a step from this stage leave the scene as it is, but for the stage? -/
def Stage.isSilent : Stage → Bool
  | .booting (.resetTerminal :: _) _ | .ended (.failed _) | .ended (.panicked _)
  | .tearingDown (.retire :: _) | .tearingDown (.releaseTerminal :: _) => false
  | stage => !stage.isInProgram

namespace Host

/-- The host after the loop of `who` was left. -/
def exit (h : Host) (who : Handle) (session : Session) (how : Exit) : Host :=
  match how with
  | .finished => (h.programFinished who).setStage who (.leaving (some session) .ordinary)
  | .raised e => (h.programFailed who e).setStage who (.leaving (some session) .ordinary)
  | .interrupted => h.setStage who (.leaving (some session) .ordinary)

/-- The hosts differ in what is noted and logged, and in what devices know. -/
structure Unseen (h h' : Host) : Prop where
  setup : h'.setup = h.setup
  computers : h'.computers = h.computers
  threads : h'.threads = h.threads
  terminals : h'.terminals = h.terminals
  tasks : h'.tasks = h.tasks

/-- What a program of `who` does in one move before it leads anywhere: it asks its computer for something,
or for nothing. -/
inductive Attends (who : Handle) (h : Host) : Host → Prop
  | quietly {h' : Host} : Unseen h h' → Attends who h h'
  | asks {h₁ h' : Host} (request : Script.Request) : Unseen h h₁ →
      Unseen (h₁.serve who request).2 h' → Attends who h h'

/-- What a step of a thread comes to while its program runs: the loop is left, or the thread goes on at some
stage, or it stays where it is. -/
inductive Advances (who : Handle) (h : Host) : Host → Prop
  | exits {h₁ : Host} (session : Session) (how : Exit) : Attends who h h₁ → YieldsTo h h₁ →
      Advances who h (h₁.exit who session how)
  | goesOn {h₁ : Host} (stage : Stage) : YieldsTo h h₁ →
      (∀ session, stage ≠ .leaving session .ordinary) → Advances who h (h₁.setStage who stage)
  | stays {h' : Host} : h'.scene = h.scene → Advances who h h'

/-- What a step of a thread comes to, from its stage on. -/
inductive Displays (who : Handle) (h : Host) : Stage → Host → Prop
  | program {stage : Stage} {h' : Host} : stage.isInProgram = true → Advances who h h' →
      Displays who h stage h'
  | resets {todo : List BootStep} {session : Option Session} :
      Displays who h (.booting (.resetTerminal :: todo) session)
        ((h.bootStep who session .resetTerminal).2.setStage who (.booting todo session))
  | fails {e : BootError} : Displays who h (.ended (.failed e)) (h.judge who (.failed e))
  | panics {message : String} : Displays who h (.ended (.panicked message)) (h.judge who (.panicked message))
  | retires {todo : List TeardownStep} : Displays who h (.tearingDown (.retire :: todo))
      ((h.teardownStep who .retire).setStage who (.tearingDown todo))
  | releases {todo : List TeardownStep} : Displays who h (.tearingDown (.releaseTerminal :: todo))
      ((h.teardownStep who .releaseTerminal).setStage who (.tearingDown todo))
  | silent {stage : Stage} {h₁ : Host} (stage' : Stage) : stage.isSilent = true → h₁.scene = h.scene →
      Displays who h stage (h₁.setStage who stage')

section
variable {who : Handle} {h h' h₁ h₂ : Host} {stage : Stage}

/-! ## 1. Programs -/

theorem Unseen.refl (h : Host) : Unseen h h := ⟨rfl, rfl, rfl, rfl, rfl⟩

theorem Unseen.trans (hu : Unseen h h₁) (hu' : Unseen h₁ h₂) : Unseen h h₂ :=
  ⟨hu'.setup.trans hu.setup, hu'.computers.trans hu.computers, hu'.threads.trans hu.threads,
    hu'.terminals.trans hu.terminals, hu'.tasks.trans hu.tasks⟩

theorem unseen_log (h : Host) (id : UInt32) (lines : List String) : Unseen h (h.log id lines) := by
  rw [log_eq]
  exact ⟨rfl, rfl, rfl, rfl, rfl⟩

theorem unseen_takePermit? {device : String} (hp : h.takePermit? device = some h₁) :
    Unseen h h₁ := by
  unfold takePermit? at hp
  split at hp
  · split at hp
    · cases hp
    · rw [← Option.some.inj hp]
      exact ⟨rfl, rfl, rfl, rfl, rfl⟩
  · cases hp

theorem Unseen.computer? (hu : Unseen h h₁) (who : Handle) : h₁.computer? who = h.computer? who := by
  unfold Host.computer?
  rw [hu.computers]

theorem advances_afterTurn (ha : Attends who h h₁) (hy : YieldsTo h h₁) (session : Session)
    (program : Script.Program) (warned : Bool) (turn : Script.Turn) :
    Advances who h (h₁.afterTurn who session program warned turn) := by
  cases turn with
  | next | ask | suspend | panic => exact .goesOn _ hy nofun
  | finish => exact .exits session .finished ha hy
  | fail e => exact .exits session (.raised e) ha hy

theorem advances_afterLine (hu : Unseen h h₁) (hs : h₁.scene = h.scene) (session : Session)
    (warned : Bool) (line : List String × Script.Turn × Script.Program) :
    Advances who h (h₁.afterLine who session warned line) := by
  obtain ⟨lines, turn, program⟩ := line
  have hlog : Unseen h (h₁.log who.id lines) := hu.trans (unseen_log ..)
  have hsame : (h₁.log who.id lines).scene = h.scene := (scene_log ..).trans hs
  cases turn with
  | ask request =>
    have hserve : YieldsTo h ((h₁.log who.id lines).serve who request).2 :=
      .of_same hsame (yieldsTo_serve ..)
    unfold afterLine
    dsimp only
    split
    · next reply h₂ hr =>
      rw [hr] at hserve
      refine advances_afterTurn (.asks request hlog ?_) (hserve.trans_same (scene_log ..)) ..
      rw [hr]
      exact unseen_log h₂ who.id (request.resolve reply).1
    · next device h₂ hr =>
      rw [hr] at hserve
      exact .goesOn _ hserve nofun
  | next => exact advances_afterTurn (.quietly hlog) (.same hsame) session program warned .next
  | suspend values =>
    exact advances_afterTurn (.quietly hlog) (.same hsame) session program warned (.suspend values)
  | finish => exact advances_afterTurn (.quietly hlog) (.same hsame) session program warned .finish
  | fail e => exact advances_afterTurn (.quietly hlog) (.same hsame) session program warned (.fail e)
  | panic message =>
    exact advances_afterTurn (.quietly hlog) (.same hsame) session program warned (.panic message)

theorem advances_resume (h : Host) (who : Handle) (session : Session) (args : List Value)
    (warned : Bool) : Advances who h (h.resume who session args warned) := by
  have hcall : Unseen h (h.noteCall who session (.resume args.length)) := ⟨rfl, rfl, rfl, rfl, rfl⟩
  unfold resume
  dsimp only
  split
  · next e _ => exact .exits _ (.raised e) (.quietly hcall) (.same rfl)
  · split
    · next e _ => exact .exits _ (.raised e) (.quietly hcall) (.same rfl)
    · exact advances_afterLine hcall rfl ..

theorem advances_of_acts {warned : Bool} (hu : Unseen h h₁) (hs : h₁.scene = h.scene)
    (ha : Acts who warned h₁ h') : Advances who h h' := by
  cases ha with
  | turns session program turn => exact advances_afterTurn (.quietly hu) (.same hs) ..
  | @asks request reply h₂ session program turn hr =>
    have hserve := yieldsTo_serve h₁ who request
    rw [hr] at hserve
    refine advances_afterTurn (.asks request hu ?_) (.of_same hs hserve) ..
    rw [hr]
    exact .refl h₂
  | @isHeld request device h₂ session program hr =>
    have hserve := yieldsTo_serve h₁ who request
    rw [hr] at hserve
    exact .goesOn _ (.of_same hs hserve) nofun

theorem advances_timeOut (h : Host) (who : Handle) (session : Session) (warned : Bool) :
    Advances who h (h.timeOut who session warned) := by
  unfold timeOut
  split
  · exact .goesOn _ (.same (scene_shutdown h who)) nofun
  · exact .goesOn _ (.same rfl) nofun

theorem advances_of_moves (hm : Moves who h stage h') (hin : stage.isInProgram = true) :
    Advances who h h' := by
  have htake (rest : List Event) : (h.setQueue who rest).scene = h.scene :=
    scene_modify (fun _ => by exact ⟨rfl, rfl⟩) h who
  cases hm with
  | resumes => exact advances_resume ..
  | executes => exact advances_afterLine (.refl h) rfl ..
  | letGo hp =>
    exact advances_afterTurn (.quietly ((unseen_takePermit? hp).trans (unseen_log ..)))
      (.same ((scene_log ..).trans (scene_takePermit? hp))) ..
  | suspends => exact .goesOn _ (.same rfl) nofun
  | takes => exact .goesOn _ (.same (htake _)) nofun
  | drops => exact .stays (htake _)
  | timesOut => exact advances_timeOut ..
  | declines | quits | interrupted => exact .exits _ .interrupted (.quietly (.refl h)) (.same rfl)
  | _ => cases hin

/-- What any step of a thread comes to while its program runs. -/
theorem advances_of_step (hstep : Step h (some who) h') (hs : h.stage? who = some stage)
    (hin : stage.isInProgram = true) : Advances who h h' := by
  cases hstep with
  | enters _ _ ha => exact advances_of_acts (.refl h) rfl ha
  | executes _ ha => exact advances_of_acts (.refl h) rfl ha
  | letGo _ hp ha => exact advances_of_acts (unseen_takePermit? hp) (scene_takePermit? hp) ha
  | expires => exact advances_timeOut ..
  | moves hm => exact advances_of_moves (moves_of_move? hs hm) hin

/-! ## 2. All steps -/

/-- Of what a boot does only the reset of the terminal is seen. -/
theorem isSilent_booting {step : BootStep} (hreset : step ≠ .resetTerminal) (todo : List BootStep)
    (session : Option Session) : (Stage.booting (step :: todo) session).isSilent = true := by
  cases step <;> first | rfl | exact absurd rfl hreset

theorem displays_of_bootStep {step : BootStep} {session session' : Option Session}
    {todo : List BootStep} (hb : h.bootStep who session step = (.ok session', h₁)) :
    Displays who h (.booting (step :: todo) session) (h₁.setStage who (.booting todo session')) := by
  by_cases hreset : step = .resetTerminal
  · subst hreset
    have hok := bootStep_resetTerminal h who session
    rw [hb] at hok
    cases hok
    have hshows : Displays who h (.booting (.resetTerminal :: todo) session)
        ((h.bootStep who session .resetTerminal).2.setStage who (.booting todo session)) := .resets
    rwa [hb] at hshows
  · have hscene := scene_bootStep hreset h who session
    rw [hb] at hscene
    exact .silent _ (isSilent_booting hreset ..) hscene

theorem displays_of_bootStep_error {step : BootStep} {session : Option Session} {e : BootError}
    (hb : h.bootStep who session step = (.error e, h₁)) (todo : List BootStep) :
    Displays who h (.booting (step :: todo) session)
      (h₁.setStage who (.leaving session (.failed e))) := by
  have hreset : step ≠ .resetTerminal := by
    rintro rfl
    have hok := bootStep_resetTerminal h who session
    rw [hb] at hok
    cases hok
  have hscene := scene_bootStep hreset h who session
  rw [hb] at hscene
  exact .silent _ (isSilent_booting hreset ..) hscene

theorem displays_of_tearingDown (step : TeardownStep) (todo : List TeardownStep) :
    Displays who h (.tearingDown (step :: todo))
      ((h.teardownStep who step).setStage who (.tearingDown todo)) := by
  by_cases hretire : step = .retire
  · exact hretire ▸ .retires
  by_cases hrelease : step = .releaseTerminal
  · exact hrelease ▸ .releases
  refine .silent _ ?_ (scene_teardownStep hretire hrelease h who)
  cases step <;> first | rfl | contradiction

theorem scene_beginBoot (h : Host) (who : Handle) :
    ∃ (h₁ : Host) (stage : Stage), h₁.scene = h.scene ∧ h.beginBoot who = h₁.setStage who stage := by
  have hbegin : (h.update who Computer.beginBoot false).2.scene = h.scene := by
    refine scene_update (fun c => ?_) h who false
    rw [Computer.beginBoot_frame]
    exact ⟨rfl, rfl⟩
  obtain ⟨c, hc, -, heq⟩ | ⟨-, heq⟩ := beginBoot_cases h who <;> rw [heq]
  · rw [update_of_computer? hc] at hbegin
    exact ⟨_, _, (scene_setPhase ..).trans hbegin, rfl⟩
  · exact ⟨_, _, hbegin, rfl⟩

theorem scene_judge (h : Host) (who : Handle) :
    ∃ (h₁ : Host) (stage : Stage), h₁.scene = h.scene ∧ h.judge who .ordinary = h₁.setStage who stage := by
  unfold judge
  dsimp only
  split
  · exact ⟨_, _, scene_setPhase h who .rebooting, rfl⟩
  · exact ⟨_, _, rfl, rfl⟩

/-- A boot that has failed is told about; the rest is as at any end. -/
theorem scene_judge_failed (h : Host) (who : Handle) (e : BootError) :
    ∃ (h₁ : Host) (stage : Stage), h₁.scene = (h.reportBootFailure who e).scene ∧
      h.judge who (.failed e) = h₁.setStage who stage := by
  obtain ⟨h₁, stage, hsame, heq⟩ :=
    scene_judge ((h.reportBootFailure who e).modify who Computer.shutdown) who
  exact ⟨h₁, stage, hsame.trans (scene_shutdown ..), heq⟩

/-- A panic is told about, and the teardown begins. -/
theorem scene_judge_panicked (h : Host) (who : Handle) (message : String) :
    ∃ h₁ : Host, h₁.scene = (h.showDialog ((h.terminalOf? who).map (·.1)) "Uncaught Exception"
        (panicMessage message)).scene ∧
      h.judge who (.panicked message) = h₁.setStage who (.tearingDown teardownPlan) :=
  ⟨_, (scene_closeConnections ..).trans (scene_shutdown ..), rfl⟩

theorem displays_of_moves (hm : Moves who h stage h') : Displays who h stage h' := by
  by_cases hin : stage.isInProgram = true
  · exact .program hin (advances_of_moves hm hin)
  cases hm with
  | boots =>
    obtain ⟨h₁, stage', hscene, heq⟩ := scene_beginBoot h who
    rw [heq]
    exact .silent stage' rfl hscene
  | lacksState | enters | isDone => exact .silent _ rfl rfl
  | prepares hb => exact displays_of_bootStep hb
  | bootFails hb => exact displays_of_bootStep_error hb _
  | leaves => exact .silent _ rfl (scene_leave h who _)
  | @judges ending =>
    cases ending with
    | ordinary =>
      obtain ⟨h₁, stage', hscene, heq⟩ := scene_judge h who
      rw [heq]
      exact .silent stage' rfl hscene
    | failed e => exact .fails
    | panicked message => exact .panics
  | windsUp =>
    refine .silent _ rfl (scene_modify (fun c => ?_) h who)
    rw [Computer.finish_frame]
    exact ⟨rfl, rfl⟩
  | tearsDown => exact displays_of_tearingDown ..
  | _ => exact absurd rfl hin

/-- What any step of a thread comes to. -/
theorem displays_of_step (hstep : Step h (some who) h') (hs : h.stage? who = some stage) :
    Displays who h stage h' := by
  by_cases hin : stage.isInProgram = true
  · exact .program hin (advances_of_step hstep hs hin)
  · exact displays_of_moves (moves_of_step hstep hs (Bool.eq_false_iff.mpr hin))

end

end Host

end ComputerHost
