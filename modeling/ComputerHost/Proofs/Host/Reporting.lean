import ComputerHost.Proofs.Host.TerminalFate
import ComputerHost.Proofs.Host.TornDown

/-!
# What people are told about a computer

The thread of a computer tells people when the run ends badly: when its program raises an error while
nothing was asked of the computer, when a boot fails, and when there is a panic. Each of these stops the
computer for good, so it happens once at most. Under strict compatibility a terminal shows the first two
instead. Messages about computers that cannot be constructed are about somebody else; a program that turns
a link on may cause them.

Results:
1. `posts_of_yieldsTo`, `Announces.reports`: what single changes queue.
2. `utters_of_step`: what a step of a thread tells people.
3. `Untroubled.step`, `Troubled.step`, `Journey.untroubled`: before and after the run has ended badly.
4. `terminal_of_queued`, `Journey.addressed`: whose terminal a message is for.
5. `plain_of_passes`: terminals without strict compatibility.
6. `reported_exactly_once`: all of it, along any journey.
-/

namespace ComputerHost

/-- Is this what people are told when a computer cannot be constructed? -/
def Dialog.isOpenFailure (d : Dialog) : Bool := d.title == "Failed to open computer"

/-- Stages after the last boot of a computer whose thread has told all that there is to tell. -/
def Stage.IsOver : Stage → Prop
  | .leaving _ .ordinary | .ended .ordinary | .stopping | .tearingDown _ | .gone => True
  | _ => False

namespace Host

/-- The messages that are queued at a moment. -/
def Moment.queued (o : Moment) : List Dialog :=
  (o.after.tasks.waiting.drop o.before.tasks.waiting.length).map Task.work

/-- What the thread of a computer has told people about it. -/
def reportsOf (who : Handle) (trace : List Moment) : List Dialog :=
  (trace.filter fun o => o.mover == some who).flatMap fun o =>
    o.queued.filter fun d => !d.isOpenFailure

/-- The program of a computer raises an error while nothing is asked of the computer. -/
def Moment.Raises (who : Handle) (o : Moment) : Prop :=
  o.mover = some who ∧ (∃ stage, o.before.stage? who = some stage ∧ stage.isInProgram = true) ∧
    ∃ h₁ session e, Attends who o.before h₁ ∧ h₁.isRunning who = true ∧
      o.after = h₁.exit who session (.raised e)

/-- The thread of a computer sees that a boot has ended so. -/
def Moment.Judges (who : Handle) (ending : Ending) (o : Moment) : Prop :=
  o.mover = some who ∧ o.before.stage? who = some (.ended ending)

/-- The run ends with an error of the program, or with a boot that has failed. -/
def Moment.Fails (who : Handle) (o : Moment) : Prop :=
  o.Raises who ∨ ∃ e, o.Judges who (.failed e)

def Moment.Panics (who : Handle) (o : Moment) : Prop := ∃ message, o.Judges who (.panicked message)

/-- These messages are queued, and no others. -/
def Posts (h : Host) (ds : List Dialog) (h' : Host) : Prop :=
  h'.tasks.waiting = h.tasks.waiting ++ ds.map Task.leaf

/-- A failure is shown on the terminal, or people are told about it. -/
inductive Reports (who : Handle) (h : Host) : Host → Prop
  | shows {n : Nat} {t : Terminal} {message : String} : h.terminalOf? who = some (n, t) →
      h.config.standardsMode = true → Reports who h (h.showFatal who n message)
  | tells {d : Dialog} : d.terminal = h.terminalNumber? who → d.isOpenFailure = false →
      h.config.standardsMode = false ∨ h.terminalNumber? who = none →
      Reports who h (h.showDialog d.terminal d.title d.message)

/-- Messages about computers that cannot be constructed. -/
def AboutOthers (ds : List Dialog) : Prop := ∀ d ∈ ds, d.terminal = none ∧ d.isOpenFailure = true

/-- There will be no further boot, and nothing is left to tell. -/
structure Stops (who : Handle) (h : Host) : Prop where
  stage : ∃ stage, h.stage? who = some stage ∧ stage.IsOver
  stopped : h.runState? who = some .stopped

/-- What a step of the thread of a computer tells people. -/
inductive Utters (who : Handle) (h h' : Host) : Prop
  | quietly {ds : List Dialog} : ¬Moment.Fails who ⟨h, some who, h'⟩ →
      ¬Moment.Panics who ⟨h, some who, h'⟩ → Posts h ds h' → AboutOthers ds → Utters who h h'
  | panics {d : Dialog} : Moment.Panics who ⟨h, some who, h'⟩ → ¬Moment.Fails who ⟨h, some who, h'⟩ →
      Stops who h' → Posts h [d] h' → d.terminal = h.terminalNumber? who → d.isOpenFailure = false →
      Utters who h h'
  | tells {ds : List Dialog} {d : Dialog} : Moment.Fails who ⟨h, some who, h'⟩ →
      ¬Moment.Panics who ⟨h, some who, h'⟩ → Stops who h' → Posts h (ds ++ [d]) h' → AboutOthers ds →
      d.terminal = h.terminalNumber? who → d.isOpenFailure = false →
      h.config.standardsMode = false ∨ h.terminalNumber? who = none → Utters who h h'
  | shows {ds : List Dialog} : Moment.Fails who ⟨h, some who, h'⟩ →
      ¬Moment.Panics who ⟨h, some who, h'⟩ → Stops who h' → Posts h ds h' → AboutOthers ds →
      h.config.standardsMode = true → (h.terminalNumber? who).isSome = true →
      h'.inErrorMode who = true → Utters who h h'

/-- No terminal shows a failure. -/
def Plain (h : Host) : Prop := ∀ n, h.showsFailure n = false

/-- Nothing has gone wrong with a computer, and nothing was told about it. -/
structure Untroubled (who : Handle) (trace : List Moment) : Prop where
  silent : reportsOf who trace = []
  calm : ∀ o ∈ trace, ¬o.Fails who ∧ ¬o.Panics who

/-- What has gone wrong with a computer, and how people can see it. -/
inductive Outcome (who : Handle) (trace : List Moment) (h : Host) : Prop
  | panicked {d : Dialog} : reportsOf who trace = [d] → d.terminal = h.terminalNumber? who →
      (∃ o ∈ trace, o.Panics who) → (∀ o ∈ trace, ¬o.Fails who) → Outcome who trace h
  | told {d : Dialog} : reportsOf who trace = [d] → d.terminal = h.terminalNumber? who →
      (∃ o ∈ trace, o.Fails who) → (∀ o ∈ trace, ¬o.Panics who) →
      h.config.standardsMode = false ∨ h.terminalNumber? who = none → Outcome who trace h
  | shown : reportsOf who trace = [] → (∃ o ∈ trace, o.Fails who) → (∀ o ∈ trace, ¬o.Panics who) →
      h.config.standardsMode = true → (h.terminalNumber? who).isSome = true →
      h.inErrorMode who = true → Outcome who trace h

/-- Something has gone wrong with a computer, and it is on its way out. -/
structure Troubled (who : Handle) (trace : List Moment) (h : Host) : Prop extends Stops who h where
  outcome : Outcome who trace h

section
variable {who w : Handle} {h h' h₁ h₂ : Host} {stage stage' : Stage} {mover : Option Handle}
  {trace : List Moment} {ds ds' : List Dialog} {d : Dialog} {o : Moment}

/-! ## 1. Messages -/

theorem Posts.same (ht : h'.tasks = h.tasks) : Posts h [] h' := by
  rw [Posts, ht, List.map_nil, List.append_nil]

theorem Posts.trans (ht : Posts h ds h₁) (ht' : Posts h₁ ds' h') : Posts h (ds ++ ds') h' := by
  rw [Posts, show h'.tasks.waiting = _ from ht', show h₁.tasks.waiting = _ from ht, List.map_append,
    List.append_assoc]

theorem posts_showDialog (h : Host) (terminal : Option Nat) (title message : String) :
    Posts h [⟨terminal, title, message⟩] (h.showDialog terminal title message) :=
  rfl

theorem Posts.queued (ht : Posts h ds h') (mover : Option Handle) :
    Moment.queued ⟨h, mover, h'⟩ = ds := by
  show (h'.tasks.waiting.drop h.tasks.waiting.length).map Task.work = ds
  rw [show h'.tasks.waiting = _ from ht, List.drop_left, List.map_map]
  exact List.map_id ds

theorem posts_of_scene (hs : h'.scene = h.scene) : Posts h [] h' :=
  .same (congrArg Scene.tasks hs)

/-- What people may be told when a link is turned on. -/
theorem posts_of_yieldsTo (hy : YieldsTo h h') :
    ∃ ds, Posts h ds h' ∧ AboutOthers ds := by
  cases hy with
  | same hs => exact ⟨[], posts_of_scene hs, nofun⟩
  | @spawns h₁ id isDebugger hbefore hafter =>
    have hspawn : ∃ ds, Posts h₁ ds (h₁.spawn id isDebugger).2 ∧ AboutOthers ds := by
      rcases hs : h₁.spawn id isDebugger with ⟨e | v, h₂⟩
      · have htasks := (aborts_of_spawn_error (congrArg Prod.fst hs)).2.1
        rw [hs] at htasks
        split at htasks
        · exact ⟨[], .same htasks, nofun⟩
        · refine ⟨[openFailure e], congrArg TaskQueue.waiting htasks, fun d hd => ?_⟩
          rw [List.mem_singleton.mp hd]
          exact ⟨rfl, rfl⟩
      · obtain ⟨terminal, hj⟩ := joins_of_spawn_ok hs
        exact ⟨[], .same hj.tasks, nofun⟩
    obtain ⟨ds, ht, hopen⟩ := hspawn
    refine ⟨ds, ?_, hopen⟩
    have hlast : h'.tasks = (h₁.spawn id isDebugger).2.tasks := congrArg Scene.tasks hafter
    rw [Posts, hlast, show _ = _ from ht, show h₁.tasks = h.tasks from congrArg Scene.tasks hbefore]

theorem posts_of_attends (ha : Attends who h h₁) :
    ∃ ds, Posts h ds h₁ ∧ AboutOthers ds := by
  cases ha with
  | quietly hu => exact ⟨[], .same hu.tasks, nofun⟩
  | @asks h₀ _ request hu hu' =>
    obtain ⟨ds, ht, hopen⟩ := posts_of_yieldsTo (yieldsTo_serve h₀ who request)
    refine ⟨ds, ?_, hopen⟩
    rw [Posts, hu'.tasks, show _ = _ from ht, hu.tasks]

theorem map_terminalOf? (ha : Apart h) : (h.terminalOf? who).map (·.1) = h.terminalNumber? who := by
  cases ht : h.terminalOf? who with
  | none => exact (ha.terminalOf?_eq_none.mp ht).symm
  | some p => exact (terminalOf?_eq_some.mp ht).1.symm

/-- How a failure is reported. -/
theorem Announces.reports (hann : Announces who h h') (ha : Apart h) : Reports who h h' := by
  cases hann with
  | shows ht hstandards => exact .shows ht hstandards
  | @tells title message htitle hwhere =>
    exact .tells (d := ⟨(h.terminalOf? who).map (·.1), title, message⟩) (map_terminalOf? ha) htitle
      (hwhere.imp_right ha.terminalOf?_eq_none.mp)

/-- The end of a program that is not an error, or that was asked for. -/
theorem tasks_exit (session : Session) {how : Exit}
    (hnot : ∀ e, how = .raised e → h.isRunning who = false) :
    (h.exit who session how).tasks = h.tasks := by
  cases how with
  | interrupted => rfl
  | raised e =>
    rw [exit, programFailed_of_asked (hnot e rfl)]
    rfl
  | finished =>
    rw [exit]
    obtain heq | ⟨n, t, -, -, heq⟩ := programFinished_cases h who <;> rw [heq] <;> rfl

/-! ## 2. Steps of a thread -/

theorem Attends.apart (ha : Attends who h h₁) (hapart : Apart h) : Apart h₁ := by
  cases ha with
  | quietly hu => exact hu.apart hapart
  | asks request hu hu' => exact hu'.apart ((works_serve_quietly _ who request).apart (hu.apart hapart))

theorem Attends.terminalNumber? (ha : Attends who h h₁) (hc : (h.computer? who).isSome = true) :
    h₁.terminalNumber? who = h.terminalNumber? who := by
  have hunseen {h h₁ : Host} (hu : Unseen h h₁) :
      h₁.terminalNumber? who = h.terminalNumber? who := by
    rw [Host.terminalNumber?, hu.computer?, Host.terminalNumber?]
  cases ha with
  | quietly hu => exact hunseen hu
  | @asks h₀ _ request hu hu' =>
    have hc₀ : (h₀.computer? who).isSome = true := by rwa [hu.computer?]
    rw [hunseen hu', (works_serve_quietly h₀ who request).terminalNumber? hc₀, hunseen hu]

theorem inErrorMode_showFatal {n : Nat} {t : Terminal} (ht : h.terminalOf? who = some (n, t))
    (message : String) : (h.showFatal who n message).inErrorMode who = true := by
  obtain ⟨hn, ht⟩ := terminalOf?_eq_some.mp ht
  have hshown : (h.showFatal who n message).terminal? n = some (t.showFatal message) :=
    terminal?_onTerminal ht (·.showFatal message)
  have hof : (h.showFatal who n message).terminalOf? who = some (n, t.showFatal message) :=
    terminalOf?_eq_some.mpr ⟨hn, hshown⟩
  rw [inErrorMode_of_terminalOf? hof]
  rfl

/-- A failure that is reported, after messages about others. -/
theorem Reports.utters (hr : Reports who h₁ h₂) (hfails : Moment.Fails who ⟨h, some who, h'⟩)
    (hcalm : ¬Moment.Panics who ⟨h, some who, h'⟩) (hstops : Stops who h') (ht : Posts h ds h₁)
    (hothers : AboutOthers ds) (hnumber : h₁.terminalNumber? who = h.terminalNumber? who)
    (hconfig : h₁.config = h.config) (htasks : h'.tasks = h₂.tasks)
    (hmode : h'.inErrorMode who = h₂.inErrorMode who) : Utters who h h' := by
  cases hr with
  | @shows n t message hof hstandards =>
    refine .shows hfails hcalm hstops ?_ hothers (hconfig ▸ hstandards) ?_ ?_
    · rw [Posts, htasks]
      exact ht
    · rw [← hnumber, (terminalOf?_eq_some.mp hof).1]
      rfl
    · rw [hmode, inErrorMode_showFatal hof]
  | @tells d hterminal hown hwhere =>
    refine .tells hfails hcalm hstops ?_ hothers (hterminal.trans hnumber) hown
      (by rwa [← hconfig, ← hnumber])
    rw [Posts, htasks]
    exact ht.trans (posts_showDialog ..)

theorem runState?_exit_raised (hr : h.isRunning who = true) (session : Session) (e : ScriptError) :
    (h.exit who session (.raised e)).runState? who = some .stopped := by
  have hstop : (h.modify who Computer.shutdown).runState? who = some .stopped := by
    rw [runState?_modify h who (f := Computer.shutdown) (fun _ => rfl) (g := fun _ => .stopped)
      (fun _ => rfl), isRunning_iff.mp hr]
    simp
  obtain ⟨hno, -⟩ | ⟨-, hann⟩ := programFailed_cases h who e
  · cases hr.symm.trans hno
  · show ((h.programFailed who e).computer? who).map (·.runState) = _
    rw [computer?, hann.computers]
    exact hstop

/-- A program that raises an error. -/
theorem utters_of_raises (ht : Threaded h) (hs : h.stage? who = some stage)
    (hs' : h'.stage? who = some stage') (hr : Moment.Raises who ⟨h, some who, h'⟩) : Utters who h h' := by
  obtain ⟨-, ⟨stage₁, hs₁, hin⟩, h₁, session, e, ha, hrunning, heq⟩ := hr
  obtain rfl : h' = h₁.exit who session (.raised e) := heq
  obtain rfl : stage = stage₁ := Option.some.inj (hs.symm.trans hs₁)
  have hapart := ha.apart ht.apart
  have hstop : Works (.all (some who) False False) h₁ (h₁.modify who Computer.shutdown) :=
    works_shutdown trivial h₁
  have hknown : (h₁.computer? who).isSome = true := by
    cases hc : h₁.computer? who with
    | some c => rfl
    | none => simp [isRunning, hc] at hrunning
  have hreport : Reports who (h₁.modify who Computer.shutdown) (h₁.programFailed who e) := by
    obtain ⟨hno, -⟩ | ⟨-, hann⟩ := programFailed_cases h₁ who e
    · cases hrunning.symm.trans hno
    · exact hann.reports (hstop.apart hapart)
  obtain ⟨ds, hposts, hothers⟩ := posts_of_attends ha
  refine hreport.utters (.inl ⟨rfl, ⟨stage, hs, hin⟩, h₁, session, e, ha, hrunning, rfl⟩) ?_
    ⟨⟨stage', hs', ?_⟩, runState?_exit_raised hrunning session e⟩ hposts hothers
    ((hstop.terminalNumber? hknown).trans (ha.terminalNumber? (ht.known hs))) ?_ rfl rfl
  · rintro ⟨message, -, hs₂⟩
    cases hs.symm.trans hs₂
    cases hin
  · rw [stage_of_exit hs']
    trivial
  · show h₁.config = h.config
    rw [Host.config, ha.setup, Host.config]

theorem aboutOthers_nil : AboutOthers [] := fun _ hd => absurd hd List.not_mem_nil

/-- A run ends badly only with an error of the program, or at the end of a boot. -/
theorem stage_of_fails (hs : h.stage? who = some stage) (hf : Moment.Fails who ⟨h, some who, h'⟩) :
    stage.isInProgram = true ∧ Moment.Raises who ⟨h, some who, h'⟩ ∨ ∃ e, stage = .ended (.failed e) := by
  rcases hf with hr | ⟨e, -, hs₁⟩
  · obtain ⟨stage₁, hs₁, hin⟩ := hr.2.1
    cases hs.symm.trans hs₁
    exact .inl ⟨hin, hr⟩
  · exact .inr ⟨e, Option.some.inj (hs.symm.trans hs₁)⟩

/-- Steps at which nothing goes wrong. -/
theorem utters_quietly (hs : h.stage? who = some stage)
    (hprogram : stage.isInProgram = false ∨ ¬Moment.Raises who ⟨h, some who, h'⟩)
    (hended : ∀ ending, stage = .ended ending → ending = .ordinary) (hposts : Posts h ds h')
    (hothers : AboutOthers ds) : Utters who h h' := by
  refine .quietly (fun hf => ?_) (fun ⟨message, _, hs₁⟩ => ?_) hposts hothers
  · rcases stage_of_fails hs hf with ⟨hin, hr⟩ | ⟨e, heq⟩
    · rcases hprogram with hno | hno
      · cases hin.symm.trans hno
      · exact hno hr
    · cases hended _ heq
  · cases hended _ (Option.some.inj (hs.symm.trans hs₁))

/-- What a program does without raising an error. -/
theorem utters_of_advances (hs : h.stage? who = some stage) (hin : stage.isInProgram = true)
    (hno : ¬Moment.Raises who ⟨h, some who, h'⟩) (ha : Advances who h h') : Utters who h h' := by
  have hended (ending : Ending) (heq : stage = .ended ending) : ending = .ordinary := by
    subst heq
    cases hin
  cases ha with
  | @exits h₁ session how ha hy =>
    obtain ⟨ds, hposts, hothers⟩ := posts_of_yieldsTo hy
    have hasked (e : ScriptError) (heq : how = .raised e) : h₁.isRunning who = false := by
      subst heq
      exact Bool.eq_false_iff.mpr fun hrunning =>
        hno ⟨rfl, ⟨stage, hs, hin⟩, h₁, session, e, ha, hrunning, rfl⟩
    refine utters_quietly hs (.inr hno) hended ?_ hothers
    rw [Posts, tasks_exit session hasked]
    exact hposts
  | goesOn _ hy =>
    obtain ⟨ds, hposts, hothers⟩ := posts_of_yieldsTo hy
    exact utters_quietly hs (.inr hno) hended hposts hothers
  | stays hsame => exact utters_quietly hs (.inr hno) hended (posts_of_scene hsame) aboutOthers_nil

/-- A boot has failed. -/
theorem utters_of_failed {e : BootError} (ht : Threaded h) (hs : h.stage? who = some (.ended (.failed e)))
    (hstops : Stops who (h.judge who (.failed e))) : Utters who h (h.judge who (.failed e)) := by
  obtain ⟨h₂, stage₂, hsame, heq⟩ := scene_judge_failed h who e
  refine ((announces_reportBootFailure h who e).reports ht.apart).utters (.inr ⟨e, rfl, hs⟩)
    (fun ⟨message, _, hs₁⟩ => ?_) hstops (.same rfl) aboutOthers_nil rfl rfl ?_ ?_
  · cases hs.symm.trans hs₁
  · rw [heq]
    exact congrArg Scene.tasks hsame
  · rw [heq]
    exact inErrorMode_of_face? (face?_of_scene hsame who)

theorem utters_of_panicked {message : String} (ht : Threaded h)
    (hs : h.stage? who = some (.ended (.panicked message)))
    (hstops : Stops who (h.judge who (.panicked message))) :
    Utters who h (h.judge who (.panicked message)) := by
  obtain ⟨h₂, hsame, heq⟩ := scene_judge_panicked h who message
  refine .panics (d := ⟨(h.terminalOf? who).map (·.1), "Uncaught Exception", panicMessage message⟩)
    ⟨message, rfl, hs⟩ (fun hf => ?_) hstops ?_ ?_ rfl
  · rcases stage_of_fails hs hf with ⟨hin, -⟩ | ⟨e, heq⟩
    · cases hin
    · cases heq
  · rw [heq, Posts, show (h₂.setStage who _).tasks = _ from congrArg Scene.tasks hsame]
    rfl
  · exact map_terminalOf? ht.apart

theorem tasks_releaseTerminal (h : Host) (who : Handle) : (h.releaseTerminal who).tasks = h.tasks := by
  obtain ⟨-, heq⟩ | ⟨n, t, -, ⟨-, heq⟩ | ⟨-, heq⟩⟩ := releaseTerminal_cases h who <;> rw [heq]
  rfl

/-- Whatever a thread does next. -/
theorem utters_of_step (ht : Threaded h) (hstep : Step h (some who) h') : Utters who h h' := by
  obtain ⟨changes, stage, stage', hs, hl, hcomes, hs'⟩ := makes_of_step hstep
  have hknown := ht.known hs
  cases displays_of_step hstep hs with
  | program hin hadv =>
    by_cases hr : Moment.Raises who ⟨h, some who, h'⟩
    · exact utters_of_raises ht hs hs' hr
    · exact utters_of_advances hs hin hr hadv
  | @silent stage h₁ stage'' hsilent hsame =>
    have htasks : h₁.tasks = h.tasks := congrArg Scene.tasks hsame
    refine utters_quietly hs (.inl ?_) (fun ending heq => ?_) (.same htasks) aboutOthers_nil
    · cases stage with
      | resuming | executing | held | suspended | waiting => cases hsilent
      | _ => rfl
    · subst heq
      cases ending with
      | ordinary => rfl
      | failed | panicked => cases hsilent
  | resets =>
    refine utters_quietly hs (.inl rfl) nofun (.same ?_) aboutOthers_nil
    obtain ⟨-, heq⟩ | ⟨n, t, -, heq⟩ := resetTerminal_cases h who _ <;> rw [heq] <;> rfl
  | retires => exact utters_quietly hs (.inl rfl) nofun (.same rfl) aboutOthers_nil
  | releases =>
    exact utters_quietly hs (.inl rfl) nofun (.same (tasks_releaseTerminal h who)) aboutOthers_nil
  | fails =>
    cases hl with
    | runs hin => cases hin
    | failed =>
      exact utters_of_failed ht hs
        ⟨⟨_, hs', trivial⟩, stopped_of_shutdown hcomes hknown List.mem_cons_self⟩
  | panics =>
    cases hl with
    | runs hin => cases hin
    | panicked =>
      exact utters_of_panicked ht hs
        ⟨⟨_, hs', trivial⟩, stopped_of_shutdown hcomes hknown List.mem_cons_self⟩

/-! ## 3. A whole run -/

theorem reportsOf_snoc (who : Handle) (trace : List Moment) (o : Moment) :
    reportsOf who (trace ++ [o]) = reportsOf who trace ++
      if o.mover = some who then o.queued.filter fun d => !d.isOpenFailure else [] := by
  unfold reportsOf
  rw [List.filter_append, List.flatMap_append]
  by_cases hown : o.mover = some who <;> simp [hown]

/-- What others do is not told about the computer. -/
theorem reportsOf_others (hne : mover ≠ some who) :
    reportsOf who (trace ++ [⟨h, mover, h'⟩]) = reportsOf who trace := by
  rw [reportsOf_snoc, if_neg hne, List.append_nil]

theorem reportsOf_own (ht : Posts h ds h') :
    reportsOf who (trace ++ [⟨h, some who, h'⟩]) =
      reportsOf who trace ++ ds.filter fun d => !d.isOpenFailure := by
  rw [reportsOf_snoc, if_pos rfl, ht.queued]

theorem AboutOthers.filter (hothers : AboutOthers ds) : ds.filter (fun d => !d.isOpenFailure) = [] := by
  rw [List.filter_eq_nil_iff]
  intro d hd
  simp [(hothers d hd).2]

theorem AboutOthers.filter_concat (hothers : AboutOthers ds) (hown : d.isOpenFailure = false) :
    (ds ++ [d]).filter (fun d => !d.isOpenFailure) = [d] := by
  rw [List.filter_append, hothers.filter, List.nil_append, List.filter_singleton, hown]
  rfl

theorem forall_snoc {P : Moment → Prop} (hall : ∀ o ∈ trace, P o) (ho : P o) :
    ∀ o' ∈ trace ++ [o], P o' := by
  rw [List.forall_mem_append, List.forall_mem_singleton]
  exact ⟨hall, ho⟩

/-- A computer that nothing has gone wrong with, after a step of its own thread. -/
theorem Untroubled.step (hu : Untroubled who trace) (ht : Threaded h) (hstep : Step h (some who) h') :
    Untroubled who (trace ++ [⟨h, some who, h'⟩]) ∨ Troubled who (trace ++ [⟨h, some who, h'⟩]) h' := by
  obtain ⟨changes, stage, stage', hs, -⟩ := makes_of_step hstep
  have hworks : Works (.all (some who) True True) h h' := works_of_step (.inl trivial) hstep
  have hnumber : h'.terminalNumber? who = h.terminalNumber? who := hworks.terminalNumber? (ht.known hs)
  have hconfig : h'.config = h.config := by
    rw [Host.config, setup_of_journey (Journey.refl.snoc (.step hstep)), Host.config]
  have hlast : (⟨h, some who, h'⟩ : Moment) ∈ trace ++ [⟨h, some who, h'⟩] := by simp
  have hcalm := fun o ho => (hu.calm o ho).1
  have hsafe := fun o ho => (hu.calm o ho).2
  cases utters_of_step ht hstep with
  | quietly hfails hpanics hposts hothers =>
    refine .inl ⟨?_, forall_snoc hu.calm ⟨hfails, hpanics⟩⟩
    rw [reportsOf_own hposts, hu.silent, hothers.filter, List.append_nil]
  | @panics d hpanics hfails hstops hposts hterminal hown =>
    refine .inr ⟨hstops, .panicked (d := d) ?_ (hterminal.trans hnumber.symm) ⟨_, hlast, hpanics⟩
      (forall_snoc hcalm hfails)⟩
    rw [reportsOf_own hposts, hu.silent, List.nil_append, List.filter_singleton, hown]
    rfl
  | @tells ds d hfails hpanics hstops hposts hothers hterminal hown hwhere =>
    refine .inr ⟨hstops, .told (d := d) ?_ (hterminal.trans hnumber.symm) ⟨_, hlast, hfails⟩
      (forall_snoc hsafe hpanics) (by rwa [hnumber, hconfig])⟩
    rw [reportsOf_own hposts, hu.silent, List.nil_append, hothers.filter_concat hown]
  | shows hfails hpanics hstops hposts hothers hstandards hsome hmode =>
    refine .inr ⟨hstops, .shown ?_ ⟨_, hlast, hfails⟩ (forall_snoc hsafe hpanics) (by rwa [hconfig])
      (by rwa [hnumber]) hmode⟩
    rw [reportsOf_own hposts, hu.silent, List.nil_append, hothers.filter]

theorem not_fails_of_others (hne : mover ≠ some who) :
    ¬Moment.Fails who ⟨h, mover, h'⟩ ∧ ¬Moment.Panics who ⟨h, mover, h'⟩ := by
  refine ⟨?_, fun ⟨_, hown, _⟩ => hne hown⟩
  rintro (⟨hown, -⟩ | ⟨_, hown, -⟩) <;> exact hne hown

/-- What has been told stays so as long as nothing else is. -/
theorem Outcome.snoc (ho : Outcome who trace h)
    (hreports : reportsOf who (trace ++ [o]) = reportsOf who trace)
    (hno : ¬o.Fails who ∧ ¬o.Panics who) (hnumber : h'.terminalNumber? who = h.terminalNumber? who)
    (hconfig : h'.config = h.config) (hmode : h.inErrorMode who = true → h'.inErrorMode who = true) :
    Outcome who (trace ++ [o]) h' := by
  have hkeep {P : Moment → Prop} : (∃ o ∈ trace, P o) → ∃ o' ∈ trace ++ [o], P o' :=
    fun ⟨o', ho', hp⟩ => ⟨o', List.mem_append_left _ ho', hp⟩
  cases ho with
  | panicked htold hterminal hpanics hfails =>
    exact .panicked (hreports.trans htold) (hterminal.trans hnumber.symm) (hkeep hpanics)
      (forall_snoc hfails hno.1)
  | told htold hterminal hfails hpanics hwhere =>
    exact .told (hreports.trans htold) (hterminal.trans hnumber.symm) (hkeep hfails)
      (forall_snoc hpanics hno.2) (by rwa [hnumber, hconfig])
  | shown htold hfails hpanics hstandards hsome hshown =>
    exact .shown (hreports.trans htold) (hkeep hfails) (forall_snoc hpanics hno.2) (by rwa [hconfig])
      (by rwa [hnumber]) (hmode hshown)

theorem isOver_of_leads {changes : List Change} (hl : Leads who h stage changes stage')
    (hover : stage.IsOver) (hr : h.runState? who = some .stopped) : stage'.IsOver := by
  cases hl with
  | goesOn hrebooting => cases hr.symm.trans hrebooting
  | runs hin => cases hin <;> cases hover
  | @leaves _ ending | @leavesNothing ending =>
    cases ending with
    | ordinary => trivial
    | failed | panicked => cases hover
  | isOver | windsUp | tearsDown | isDone => trivial
  | _ => cases hover

/-- A terminal that shows a failure is kept, and goes on to show it. -/
theorem inErrorMode_of_over (hs : h.stage? who = some stage) (hover : stage.IsOver)
    (hstep : Step h (some who) h') (hmode : h.inErrorMode who = true) : h'.inErrorMode who = true := by
  cases displays_of_step hstep hs with
  | program hin =>
    cases stage with
    | resuming | executing | held | suspended | waiting => cases hover
    | _ => cases hin
  | resets | fails | panics => cases hover
  | silent _ _ hsame => exact (inErrorMode_of_face? (face?_of_scene hsame who)).trans hmode
  | retires => exact hmode
  | releases =>
    show (h.releaseTerminal who).inErrorMode who = true
    obtain ⟨-, heq⟩ | ⟨n, t, hof, ⟨-, heq⟩ | ⟨hcalm, -⟩⟩ := releaseTerminal_cases h who
    · rwa [heq]
    · rw [heq]
      exact hmode
    · cases hcalm.symm.trans ((inErrorMode_of_terminalOf? hof).symm.trans hmode)

/-- A computer that something has gone wrong with, after a step of its own thread. -/
theorem Troubled.step (hr : Troubled who trace h) (ht : Threaded h) (hstep : Step h (some who) h') :
    Troubled who (trace ++ [⟨h, some who, h'⟩]) h' := by
  obtain ⟨changes, stage, stage', hs, hl, hcomes, hs'⟩ := makes_of_step hstep
  obtain ⟨stage₁, hs₁, hover⟩ := hr.stage
  obtain rfl := Option.some.inj (hs.symm.trans hs₁)
  have hworks : Works (.all (some who) True True) h h' := works_of_step (.inl trivial) hstep
  have hconfig : h'.config = h.config := by
    rw [Host.config, setup_of_journey (Journey.refl.snoc (.step hstep)), Host.config]
  have hno : ¬Moment.Fails who ⟨h, some who, h'⟩ ∧ ¬Moment.Panics who ⟨h, some who, h'⟩ := by
    constructor
    · rintro (⟨-, ⟨stage₂, hs₂, hin⟩, -⟩ | ⟨e, -, hs₂⟩)
      · cases hs.symm.trans hs₂
        cases stage with
        | resuming | executing | held | suspended | waiting => cases hover
        | _ => cases hin
      · cases hs.symm.trans hs₂
        cases hover
    · rintro ⟨message, -, hs₂⟩
      cases hs.symm.trans hs₂
      cases hover
  have hreports : reportsOf who (trace ++ [⟨h, some who, h'⟩]) = reportsOf who trace := by
    cases utters_of_step ht hstep with
    | quietly _ _ hposts hothers => rw [reportsOf_own hposts, hothers.filter, List.append_nil]
    | panics hpanics => exact absurd hpanics hno.2
    | tells hfails | shows hfails => exact absurd hfails hno.1
  exact ⟨⟨⟨stage', hs', isOver_of_leads hl hover hr.stopped⟩, stopped_of_comes hcomes hr.stopped⟩,
    hr.outcome.snoc hreports hno (hworks.terminalNumber? (ht.known hs)) hconfig
      (inErrorMode_of_over hs hover hstep)⟩

theorem Troubled.others (hr : Troubled who trace h) (ht : Threaded h) (hp : Passes h mover h')
    (hne : mover ≠ some who) : Troubled who (trace ++ [⟨h, mover, h'⟩]) h' := by
  obtain ⟨stage, hs, hover⟩ := hr.stage
  have hkeeps := keeps_of_passes hp hne
  have hworks : Works _ h h' := works_of_passes (.inl True.intro) hp
  have hconfig : h'.config = h.config := by rw [Host.config, hkeeps.setup, Host.config]
  refine ⟨⟨⟨stage, hkeeps.stage _ hs, hover⟩, hkeeps.stopped hr.stopped⟩,
    hr.outcome.snoc (reportsOf_others hne) (not_fails_of_others hne)
      (hworks.terminalNumber? (ht.known hs)) hconfig fun hmode => ?_⟩
  rw [inErrorMode_of_face? (face?_of_passes ht.apart (ht.known hs) hp hne), hmode]

theorem Journey.untroubled {setup : HostSetup} {tree : FileTree} {store : ConfigStore}
    (hj : Journey (.new setup tree store) trace h) (who : Handle) :
    Untroubled who trace ∨ Troubled who trace h := by
  induction hj with
  | refl => exact .inl ⟨rfl, fun _ ho => absurd ho List.not_mem_nil⟩
  | @snoc past h h' mover hj hp ih =>
    have ht := hj.followed.accounted.toThreaded
    by_cases hown : mover = some who
    · subst hown
      cases hp with
      | step hstep =>
        rcases ih with hu | hr
        · exact hu.step ht hstep
        · exact .inr (hr.step ht hstep)
    · rcases ih with hu | hr
      · exact .inl ⟨(reportsOf_others hown).trans hu.silent, forall_snoc hu.calm (not_fails_of_others hown)⟩
      · exact .inr (hr.others ht hp hown)

/-! ## 4. Whose terminals are used -/

theorem tasks_runTasks (h : Host) : h.runTasks.2.tasks = .empty := by
  have hfold (dialogs : List Dialog) : ∀ h : Host, (dialogs.foldl perform h).tasks = h.tasks := by
    induction dialogs with
    | nil => exact fun _ => rfl
    | cons d dialogs ih =>
      intro h
      rw [List.foldl_cons, ih]
      unfold perform
      split <;> rfl
  exact hfold _ _

/-- A message is for nobody's terminal, or for that of the computer whose thread moves. -/
theorem terminal_of_queued (ht : Threaded h) (hp : Passes h mover h')
    (hd : d ∈ Moment.queued ⟨h, mover, h'⟩) :
    d.terminal = none ∨ ∃ w, mover = some w ∧ d.terminal = h.terminalNumber? w := by
  cases mover with
  | none =>
    rcases yieldsTo_of_passes hp with hy | rfl
    · obtain ⟨ds, hposts, hothers⟩ := posts_of_yieldsTo hy
      rw [hposts.queued] at hd
      exact .inl (hothers d hd).1
    · have hnothing : Moment.queued ⟨h, none, h.runTasks.2⟩ = [] := by
        show (h.runTasks.2.tasks.waiting.drop _).map Task.work = []
        rw [tasks_runTasks]
        exact congrArg (List.map Task.work) List.drop_nil
      rw [hnothing] at hd
      cases hd
  | some w =>
    cases hp with
    | step hstep =>
      cases utters_of_step ht hstep with
      | quietly _ _ hposts hothers | shows _ _ _ hposts hothers =>
        rw [hposts.queued] at hd
        exact .inl (hothers d hd).1
      | panics _ _ _ hposts hterminal =>
        rw [hposts.queued, List.mem_singleton] at hd
        exact .inr ⟨w, rfl, hd ▸ hterminal⟩
      | tells _ _ _ hposts hothers hterminal =>
        rw [hposts.queued] at hd
        rcases List.mem_append.mp hd with hd | hd
        · exact .inl (hothers d hd).1
        · exact .inr ⟨w, rfl, (List.mem_singleton.mp hd) ▸ hterminal⟩

theorem Journey.addressed {setup : HostSetup} {tree : FileTree} {store : ConfigStore}
    (hj : Journey (.new setup tree store) trace h) {n : Nat} :
    ∀ o ∈ trace, ∀ d ∈ o.queued, d.terminal = some n →
      ∃ w, o.mover = some w ∧ h.terminalNumber? w = some n := by
  induction hj with
  | refl => exact fun _ ho => absurd ho List.not_mem_nil
  | @snoc past h h' mover hj hp ih =>
    have hnumber {w : Handle} (hn : h.terminalNumber? w = some n) : h'.terminalNumber? w = some n := by
      have hknown : (h.computer? w).isSome = true := by
        obtain ⟨c, hc, -⟩ := Option.bind_eq_some_iff.mp hn
        rw [hc]
        rfl
      have hworks : Works _ h h' := works_of_passes (.inl True.intro) hp
      rw [hworks.terminalNumber? hknown, hn]
    refine forall_snoc (fun o ho d hd hterminal => ?_) fun d hd hterminal => ?_
    · obtain ⟨w, hw, hn⟩ := ih o ho d hd hterminal
      exact ⟨w, hw, hnumber hn⟩
    · rcases terminal_of_queued hj.followed.accounted.toThreaded hp hd with hnone | ⟨w, hw, hn⟩
      · cases hterminal.symm.trans hnone
      · exact ⟨w, hw, hnumber (hn.symm.trans hterminal)⟩

/-! ## 5. Terminals without strict compatibility -/

theorem Plain.of_terminals (hp : Plain h) (ht : h'.terminals = h.terminals) : Plain h' := fun n => by
  rw [showsFailure, ht]
  exact hp n

theorem Plain.onTerminal (hp : Plain h) {f : Terminal → Terminal}
    (hf : ∀ t, t.errorMode = false → (f t).errorMode = false) (n : Nat) : Plain (h.onTerminal n f) := by
  intro m
  have hm := hp m
  unfold showsFailure at hm ⊢
  rw [getElem?_onTerminal]
  split
  · cases he : h.terminals[m]? with
    | none => rfl
    | some p =>
      rw [he] at hm
      exact hf _ hm
  · exact hm

theorem Plain.inErrorMode (hp : Plain h) (who : Handle) : h.inErrorMode who = false := by
  cases hof : h.terminalOf? who with
  | none =>
    rw [Host.inErrorMode, face?, hof]
    rfl
  | some p =>
    obtain ⟨n, t⟩ := p
    obtain ⟨⟨id, t'⟩, hentry, rfl⟩ := Option.map_eq_some_iff.mp (terminalOf?_eq_some.mp hof).2
    have hn := hp n
    rw [showsFailure, hentry] at hn
    rw [inErrorMode_of_terminalOf? hof]
    exact hn

/-- Only under strict compatibility does a construction that fails leave a terminal that shows it. -/
theorem plain_spawn (hp : Plain h) (hstandards : h.config.standardsMode = false) (id : UInt32)
    (isDebugger : Bool) : Plain (h.spawn id isDebugger).2 := by
  have hopens {title : String} {grayscale : Bool} {terminal : Option Nat} {h₁ : Host}
      (ho : h.openTerminal id title grayscale = (terminal, h₁)) : Plain h₁ := by
    rcases openTerminal_cases h id title grayscale with heq | ⟨t, -, hmode, heq⟩
    · cases ho.symm.trans heq
      exact hp
    · cases ho.symm.trans heq
      intro m
      have hm := hp m
      unfold showsFailure at hm ⊢
      rw [List.getElem?_append]
      split
      · exact hm
      · rw [List.getElem?_singleton]
        split
        · exact hmode
        · rfl
  have hdestroys {h₁ : Host} (hp₁ : Plain h₁) (terminal : Option Nat) :
      Plain (h₁.destroyTerminal id terminal) := by
    cases terminal with
    | none => exact hp₁
    | some n => exact (hp₁.onTerminal (f := Terminal.destroy) (fun _ ht => ht) n).of_terminals rfl
  have hcreate : Plain (h.create id isDebugger).2 := by
    have hc := creates_create h id isDebugger
    generalize h.create id isDebugger = made at hc
    cases hc with
    | unloaded => exact hp
    | unmounted _ _ ho =>
      rw [hstandards]
      exact hdestroys (hopens ho) _
    | homeless _ _ _ ho =>
      refine hdestroys (Plain.of_terminals (hopens ho) ?_) _
      rfl
    | made _ _ _ ho => exact (hopens ho).of_terminals rfl
  unfold spawn
  rcases hmade : h.create id isDebugger with ⟨e | v, h₁⟩
  · rw [hmade] at hcreate
    refine hcreate.of_terminals ?_
    show (h₁.reportSpawnError e).terminals = h₁.terminals
    unfold reportSpawnError
    split <;> rfl
  · rw [hmade] at hcreate
    exact hcreate.of_terminals rfl

theorem Plain.yieldsTo (hp : Plain h) (hstandards : h.config.standardsMode = false)
    (hy : YieldsTo h h') : Plain h' := by
  cases hy with
  | same hs => exact hp.of_terminals (congrArg Scene.terminals hs)
  | @spawns h₁ id isDebugger hbefore hafter =>
    have hsetup : h₁.setup = h.setup := congrArg Scene.setup hbefore
    have hstandards₁ : h₁.config.standardsMode = false := by rwa [Host.config, hsetup]
    have hp₁ : Plain h₁ := hp.of_terminals (congrArg Scene.terminals hbefore)
    exact (plain_spawn hp₁ hstandards₁ id isDebugger).of_terminals (congrArg Scene.terminals hafter)

theorem Announces.terminals (hann : Announces who h h') (hstandards : h.config.standardsMode = false) :
    h'.terminals = h.terminals := by
  cases hann with
  | shows _ hstrict => cases hstrict.symm.trans hstandards
  | tells => rfl

theorem terminals_exit (hstandards : h.config.standardsMode = false) (session : Session)
    (how : Exit) : (h.exit who session how).terminals = h.terminals := by
  cases how with
  | interrupted => rfl
  | finished =>
    rw [exit]
    obtain heq | ⟨n, t, hno, -⟩ := programFinished_cases h who
    · rw [heq]
      rfl
    · cases hstandards.symm.trans hno
  | raised e =>
    show (h.programFailed who e).terminals = h.terminals
    obtain ⟨-, heq⟩ | ⟨-, hann⟩ := programFailed_cases h who e
    · rw [heq]
    · exact hann.terminals hstandards

theorem plain_of_step (hp : Plain h) (hstandards : h.config.standardsMode = false)
    (hstep : Step h (some who) h') : Plain h' := by
  obtain ⟨changes, stage, stage', hs, -⟩ := makes_of_step hstep
  cases displays_of_step hstep hs with
  | program hin hadv =>
    cases hadv with
    | @exits h₁ session how ha hy =>
      have hstandards₁ : h₁.config.standardsMode = false := by rwa [Host.config, ha.setup]
      exact (hp.yieldsTo hstandards hy).of_terminals (terminals_exit hstandards₁ session how)
    | goesOn _ hy => exact (hp.yieldsTo hstandards hy).of_terminals rfl
    | stays hsame => exact hp.of_terminals (congrArg Scene.terminals hsame)
  | silent _ _ hsame => exact hp.of_terminals (congrArg Scene.terminals hsame)
  | resets =>
    refine Plain.of_terminals ?_ rfl
    obtain ⟨-, heq⟩ | ⟨n, t, -, heq⟩ := resetTerminal_cases h who _ <;> rw [heq]
    · exact hp
    · exact (hp.onTerminal (f := Terminal.reset) (fun _ _ => rfl) n).of_terminals rfl
  | retires => exact hp.of_terminals rfl
  | releases =>
    refine Plain.of_terminals ?_ rfl
    show Plain (h.releaseTerminal who)
    obtain ⟨-, heq⟩ | ⟨n, t, -, ⟨-, heq⟩ | ⟨-, heq⟩⟩ := releaseTerminal_cases h who <;> rw [heq]
    · exact hp
    · exact hp.of_terminals rfl
    · exact (hp.onTerminal (f := Terminal.destroy) (fun _ hm => hm) n).of_terminals rfl
  | @fails e =>
    obtain ⟨h₂, stage₂, hsame, heq⟩ := scene_judge_failed h who e
    rw [heq]
    have hscene : h₂.terminals = (h.reportBootFailure who e).terminals := congrArg Scene.terminals hsame
    exact hp.of_terminals
      (hscene.trans ((announces_reportBootFailure h who e).terminals hstandards))
  | @panics message =>
    obtain ⟨h₂, hsame, heq⟩ := scene_judge_panicked h who message
    rw [heq]
    exact hp.of_terminals (congrArg Scene.terminals hsame)

theorem plain_of_passes (hp : Plain h) (hstandards : h.config.standardsMode = false)
    (hpass : Passes h mover h') : Plain h' := by
  cases mover with
  | some who =>
    cases hpass with
    | step hstep => exact plain_of_step hp hstandards hstep
  | none =>
    rcases yieldsTo_of_passes hpass with hy | rfl
    · exact hp.yieldsTo hstandards hy
    · have hfold (dialogs : List Dialog) : ∀ {h : Host}, Plain h → Plain (dialogs.foldl perform h) := by
        induction dialogs with
        | nil => exact id
        | cons d dialogs ih =>
          refine fun hp => ih ?_
          unfold perform
          split
          · exact hp.onTerminal (f := (·.showMessage d.title d.message)) (fun _ hm => hm) _
          · exact hp.of_terminals rfl
      exact hfold _ (hp.of_terminals rfl)

theorem Journey.plain {setup : HostSetup} {tree : FileTree} {store : ConfigStore}
    (hj : Journey (.new setup tree store) trace h) (hstandards : setup.config.standardsMode = false) :
    Plain h ∧ ∀ o ∈ trace, Plain o.after := by
  induction hj with
  | refl => exact ⟨fun _ => rfl, fun _ ho => absurd ho List.not_mem_nil⟩
  | @snoc past h h' mover hj hp ih =>
    have hconfig : h.config.standardsMode = false := by
      rw [Host.config, setup_of_journey hj]
      exact hstandards
    have hplain := plain_of_passes ih.1 hconfig hp
    exact ⟨hplain, forall_snoc ih.2 hplain⟩

/-! ## 6. Exactly one report -/

theorem not_some_of_forall {P : Moment → Prop} (hall : ∀ o ∈ trace, ¬P o) : ¬∃ o ∈ trace, P o :=
  fun ⟨o, ho, hp⟩ => hall o ho hp

/-- At any time of a run the thread of a computer has told people about it once at most, and once just if
there was a panic, or an error of the program or a boot that has failed where the terminal may not show it.
The message is for the terminal of the computer if there is one, and nobody else has messages for that.
Under strict compatibility the terminal shows the errors and the boots that have failed; otherwise no
terminal of a computer is ever in error mode. -/
theorem reported_exactly_once (setup : HostSetup) (tree : FileTree) (store : ConfigStore)
    (hj : Journey (.new setup tree store) trace h) (who : Handle) :
    (reportsOf who trace).length ≤ 1 ∧
    ((reportsOf who trace).length = 1 ↔ (∃ o ∈ trace, o.Panics who) ∨
      (∃ o ∈ trace, o.Fails who) ∧
        (setup.config.standardsMode = false ∨ h.terminalNumber? who = none)) ∧
    (∀ d ∈ reportsOf who trace, d.terminal = h.terminalNumber? who) ∧
    (∀ n, h.terminalNumber? who = some n → ∀ o ∈ trace, ∀ d ∈ o.queued, d.terminal = some n →
      o.mover = some who) ∧
    (setup.config.standardsMode = true → (h.terminalNumber? who).isSome = true →
      (∃ o ∈ trace, o.Fails who) → h.inErrorMode who = true) ∧
    (setup.config.standardsMode = false → ∀ o ∈ trace, ∀ w, o.after.inErrorMode w = false) := by
  have hconfig : h.config = setup.config := by
    rw [Host.config, setup_of_journey hj]
    rfl
  have hown (n : Nat) (hn : h.terminalNumber? who = some n) : ∀ o ∈ trace, ∀ d ∈ o.queued,
      d.terminal = some n → o.mover = some who := by
    intro o ho d hd hterminal
    obtain ⟨w, hw, hnumber⟩ := hj.addressed o ho d hd hterminal
    rwa [← (hj.apart (apart_new ..)).apart hnumber hn]
  have hplain (hstandards : setup.config.standardsMode = false) : ∀ o ∈ trace, ∀ w,
      o.after.inErrorMode w = false :=
    fun o ho => ((hj.plain hstandards).2 o ho).inErrorMode
  rcases hj.untroubled who with hu | hr
  · have hfails := not_some_of_forall fun o ho => (hu.calm o ho).1
    have hpanics := not_some_of_forall fun o ho => (hu.calm o ho).2
    refine ⟨by simp [hu.silent], ?_, by simp [hu.silent], hown, fun _ _ hf => absurd hf hfails, hplain⟩
    simp [hu.silent, hfails, hpanics]
  · cases hr.outcome with
    | panicked htold hterminal hpanics hfails =>
      refine ⟨by simp [htold], ⟨fun _ => .inl hpanics, fun _ => by simp [htold]⟩, ?_, hown,
        fun _ _ hf => absurd hf (not_some_of_forall hfails), hplain⟩
      simpa [htold] using hterminal
    | told htold hterminal hfails hpanics hwhere =>
      rw [hconfig] at hwhere
      refine ⟨by simp [htold], ⟨fun _ => .inr ⟨hfails, hwhere⟩, fun _ => by simp [htold]⟩, ?_, hown, ?_,
        hplain⟩
      · simpa [htold] using hterminal
      · intro hstandards hsome _
        rcases hwhere with hloose | hnone
        · cases hloose.symm.trans hstandards
        · rw [hnone] at hsome
          cases hsome
    | shown htold hfails hpanics hstandards hsome hmode =>
      rw [hconfig] at hstandards
      refine ⟨by simp [htold], ⟨by simp [htold], ?_⟩, by simp [htold], hown, fun _ _ _ => hmode, hplain⟩
      rintro (hp | ⟨-, hloose | hnone⟩)
      · exact absurd hp (not_some_of_forall hpanics)
      · cases hloose.symm.trans hstandards
      · rw [hnone] at hsome
        cases hsome

end

end Host

namespace Ending

def isPanic : Ending → Bool
  | .panicked _ => true
  | _ => false

/-- Has the boot failed? -/
def isFailure : Ending → Bool
  | .failed _ => true
  | _ => false

end Ending

/-- Has a boot ended so? -/
def Stage.hasEnded (isSuch : Ending → Bool) : Stage → Bool
  | .ended ending => isSuch ending
  | _ => false

namespace Host

/-- Is the thread gone, of a computer with or without a terminal? -/
def isGoneWith (h : Host) (who : Handle) (hasTerminal : Bool) : Bool :=
  (h.stage? who).any Stage.isGone && (h.terminalNumber? who).isSome == hasTerminal

/-- Does a boot of a computer end so after so many moves, and is the thread gone after some more? -/
def judgesAfter (h : Host) (who : Handle) (isSuch : Ending → Bool) (before after : Nat)
    (hasTerminal : Bool) : Bool :=
  (h.moveOn? who before).any fun p =>
    (p.2.stage? who).any (·.hasEnded isSuch) &&
    (p.2.move? who).any fun h' => (h'.moveOn? who after).any (·.2.isGoneWith who hasTerminal)

theorem exists_journey_judging {who : Handle} {h : Host} {isSuch : Ending → Bool} {before after : Nat}
    {hasTerminal : Bool} (hm : h.judgesAfter who isSuch before after hasTerminal = true) :
    ∃ trace h' ending, Journey h trace h' ∧ h'.isGoneWith who hasTerminal = true ∧
      isSuch ending = true ∧ ∃ o ∈ trace, o.Judges who ending := by
  obtain ⟨⟨_, h₁⟩, hbefore, hm⟩ := (Option.any_eq_true _ _).mp hm
  obtain ⟨hended, hm⟩ := Bool.and_eq_true_iff.mp hm
  obtain ⟨h₂, hmove, hm⟩ := (Option.any_eq_true _ _).mp hm
  obtain ⟨⟨_, h'⟩, hafter, hgone⟩ := (Option.any_eq_true _ _).mp hm
  obtain ⟨stage, hs, hsuch⟩ := (Option.any_eq_true _ _).mp hended
  obtain ⟨past, hj, -⟩ := journey_of_moveOn? hbefore
  obtain ⟨later, hj', -⟩ := journey_of_moveOn? hafter
  cases stage with
  | ended ending =>
    exact ⟨_, h', ending, (hj.snoc (.step (.moves hmove))).trans hj', hgone, hsuch, ⟨h₁, some who, h₂⟩,
      by simp, rfl, hs⟩
  | _ => cases hsuch

/-- A strict host without a boot script. -/
def scriptless : Host :=
  .new { strictSetup with bios := .file "rom/bios.lua" } ⟨[(["rom"], .directory)], []⟩ default

/-- A panic is told about once. A boot that fails under strict compatibility is not told about: the terminal
shows it. -/
theorem reported_exactly_once_boom :
    (∃ trace h, Journey panicking trace h ∧ (h.stage? boom).any Stage.isGone = true ∧
      (reportsOf boom trace).length = 1) ∧
    ∃ trace h, Journey scriptless trace h ∧ (h.stage? finisher).any Stage.isGone = true ∧
      (∃ o ∈ trace, o.Fails finisher) ∧ h.inErrorMode finisher = true := by
  constructor
  · have hmoves : (panicking.spawn 1 false).2.judgesAfter boom Ending.isPanic 27 12 false = true := by
      decide +kernel
    obtain ⟨trace, h, ending, hj, hgone, hsuch, o, ho, hjudges⟩ := exists_journey_judging hmoves
    have hspawn : Journey panicking _ (panicking.spawn 1 false).2 := .snoc .refl (.step (.spawns 1 false))
    obtain ⟨-, hiff, -⟩ := reported_exactly_once _ _ _ (hspawn.trans hj) boom
    refine ⟨_, h, hspawn.trans hj, (Bool.and_eq_true_iff.mp hgone).1,
      hiff.mpr (.inl ⟨o, List.mem_append_right _ ho, ?_⟩)⟩
    cases ending with
    | panicked message => exact ⟨message, hjudges⟩
    | _ => cases hsuch
  · have hmoves : (scriptless.spawn 1 false).2.judgesAfter finisher Ending.isFailure 24 13 true =
        true := by decide +kernel
    obtain ⟨trace, h, ending, hj, hgone, hsuch, o, ho, hjudges⟩ := exists_journey_judging hmoves
    obtain ⟨hgone, hterminal⟩ := Bool.and_eq_true_iff.mp hgone
    have hspawn : Journey scriptless _ (scriptless.spawn 1 false).2 :=
      .snoc .refl (.step (.spawns 1 false))
    have hfails : o.Fails finisher := by
      cases ending with
      | failed e => exact .inr ⟨e, hjudges⟩
      | _ => cases hsuch
    obtain ⟨-, -, -, -, hshown, -⟩ := reported_exactly_once _ _ _ (hspawn.trans hj) finisher
    exact ⟨_, h, hspawn.trans hj, hgone, ⟨o, List.mem_append_right _ ho, hfails⟩,
      hshown rfl (eq_of_beq hterminal) ⟨o, List.mem_append_right _ ho, hfails⟩⟩

end Host

end ComputerHost
