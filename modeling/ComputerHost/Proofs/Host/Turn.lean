import ComputerHost.Proofs.Host.Frame

/-!
# The moves of a thread

What one move of a computer's thread does. `Moves` has one constructor for each way in which a stage may go
on, so whatever is true of every move is shown by cases of it.

Seen from outside, a move is work that keeps everybody's frame (`Keeps`), followed by a new stage; the
exceptions are the moves that begin a boot, empty the event queue or take an event from it. `Turns` has
one constructor for each kind of move.

Results:
1. `goesOn_afterLine`, `goesOn_resume`: what a program does in one move.
2. `moves_of_move?`: the moves of a thread are those of `Moves`.
3. `turns_of_moves`: a move is one of `Turns`.
4. `keeps_of_turns`: the moves of a thread keep the frame of every other computer.
-/

namespace ComputerHost

/-- The stages of a program between two waits, and whether it has been warned. -/
def Stage.program? : Stage → Option Bool
  | .executing _ _ warned | .held _ _ _ _ warned | .suspended _ _ warned => some warned
  | _ => none

/-- The stages after the program of a boot has ended. -/
def Stage.isOver : Stage → Bool
  | .leaving _ _ | .ended _ | .stopping | .tearingDown _ | .gone => true
  | _ => false

theorem Stage.program?_of_isOver {stage : Stage} (ho : stage.isOver = true) :
    stage.program? = none := by
  cases stage with
  | leaving | ended | stopping | tearingDown | gone => rfl
  | betweenBoots | booting | resuming | executing | held | suspended | waiting => cases ho

/-- Where a program that has control leads the thread. -/
def Stage.Follows (warned : Bool) (stage : Stage) : Prop :=
  stage.program? = some warned ∨ ∃ session ending, stage = .leaving (some session) ending

/-- Where a move of a boot leads the thread. -/
inductive Stage.Prepared : Stage → Prop
  | booting (todo : List BootStep) (session : Option Session) : Prepared (.booting todo session)
  | resuming (session : Session) : Prepared (.resuming session [] false)
  | leaving (session : Option Session) (ending : Ending) : Prepared (.leaving session ending)

namespace Host

/-- The pending events of a computer. -/
def queue (h : Host) (who : Handle) : List Event :=
  ((h.computer? who).map (·.events.toList)).getD []

def runState? (h : Host) (who : Handle) : Option RunState := (h.computer? who).map (·.runState)

/-- A computer with other pending events. -/
def setQueue (h : Host) (who : Handle) (events : List Event) : Host :=
  h.modify who fun c => { c with events := ⟨events⟩ }

/-- One move of the thread of `who`, from its stage on. -/
inductive Moves (who : Handle) (h : Host) : Stage → Host → Prop
  | boots : Moves who h .betweenBoots (h.beginBoot who)
  | lacksState : Moves who h (.booting [] none) (h.setStage who (.leaving none .ordinary))
  | enters {session : Session} :
      Moves who h (.booting [] (some session)) (h.setStage who (.resuming session [] false))
  | prepares {step : BootStep} {todo : List BootStep} {session session' : Option Session} {h₁ : Host} :
      h.bootStep who session step = (.ok session', h₁) →
      Moves who h (.booting (step :: todo) session) (h₁.setStage who (.booting todo session'))
  | bootFails {step : BootStep} {todo : List BootStep} {session : Option Session} {e : BootError}
      {h₁ : Host} :
      h.bootStep who session step = (.error e, h₁) →
      Moves who h (.booting (step :: todo) session) (h₁.setStage who (.leaving session (.failed e)))
  | resumes {session : Session} {args : List Value} {warned : Bool} : h.isRunning who = true →
      Moves who h (.resuming session args warned) (h.resume who session args warned)
  | declines {session : Session} {args : List Value} {warned : Bool} : h.isRunning who = false →
      Moves who h (.resuming session args warned) (h.setStage who (.leaving (some session) .ordinary))
  | executes {session : Session} {program : Script.Program} {warned : Bool} :
      Moves who h (.executing session program warned)
        (h.afterLine who session warned (program.execute session.interpreter))
  | letGo {session : Session} {program : Script.Program} {request : Script.Request}
      {device : String} {warned : Bool} {h₁ : Host} : h.takePermit? device = some h₁ →
      Moves who h (.held session program request device warned)
        (h₁.afterReply who session program warned request (.results []))
  | suspends {session : Session} {values : List Value} {warned : Bool} : h.isRunning who = true →
      Moves who h (.suspended session values warned) (h.setStage who (.waiting session
        (filterOf values) (h.clock + if warned then 0 else h.config.idleMs) warned))
  | quits {session : Session} {values : List Value} {warned : Bool} : h.isRunning who = false →
      Moves who h (.suspended session values warned)
        (h.setStage who (.leaving (some session) .ordinary))
  | takes {session : Session} {filter : String} {deadline : Nat} {warned : Bool} {e : Event}
      {rest : List Event} : h.queue who = e :: rest → e.passes filter = true →
      Moves who h (.waiting session filter deadline warned)
        ((h.setQueue who rest).setStage who (.resuming session e.values false))
  | drops {session : Session} {filter : String} {deadline : Nat} {warned : Bool} {e : Event}
      {rest : List Event} : h.queue who = e :: rest → e.passes filter = false →
      Moves who h (.waiting session filter deadline warned) (h.setQueue who rest)
  | interrupted {session : Session} {filter : String} {deadline : Nat} {warned : Bool} :
      h.queue who = [] → h.isRunning who = false →
      Moves who h (.waiting session filter deadline warned)
        (h.setStage who (.leaving (some session) .ordinary))
  | timesOut {session : Session} {filter : String} {deadline : Nat} {warned : Bool} :
      (h.computer? who).isSome = true → h.queue who = [] → deadline ≤ h.clock →
      Moves who h (.waiting session filter deadline warned) (h.timeOut who session warned)
  | leaves {session : Option Session} {ending : Ending} :
      Moves who h (.leaving session ending) ((h.leave who session).setStage who (.ended ending))
  | judges {ending : Ending} : Moves who h (.ended ending) (h.judge who ending)
  | windsUp : Moves who h .stopping
      ((h.modify who fun c => c.finish.setPhase .stopped).setStage who (.tearingDown teardownPlan))
  | isDone : Moves who h (.tearingDown []) (h.setStage who .gone)
  | tearsDown {step : TeardownStep} {todo : List TeardownStep} :
      Moves who h (.tearingDown (step :: todo))
        ((h.teardownStep who step).setStage who (.tearingDown todo))

/-- One move of the thread of `who`, seen from outside. -/
inductive Turns (who : Handle) (h : Host) : Host → Prop
  | boots : h.stage? who = some .betweenBoots → Turns who h (h.beginBoot who)
  | clears {todo : List BootStep} {session : Session} :
      h.stage? who = some (.booting (.clearEvents :: todo) (some session)) →
      Turns who h ((h.setQueue who []).setStage who (.booting todo (some session)))
  | prepares {todo : List BootStep} {session : Option Session} {h₁ : Host} {stage : Stage} :
      h.stage? who = some (.booting todo session) → (∀ w, Keeps w h h₁) → stage.Prepared →
      Turns who h (h₁.setStage who stage)
  | resumes {session : Session} {args : List Value} {warned : Bool} {h₁ : Host} {stage : Stage} :
      h.stage? who = some (.resuming session args warned) → h.isRunning who = true →
      (∀ w, Keeps w h h₁) → stage.Follows warned → Turns who h (h₁.setStage who stage)
  | declines {session : Session} {args : List Value} {warned : Bool} :
      h.stage? who = some (.resuming session args warned) → h.isRunning who = false →
      Turns who h (h.setStage who (.leaving (some session) .ordinary))
  | executes {session : Session} {program : Script.Program} {warned : Bool} {h₁ : Host}
      {stage : Stage} :
      h.stage? who = some (.executing session program warned) → (∀ w, Keeps w h h₁) →
      stage.Follows warned → Turns who h (h₁.setStage who stage)
  | letGo {session : Session} {program : Script.Program} {request : Script.Request}
      {device : String} {warned : Bool} {h₁ : Host} {stage : Stage} :
      h.stage? who = some (.held session program request device warned) → (∀ w, Keeps w h h₁) →
      stage.Follows warned → Turns who h (h₁.setStage who stage)
  | suspends {session : Session} {values : List Value} {warned : Bool} :
      h.stage? who = some (.suspended session values warned) → h.isRunning who = true →
      Turns who h (h.setStage who (.waiting session (filterOf values)
        (h.clock + if warned then 0 else h.config.idleMs) warned))
  | quits {session : Session} {values : List Value} {warned : Bool} :
      h.stage? who = some (.suspended session values warned) → h.isRunning who = false →
      Turns who h (h.setStage who (.leaving (some session) .ordinary))
  | takes {session : Session} {filter : String} {deadline : Nat} {warned : Bool} {e : Event}
      {rest : List Event} :
      h.stage? who = some (.waiting session filter deadline warned) → h.queue who = e :: rest →
      e.passes filter = true →
      Turns who h ((h.setQueue who rest).setStage who (.resuming session e.values false))
  | drops {session : Session} {filter : String} {deadline : Nat} {warned : Bool} {e : Event}
      {rest : List Event} :
      h.stage? who = some (.waiting session filter deadline warned) → h.queue who = e :: rest →
      e.passes filter = false → Turns who h (h.setQueue who rest)
  | interrupted {session : Session} {filter : String} {deadline : Nat} {warned : Bool} :
      h.stage? who = some (.waiting session filter deadline warned) → h.queue who = [] →
      h.isRunning who = false → Turns who h (h.setStage who (.leaving (some session) .ordinary))
  | timesOut {session : Session} {filter : String} {deadline : Nat} {warned : Bool} :
      h.stage? who = some (.waiting session filter deadline warned) →
      (h.computer? who).isSome = true → h.queue who = [] → deadline ≤ h.clock →
      Turns who h (h.timeOut who session warned)
  | winds {stage stage' : Stage} {h₁ : Host} :
      h.stage? who = some stage → stage.isOver = true → (∀ w, Keeps w h h₁) →
      stage'.isOver = true ∨ (stage' = .betweenBoots ∧ h.runState? who = some .rebooting) →
      Turns who h (h₁.setStage who stage')

section
variable {who w : Handle} {h h' : Host}

@[simp] theorem computer?_setStage (h : Host) (w : Handle) (stage : Stage) :
    (h.setStage w stage).computer? who = h.computer? who := rfl

theorem stage?_setStage (h : Host) (w : Handle) (stage : Stage) :
    (h.setStage w stage).stage? who =
      if who = w then (h.stage? who).map fun _ => stage else h.stage? who := by
  unfold setStage stage?
  dsimp only
  induction h.threads with
  | nil => simp
  | cons thread rest ih =>
    obtain ⟨v, s⟩ := thread
    by_cases hv : v = w
    · subst hv
      by_cases hw : who = v
      · subst hw
        simp
      · simpa [List.lookup_cons, hw, beq_eq_false_iff_ne.mpr hw] using ih
    · by_cases hw : who = v
      · subst hw
        simp [hv]
      · simpa [List.lookup_cons, hv, beq_eq_false_iff_ne.mpr hw] using ih

theorem stage?_setStage_self {stage : Stage} (hs : h.stage? who = some stage) (stage' : Stage) :
    (h.setStage who stage').stage? who = some stage' := by
  rw [stage?_setStage, if_pos rfl, hs, Option.map_some]

theorem keeps_setStage (hne : w ≠ who) (h : Host) (stage : Stage) :
    Keeps who h (h.setStage w stage) where
  setup := rfl
  clock := Nat.le_refl _
  computer c hc := ⟨c, hc, .refl c⟩
  stage s hs := by rw [stage?_setStage, if_neg hne.symm, hs]

/-! ## 1. What a program does in one move -/

/-- The host after one move of a program that has control. -/
def GoesOn (who : Handle) (warned : Bool) (h h' : Host) : Prop :=
  ∃ h₁ stage, (∀ w, Keeps w h h₁) ∧ Stage.Follows warned stage ∧ h' = h₁.setStage who stage

theorem GoesOn.of_keeps {h₁ : Host} {warned : Bool} (hk : ∀ w, Keeps w h h₁)
    (hg : GoesOn who warned h₁ h') : GoesOn who warned h h' := by
  obtain ⟨h₂, stage, hk', hs, rfl⟩ := hg
  exact ⟨h₂, stage, fun w => (hk w).trans (hk' w), hs, rfl⟩

theorem goesOn_afterTurn (h : Host) (who : Handle) (session : Session) (program : Script.Program)
    (warned : Bool) (turn : Script.Turn) :
    GoesOn who warned h (h.afterTurn who session program warned turn) := by
  cases turn with
  | next | ask | suspend => exact ⟨h, _, fun w => .refl w h, .inl rfl, rfl⟩
  | finish => exact ⟨_, _, fun w => keeps_programFinished h who, .inr ⟨_, _, rfl⟩, rfl⟩
  | fail e => exact ⟨_, _, fun w => keeps_programFailed h who e, .inr ⟨_, _, rfl⟩, rfl⟩
  | panic message => exact ⟨h, _, fun w => .refl w h, .inr ⟨_, _, rfl⟩, rfl⟩

theorem goesOn_afterReply (h : Host) (who : Handle) (session : Session)
    (program : Script.Program) (warned : Bool) (request : Script.Request) (reply : Script.Reply) :
    GoesOn who warned h (h.afterReply who session program warned request reply) :=
  (goesOn_afterTurn _ who _ program warned _).of_keeps fun _ => keeps_log ..

theorem goesOn_afterLine (h : Host) (who : Handle) (session : Session) (warned : Bool)
    (line : List String × Script.Turn × Script.Program) :
    GoesOn who warned h (h.afterLine who session warned line) := by
  obtain ⟨lines, turn, program⟩ := line
  have hlog (w : Handle) : Keeps w h (h.log who.id lines) := keeps_log ..
  cases turn with
  | ask request =>
    have hserve (w : Handle) :
        Keeps w (h.log who.id lines) ((h.log who.id lines).serve who request).2 := keeps_serve ..
    unfold afterLine
    dsimp only
    split
    · next reply h₁ hr =>
      rw [hr] at hserve
      exact (goesOn_afterReply h₁ who session program warned request reply).of_keeps
        fun w => (hlog w).trans (hserve w)
    · next device h₁ hr =>
      rw [hr] at hserve
      exact ⟨h₁, _, fun w => (hlog w).trans (hserve w), .inl rfl, rfl⟩
  | next => exact (goesOn_afterTurn _ who session program warned .next).of_keeps hlog
  | suspend values =>
    exact (goesOn_afterTurn _ who session program warned (.suspend values)).of_keeps hlog
  | finish => exact (goesOn_afterTurn _ who session program warned .finish).of_keeps hlog
  | fail e => exact (goesOn_afterTurn _ who session program warned (.fail e)).of_keeps hlog
  | panic message =>
    exact (goesOn_afterTurn _ who session program warned (.panic message)).of_keeps hlog

theorem goesOn_resume (h : Host) (who : Handle) (session : Session) (args : List Value)
    (warned : Bool) : GoesOn who warned h (h.resume who session args warned) := by
  have hnote (w : Handle) : Keeps w h (h.noteCall who session (.resume args.length)) :=
    keeps_note ..
  have hfailed (e : ScriptError) (s : Session) :
      GoesOn who warned h
        (((h.noteCall who session (.resume args.length)).programFailed who e).setStage who
          (.leaving s .ordinary)) :=
    ⟨_, _, fun w => (hnote w).trans (keeps_programFailed ..), .inr ⟨_, _, rfl⟩, rfl⟩
  unfold resume
  dsimp only
  split
  · exact hfailed _ _
  · split
    · exact hfailed _ _
    · exact (goesOn_afterLine _ who _ warned _).of_keeps hnote

/-! ## 2. The moves of a thread -/

theorem queue_of_computer? {c : Computer} (hc : h.computer? who = some c) :
    h.queue who = c.events.toList := by
  rw [queue, hc]
  rfl

theorem isRunning_of_computer? {c : Computer} (hc : h.computer? who = some c) :
    h.isRunning who = c.isRunning := by
  rw [isRunning, hc]
  rfl

/-- A boot begins with its whole plan, unless the computer is to stop. -/
theorem beginBoot_cases (h : Host) (who : Handle) :
    (∃ c, h.computer? who = some c ∧ c.runState ≠ .stopped ∧
        h.beginBoot who =
          ((h.modify who fun c => c.beginBoot.2).modify who (·.setPhase .booting)).setStage who
            (.booting (bootPlan h.config c.isDebugger h.setup.libraries) none)) ∨
      (∀ state, h.runState? who = some state → state = .stopped) ∧
        h.beginBoot who = (h.update who Computer.beginBoot false).2.setStage who .stopping := by
  cases hc : h.computer? who with
  | none => exact .inr ⟨by simp [runState?, hc], by simp [beginBoot, update, hc]⟩
  | some c =>
    have hframe (c : Computer) :
        c.beginBoot.2.handle = c.handle ∧ c.beginBoot.2.isDebugger = c.isDebugger := by
      rw [Computer.beginBoot_frame]
      exact ⟨rfl, rfl⟩
    have hbegun : (h.modify who fun c => c.beginBoot.2).computer? who = some c.beginBoot.2 :=
      computer?_modify_self hc _ fun c => (hframe c).1
    unfold beginBoot
    rw [update_of_computer? hc]
    simp only [hbegun, Option.map_some, Option.getD_some, (hframe c).2]
    by_cases hstop : c.runState = .stopped
    · refine .inr ⟨fun state hr => ?_, by simp [Computer.beginBoot_of_stopped hstop]⟩
      rw [runState?, hc, Option.map_some, hstop] at hr
      exact (Option.some.inj hr).symm
    · have hbegins : c.beginBoot.1 = true := by simp [Computer.beginBoot, hstop]
      exact .inl ⟨c, rfl, hstop, if_pos hbegins⟩

theorem move?_of_waiting_cons {session : Session} {filter : String} {deadline : Nat}
    {warned : Bool} {e : Event} {rest : List Event}
    (hs : h.stage? who = some (.waiting session filter deadline warned))
    (hq : h.queue who = e :: rest) :
    h.move? who = some (if e.passes filter then
      (h.setQueue who rest).setStage who (.resuming session e.values false)
      else h.setQueue who rest) := by
  cases hc : h.computer? who with
  | none => simp [queue, hc] at hq
  | some c =>
    rw [queue_of_computer? hc] at hq
    simp [move?, hs, await, hc, EventQueue.look, EventQueue.pop?, hq, setQueue]

theorem move?_of_waiting_nil {session : Session} {filter : String} {deadline : Nat} {warned : Bool}
    (hs : h.stage? who = some (.waiting session filter deadline warned))
    (hc : (h.computer? who).isSome = true) (hq : h.queue who = []) :
    h.move? who = if h.isRunning who then
      if deadline ≤ h.clock then some (h.timeOut who session warned) else none
      else some (h.setStage who (.leaving (some session) .ordinary)) := by
  obtain ⟨c, hc⟩ := Option.isSome_iff_exists.mp hc
  rw [queue_of_computer? hc] at hq
  rw [isRunning_of_computer? hc]
  by_cases hd : deadline ≤ h.clock <;> cases hr : c.isRunning <;>
    simp [move?, hs, await, hc, EventQueue.look, EventQueue.pop?, hq, hr, hd]

theorem moves_of_waiting {session : Session} {filter : String} {deadline : Nat} {warned : Bool}
    (hs : h.stage? who = some (.waiting session filter deadline warned))
    (hm : h.move? who = some h') : Moves who h (.waiting session filter deadline warned) h' := by
  cases hq : h.queue who with
  | cons e rest =>
    obtain rfl := Option.some.inj ((move?_of_waiting_cons hs hq).symm.trans hm)
    cases hp : e.passes filter with
    | true => exact .takes hq hp
    | false => exact .drops hq hp
  | nil =>
    cases hc : h.computer? who with
    | none => simp [move?, hs, await, hc] at hm
    | some c =>
      have hc' : (h.computer? who).isSome = true := by rw [hc, Option.isSome_some]
      rw [move?_of_waiting_nil hs hc' hq] at hm
      split at hm
      · split at hm
        · next hd =>
          obtain rfl := Option.some.inj hm
          exact .timesOut hc' hq hd
        · cases hm
      · next hr =>
        obtain rfl := Option.some.inj hm
        exact .interrupted hq (Bool.eq_false_iff.mpr hr)

/-- The moves of a thread are those of `Moves`. -/
theorem moves_of_move? {stage : Stage} (hs : h.stage? who = some stage)
    (hm : h.move? who = some h') : Moves who h stage h' := by
  have hm' := hm
  unfold move? at hm
  simp only [hs] at hm
  cases stage with
  | betweenBoots =>
    obtain rfl := Option.some.inj hm
    exact .boots
  | booting todo session =>
    cases todo with
    | nil =>
      obtain rfl := Option.some.inj hm
      cases session with
      | none => exact .lacksState
      | some session => exact .enters
    | cons step todo =>
      dsimp only at hm
      split at hm
      · next hb =>
        obtain rfl := Option.some.inj hm
        exact .prepares hb
      · next hb =>
        obtain rfl := Option.some.inj hm
        exact .bootFails hb
  | resuming =>
    obtain rfl := Option.some.inj hm
    split
    · next hr => exact .resumes hr
    · next hr => exact .declines (Bool.eq_false_iff.mpr hr)
  | executing =>
    obtain rfl := Option.some.inj hm
    exact .executes
  | held =>
    obtain ⟨h₁, hp, rfl⟩ := Option.map_eq_some_iff.mp hm
    exact .letGo hp
  | suspended =>
    obtain rfl := Option.some.inj hm
    split
    · next hr => exact .suspends hr
    · next hr => exact .quits (Bool.eq_false_iff.mpr hr)
  | waiting => exact moves_of_waiting hs hm'
  | leaving =>
    obtain rfl := Option.some.inj hm
    exact .leaves
  | ended =>
    obtain rfl := Option.some.inj hm
    exact .judges
  | stopping =>
    obtain rfl := Option.some.inj hm
    exact .windsUp
  | tearingDown todo =>
    cases todo with
    | nil =>
      obtain rfl := Option.some.inj hm
      exact .isDone
    | cons step todo =>
      obtain rfl := Option.some.inj hm
      exact .tearsDown
  | gone => cases hm

theorem exists_moves_of_move? (hm : h.move? who = some h') :
    ∃ stage, h.stage? who = some stage ∧ Moves who h stage h' := by
  cases hs : h.stage? who with
  | none =>
    rw [move?, hs] at hm
    cases hm
  | some stage => exact ⟨stage, rfl, moves_of_move? hs hm⟩

/-! ## 3. Moves seen from outside -/

theorem runState?_shutdown (h : Host) (who : Handle) :
    (h.modify who Computer.shutdown).runState? who = (h.computer? who).map fun _ => .stopped := by
  rw [runState?, computer?_modify h who Computer.shutdown fun _ => rfl, Option.map_map]
  cases hc : h.computer? who with
  | none => rfl
  | some c => simp [handle_of_computer? hc]

/-- After a boot comes another one only if the computer was asked to reboot. -/
theorem turns_of_judge {ending : Ending} (hs : h.stage? who = some (.ended ending)) :
    Turns who h (h.judge who ending) := by
  have goOn {h₁ : Host} (hk : ∀ w, Keeps w h h₁)
      (hr : h₁.runState? who = some .rebooting → h.runState? who = some .rebooting) :
      Turns who h (if h₁.runState? who = some .rebooting then
        (h₁.modify who (·.setPhase .rebooting)).setStage who .betweenBoots
        else h₁.setStage who .stopping) := by
    split
    · next hreboot =>
      exact .winds hs rfl
        (fun w => (hk w).trans (keeps_modify (Computer.grows_setPhase · .rebooting) h₁ who))
        (.inr ⟨rfl, hr hreboot⟩)
    · exact .winds hs rfl hk (.inl rfl)
  cases ending with
  | ordinary => exact goOn (fun w => .refl w h) id
  | failed e =>
    refine goOn (fun w => (keeps_reportBootFailure h who e).trans
      (keeps_modify Computer.grows_shutdown _ who)) fun hreboot => ?_
    rw [runState?_shutdown] at hreboot
    obtain ⟨_, _, hstopped⟩ := Option.map_eq_some_iff.mp hreboot
    cases hstopped
  | panicked detail =>
    refine .winds hs rfl (fun w => ?_) (.inl rfl)
    exact ((keeps_showDialog ..).trans (keeps_modify Computer.grows_shutdown _ who)).trans
      (keeps_closeConnections ..)

/-- Without a state there are no events to clear. -/
theorem keeps_bootStep_of_not_clears {step : BootStep} {session : Option Session}
    (hclear : ¬(step = .clearEvents ∧ session.isSome = true)) (h : Host) (who w : Handle) :
    Keeps w h (h.bootStep who session step).2 := by
  by_cases hstep : step = .clearEvents
  · subst hstep
    cases session with
    | none => exact .refl w h
    | some session => exact absurd ⟨rfl, rfl⟩ hclear
  · exact keeps_bootStep h who session hstep

theorem not_clears_of_error {step : BootStep} {session : Option Session} {e : BootError}
    (hb : h.bootStep who session step = (.error e, h')) :
    ¬(step = .clearEvents ∧ session.isSome = true) := by
  rintro ⟨rfl, hsome⟩
  obtain ⟨session, rfl⟩ := Option.isSome_iff_exists.mp hsome
  cases hb

theorem stage?_bootStep {stage : Stage} (hs : h.stage? who = some stage) (session : Option Session)
    (step : BootStep) : (h.bootStep who session step).2.stage? who = some stage := by
  by_cases hclear : step = .clearEvents
  · subst hclear
    cases session <;> exact hs
  · exact (keeps_bootStep h who session hclear).stage _ hs

/-- One move of a boot, and where it leads. -/
theorem stage_of_bootStep {step : BootStep} {todo : List BootStep} {session : Option Session}
    (hs : h.stage? who = some (.booting (step :: todo) session))
    (hm : Moves who h (.booting (step :: todo) session) h') :
    ∃ stage', h' = (h.bootStep who session step).2.setStage who stage' ∧
      h'.stage? who = some stage' ∧
      ((∃ session', (h.bootStep who session step).1 = .ok session' ∧ stage' = .booting todo session') ∨
        ∃ e, (h.bootStep who session step).1 = .error e ∧ stage' = .leaving session (.failed e)) := by
  have hkeep := stage?_bootStep hs session step
  cases hm with
  | prepares hb =>
    rw [hb] at hkeep ⊢
    exact ⟨_, rfl, stage?_setStage_self hkeep _, .inl ⟨_, rfl, rfl⟩⟩
  | bootFails hb =>
    rw [hb] at hkeep ⊢
    exact ⟨_, rfl, stage?_setStage_self hkeep _, .inr ⟨_, rfl, rfl⟩⟩

/-- A move is one of `Turns`. -/
theorem turns_of_moves {stage : Stage} (hs : h.stage? who = some stage) (hm : Moves who h stage h') :
    Turns who h h' := by
  have hself (w : Handle) : Keeps w h h := .refl w h
  cases hm with
  | boots => exact .boots hs
  | lacksState => exact .prepares hs hself (.leaving none .ordinary)
  | enters => exact .prepares hs hself (.resuming _)
  | @prepares step todo session session' h₁ hb =>
    by_cases hclear : step = .clearEvents ∧ session.isSome = true
    · obtain ⟨rfl, hsome⟩ := hclear
      obtain ⟨session, rfl⟩ := Option.isSome_iff_exists.mp hsome
      cases hb
      exact .clears hs
    · have hk (w : Handle) := keeps_bootStep_of_not_clears hclear h who w
      rw [hb] at hk
      exact .prepares hs hk (.booting todo session')
  | @bootFails step todo session e h₁ hb =>
    have hk (w : Handle) := keeps_bootStep_of_not_clears (not_clears_of_error hb) h who w
    rw [hb] at hk
    exact .prepares hs hk (.leaving session (.failed e))
  | resumes hr =>
    obtain ⟨h₁, stage, hk, hstage, heq⟩ := goesOn_resume h who _ _ _
    rw [heq]
    exact .resumes hs hr hk hstage
  | declines hr => exact .declines hs hr
  | executes =>
    obtain ⟨h₁, stage, hk, hstage, heq⟩ := goesOn_afterLine h who _ _ _
    rw [heq]
    exact .executes hs hk hstage
  | @letGo session program request device warned h₁ hp =>
    obtain ⟨h₂, stage, hk, hstage, heq⟩ :=
      (goesOn_afterReply h₁ who session program warned request (.results [])).of_keeps
        fun w => keeps_takePermit? hp
    rw [heq]
    exact .letGo hs hk hstage
  | suspends hr => exact .suspends hs hr
  | quits hr => exact .quits hs hr
  | takes hq hp => exact .takes hs hq hp
  | drops hq hp => exact .drops hs hq hp
  | interrupted hq hr => exact .interrupted hs hq hr
  | timesOut hc hq hd => exact .timesOut hs hc hq hd
  | leaves => exact .winds hs rfl (fun w => keeps_leave ..) (.inl rfl)
  | judges => exact turns_of_judge hs
  | windsUp =>
    refine .winds hs rfl (fun w => keeps_modify (fun c => ?_) h who) (.inl rfl)
    exact (Computer.grows_finish c).trans (Computer.grows_setPhase _ _)
  | isDone => exact .winds hs rfl hself (.inl rfl)
  | tearsDown => exact .winds hs rfl (fun w => keeps_teardownStep ..) (.inl rfl)

/-! ## 4. The others -/

theorem keeps_beginBoot (hne : w ≠ who) (h : Host) : Keeps who h (h.beginBoot w) := by
  have hhandle (c : Computer) : c.beginBoot.2.handle = c.handle := by
    rw [Computer.beginBoot_frame]
  have hupdate : Keeps who h (h.update w Computer.beginBoot false).2 := by
    unfold update
    cases h.computer? w with
    | none => exact .refl who h
    | some c => exact keeps_modify_other hne hhandle h
  refine keeps_ite (fun _ => ?_) fun _ => hupdate.trans (keeps_setStage hne ..)
  exact (hupdate.trans (keeps_modify (Computer.grows_setPhase · .booting) _ w)).trans
    (keeps_setStage hne ..)

/-- The moves of a thread keep the frame of every other computer. -/
theorem keeps_of_turns (ht : Turns w h h') (hne : w ≠ who) : Keeps who h h' := by
  have hqueue (events : List Event) : Keeps who h (h.setQueue w events) := by
    refine keeps_modify_other hne ?_ h
    exact fun _ => rfl
  cases ht with
  | boots => exact keeps_beginBoot hne h
  | clears => exact (hqueue []).trans (keeps_setStage hne ..)
  | prepares _ hk | executes _ hk | letGo _ hk | winds _ _ hk | resumes _ _ hk =>
    exact (hk who).trans (keeps_setStage hne ..)
  | declines | suspends | quits | interrupted => exact keeps_setStage hne ..
  | takes => exact (hqueue _).trans (keeps_setStage hne ..)
  | drops => exact hqueue _
  | timesOut =>
    refine keeps_ite (fun _ => ?_) fun _ => keeps_setStage hne ..
    exact (keeps_modify Computer.grows_shutdown h w).trans (keeps_setStage hne ..)

end

end Host

end ComputerHost
