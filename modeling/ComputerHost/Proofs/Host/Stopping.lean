import ComputerHost.Proofs.Host.Hooks
import ComputerHost.Proofs.Host.Program
import ComputerHost.Proofs.Host.Release

/-!
# Stopping on request

A program that ends after something was asked of its computer has not failed, whichever way it ends. So
nothing is told about it, and the teardown destroys the terminal. There is one exception: under strict
compatibility a program that finishes leaves a failure on the terminal, asked or not, and the teardown
keeps the terminal.

A terminal is out of error mode from the first move of a boot to the end of its program (`Calm`), and what is
on it when the boot is over stays there until the teardown lets go of it (`WindsDown`).

Results:
1. `proceeds_of_step`: the moves of a program.
2. `Calm.step`, `Calm.others`, `Journey.calm`: what stays on a terminal during a boot.
3. `WindsDown.step`, `WindsDown.others`, `Journey.windsDown`: what stays on it afterwards.
4. `requested_stop_is_quiet`: all of it, along any journey.
-/

namespace ComputerHost

namespace Stage

/-- The boot that is under way has reset the terminal. -/
def IsReset : Stage → Prop
  | .booting todo _ => .resetTerminal ∉ todo
  | stage => stage.isInProgram = true

/-- The program has come to its end, and the terminal has not been let go of. -/
def IsPastProgram : Stage → Prop
  | .leaving _ .ordinary | .ended .ordinary | .betweenBoots | .stopping => True
  | .tearingDown todo => todo <:+ teardownPlan ∧ .releaseTerminal ∈ todo
  | _ => False

end Stage

namespace Host

/-- What a move of a program comes to: the loop is left, or nothing is shown. -/
inductive Proceeds (who : Handle) (h : Host) : Host → Prop
  | exits {h₁ : Host} (session : Session) (how : Exit) : Attends who h h₁ →
      Proceeds who h (h₁.exit who session how)
  | goesOn {h' : Host} : (Apart h → (h.computer? who).isSome = true → h'.face? who = h.face? who) →
      (∀ session, h'.stage? who ≠ some (.leaving session .ordinary)) → Proceeds who h h'

/-- Does the terminal of a computer show a failure? -/
def inErrorMode (h : Host) (who : Handle) : Bool := (h.face? who).any (·.2.errorMode)

/-- At a stage of its thread the terminal of `who` is out of error mode, if the boot has reset it. -/
structure Calm (who : Handle) (h : Host) (stage : Stage) : Prop where
  stage? : h.stage? who = some stage
  apart : Apart h
  known : (h.computer? who).isSome = true
  first : ∀ todo session, stage = .booting todo session → .resetTerminal ∉ todo.tail
  calm : stage.IsReset → h.inErrorMode who = false

/-- The computer is on its way from the end of a program to its teardown, with the terminal that the end
has left it. Or the teardown has let go of the terminal already. -/
inductive WindsDown (who : Handle) (face : Option (Nat × Terminal)) (h : Host) : Prop
  | before {stage : Stage} : h.stage? who = some stage → stage.IsPastProgram → Apart h →
      (h.computer? who).isSome = true → h.face? who = face → WindsDown who face h
  | released {todo : List TeardownStep} : h.stage? who = some (.tearingDown todo) →
      .releaseTerminal ∉ todo → WindsDown who face h
  | gone : h.stage? who = some .gone → WindsDown who face h

section
variable {who : Handle} {h h' h₁ h₂ : Host} {stage : Stage} {mover : Option Handle}

/-! ## 1. Moves of a program -/

theorem Unseen.face? (hu : Unseen h h₁) (who : Handle) : h₁.face? who = h.face? who := by
  unfold Host.face? terminalOf? terminal?
  rw [hu.computer?, hu.terminals]

theorem Unseen.apart (hu : Unseen h h₁) (ha : Apart h) : Apart h₁ := by
  have hn : h₁.terminalNumber? = h.terminalNumber? := by
    funext w
    rw [terminalNumber?, terminalNumber?, hu.computer?]
  constructor
  · rw [hn, hu.terminals]
    exact ha.bound
  · rw [hn]
    exact ha.apart

theorem works_serve_quietly (h : Host) (who : Handle) (request : Script.Request) :
    Works (.all (some who) False False) h (h.serve who request).2 :=
  works_serve trivial (fun _ _ => trivial) (.inl trivial) request

/-- Asking for something shows nothing. -/
theorem Attends.face? (ha : Attends who h h₁) (hapart : Apart h)
    (hc : (h.computer? who).isSome = true) : h₁.face? who = h.face? who := by
  cases ha with
  | quietly hu => exact hu.face? who
  | @asks h₀ _ request hu hu' =>
    have hc₀ : (h₀.computer? who).isSome = true := by rwa [hu.computer?]
    have hserve := (works_serve_quietly h₀ who request).face? (hu.apart hapart) hc₀ (.inr not_false)
    rw [hu'.face?, hserve, hu.face?]

/-- What any step of the thread comes to while its program runs. -/
theorem proceeds_of_step (hstep : Step h (some who) h') (hs : h.stage? who = some stage)
    (hin : stage.isInProgram = true) : Proceeds who h h' := by
  cases advances_of_step hstep hs hin with
  | exits session how ha => exact .exits session how ha
  | @goesOn h₁ stage' hy hno =>
    refine .goesOn hy.face? fun session hs' => ?_
    rw [stage?_setStage, if_pos rfl] at hs'
    obtain ⟨-, -, heq⟩ := Option.map_eq_some_iff.mp hs'
    exact hno session heq
  | stays hsame =>
    refine .goesOn (fun _ _ => face?_of_scene hsame who) fun session hs' => ?_
    rw [stage?_of_scene hsame, hs] at hs'
    cases hs'
    cases hin

/-! ## 2. What stays on a terminal -/

theorem inErrorMode_of_face? (hf : h'.face? who = h.face? who) :
    h'.inErrorMode who = h.inErrorMode who := by
  rw [inErrorMode, hf, inErrorMode]

/-- What others do leaves the terminal of `who` as it is. -/
theorem face?_of_passes (ha : Apart h) (hc : (h.computer? who).isSome = true)
    (hp : Passes h mover h') (hne : mover ≠ some who) : h'.face? who = h.face? who :=
  (works_of_passes (.inl True.intro) hp).face? ha hc (.inl hne)

theorem apart_of_passes (ha : Apart h) (hp : Passes h mover h') : Apart h' :=
  (works_of_passes (.inl True.intro) hp).apart ha

theorem terminal?_onTerminal {n : Nat} {t : Terminal} (ht : h.terminal? n = some t)
    (f : Terminal → Terminal) : (h.onTerminal n f).terminal? n = some (f t) := by
  obtain ⟨⟨id, t'⟩, hentry, rfl⟩ := Option.map_eq_some_iff.mp ht
  rw [terminal?, getElem?_onTerminal, if_pos rfl, hentry]
  rfl

theorem inErrorMode_resetTerminal (h : Host) (who : Handle) (session : Option Session) :
    (h.bootStep who session .resetTerminal).2.inErrorMode who = false := by
  unfold inErrorMode
  obtain ⟨hnone, heq⟩ | ⟨n, t, ht, heq⟩ := resetTerminal_cases h who session <;> rw [heq]
  · have hface : h.face? who = none := by
      unfold face?
      rw [hnone]
      rfl
    rw [hface]
    rfl
  · obtain ⟨hn, ht⟩ := terminalOf?_eq_some.mp ht
    have hnumber : ((h.onTerminal n Terminal.reset).note who .terminalReset).terminalNumber? who =
        some n := hn
    have hreset : ((h.onTerminal n Terminal.reset).note who .terminalReset).terminal? n =
        some t.reset := terminal?_onTerminal ht Terminal.reset
    rw [face?_eq, hnumber, Option.bind_some, hreset]
    rfl

theorem Calm.others (hk : Calm who h stage) (hp : Passes h mover h') (hne : mover ≠ some who) :
    Calm who h' stage where
  stage? := (keeps_of_passes hp hne).stage _ hk.stage?
  apart := apart_of_passes hk.apart hp
  known := (keeps_of_passes hp hne).isSome hk.known
  first := hk.first
  calm hreset := (inErrorMode_of_face? (face?_of_passes hk.apart hk.known hp hne)).trans (hk.calm hreset)

/-- A boot resets the terminal at first and then no more. -/
theorem resetTerminal_first (config : HostConfig) (isDebugger : Bool) (libraries : List Library) :
    .resetTerminal ∉ (bootPlan config isDebugger libraries).tail := by
  unfold bootPlan
  simp only [List.cons_append, List.nil_append, List.tail_cons, List.mem_cons, List.mem_append,
    List.mem_map]
  split <;> split <;> simp

theorem stage_of_exit {session : Session} {how : Exit} {stage' : Stage}
    (hs' : (h.exit who session how).stage? who = some stage') :
    stage' = .leaving (some session) .ordinary := by
  have hset (h : Host) (hs' : (h.setStage who (.leaving (some session) .ordinary)).stage? who =
      some stage') : stage' = .leaving (some session) .ordinary := by
    rw [stage?_setStage, if_pos rfl] at hs'
    obtain ⟨-, -, heq⟩ := Option.map_eq_some_iff.mp hs'
    exact heq.symm
  cases how with
  | finished | raised | interrupted => exact hset _ hs'

/-- A move of a boot. -/
theorem calm_of_booting {todo : List BootStep} {session : Option Session} {stage' : Stage}
    (hk : Calm who h (.booting todo session)) (hm : Moves who h (.booting todo session) h')
    (hs' : h'.stage? who = some stage') :
    (∀ todo session, stage' = .booting todo session → .resetTerminal ∉ todo.tail) ∧
      (stage'.IsReset → h'.inErrorMode who = false) := by
  have hfirst : .resetTerminal ∉ todo.tail := hk.first todo session rfl
  cases hm with
  | lacksState =>
    obtain rfl := Option.some.inj ((stage?_setStage_self hk.stage? _).symm.trans hs')
    exact ⟨nofun, nofun⟩
  | enters =>
    obtain rfl := Option.some.inj ((stage?_setStage_self hk.stage? _).symm.trans hs')
    exact ⟨nofun, fun _ => hk.calm List.not_mem_nil⟩
  | @bootFails step todo _ e h₁ hboot =>
    have hstage : h₁.stage? who = some (.booting (step :: todo) session) := by
      simpa only [hboot] using stage?_bootStep hk.stage? session step
    obtain rfl := Option.some.inj ((stage?_setStage_self hstage _).symm.trans hs')
    exact ⟨nofun, nofun⟩
  | @prepares step todo _ session' h₁ hboot =>
    have hafter : (h.bootStep who session step).2 = h₁ := by rw [hboot]
    have hstage : h₁.stage? who = some (.booting (step :: todo) session) := by
      rw [← hafter]
      exact stage?_bootStep hk.stage? session step
    obtain rfl := Option.some.inj ((stage?_setStage_self hstage _).symm.trans hs')
    refine ⟨fun todo' session'' heq => ?_, fun _ => ?_⟩
    · cases heq
      exact fun hmem => hfirst (List.mem_of_mem_tail hmem)
    show h₁.inErrorMode who = false
    rw [← hafter]
    by_cases hreset : step = .resetTerminal
    · subst hreset
      exact inErrorMode_resetTerminal ..
    · have hw : Works (.all (some who) False False) h (h.bootStep who session step).2 :=
        works_bootStep (Scope.covers_all ..) (.inr hreset) (fun _ _ => trivial) session
      rw [inErrorMode_of_face? (hw.face? hk.apart hk.known (.inr not_false))]
      refine hk.calm fun hmem => ?_
      exact (List.mem_cons.mp hmem).elim (fun heq => hreset heq.symm) hfirst

theorem Calm.step (hk : Calm who h stage) (hstep : Step h (some who) h') :
    ∃ stage', Calm who h' stage' := by
  obtain ⟨changes, stage₁, stage', hs, hl, hcomes, hs'⟩ := makes_of_step hstep
  obtain rfl := Option.some.inj (hk.stage?.symm.trans hs)
  have hw : Works (.all (some who) True True) h h' := works_of_step (.inl trivial) hstep
  suffices hnew : (∀ todo session, stage' = .booting todo session → .resetTerminal ∉ todo.tail) ∧
      (stage'.IsReset → h'.inErrorMode who = false) from
    ⟨stage', hs', hw.apart hk.apart, hw.isSome hk.known, hnew.1, hnew.2⟩
  have hover {stage : Stage} (hbooting : stage.isBooting = false) (hsession : stage.session? = none) :
      (∀ todo session, stage = .booting todo session → .resetTerminal ∉ todo.tail) ∧
        (stage.IsReset → h'.inErrorMode who = false) := by
    cases stage with
    | booting => cases hbooting
    | resuming | executing | held | suspended | waiting => cases hsession
    | _ => exact ⟨nofun, nofun⟩
  by_cases hin : stage.isInProgram = true
  · have hbooting : ∀ todo session, stage' ≠ .booting todo session := by
      rintro todo session rfl
      cases hl with
      | runs _ _ hy =>
        cases hy with
        | goesOn hp => cases hp
      | begins | clears | prepares => cases hin
    refine ⟨fun todo session heq => absurd heq (hbooting todo session), fun hreset => ?_⟩
    rcases proceeds_of_step hstep hk.stage? hin with ⟨session, how, ha⟩ | ⟨hface, -⟩
    · rw [stage_of_exit hs'] at hreset
      cases hreset
    · rw [inErrorMode_of_face? (hface hk.apart hk.known)]
      refine hk.calm ?_
      cases stage with
      | resuming | executing | held | suspended | waiting => exact hin
      | _ => cases hin
  · have hm := moves_of_step hstep hk.stage? (Bool.eq_false_iff.mpr hin)
    cases stage with
    | betweenBoots =>
      cases hm
      obtain ⟨-, hplan⟩ := sets_beginBoot hk.stage? hs'
      have htodo {todo : List BootStep} {session : Option Session} (heq : stage' = .booting todo session) :
          ∃ isDebugger, todo = bootPlan h.config isDebugger h.setup.libraries :=
        (hplan todo session heq).2
      refine ⟨fun todo session heq => ?_, fun hreset => ?_⟩
      · obtain ⟨isDebugger, rfl⟩ := htodo heq
        exact resetTerminal_first h.config isDebugger h.setup.libraries
      · cases hl with
        | runs hin' => cases hin'
        | refuses => cases hreset
        | begins =>
          obtain ⟨isDebugger, rfl⟩ := htodo rfl
          exact absurd List.mem_cons_self hreset
    | booting todo session => exact calm_of_booting hk hm hs'
    | leaving | ended | stopping | tearingDown | gone =>
      obtain ⟨hbooting, hsession⟩ := over_of_leads hl rfl
      exact hover hbooting hsession
    | _ => exact absurd rfl hin

theorem Journey.calm {trace : List Moment} {h₀ : Host} (hj : Journey h₀ trace h)
    (hk : Calm who h₀ stage) : ∃ stage', Calm who h stage' := by
  induction hj with
  | refl => exact ⟨_, hk⟩
  | @snoc past h h' mover _ hp ih =>
    obtain ⟨stage', hk'⟩ := ih
    by_cases hown : mover = some who
    · subst hown
      cases hp with
      | step hstep => exact hk'.step hstep
    · exact ⟨_, hk'.others hp hown⟩

theorem Journey.apart {trace : List Moment} {h₀ : Host} (hj : Journey h₀ trace h) (ha : Apart h₀) :
    Apart h := by
  induction hj with
  | refl => exact ha
  | snoc _ hp ih => exact apart_of_passes ih hp

theorem apart_new (setup : HostSetup) (tree : FileTree) (store : ConfigStore) :
    Apart (.new setup tree store) :=
  ⟨nofun, nofun⟩

/-! ## 3. After the end -/

/-- From the end of a program to the move that lets go of the terminal nobody uses it. -/
theorem works_of_pastProgram (hm : Moves who h stage h') (hpast : stage.IsPastProgram)
    (hrelease : ∀ todo, stage ≠ .tearingDown (.releaseTerminal :: todo)) :
    Works (.all (some who) False True) h h' := by
  have hc : (Scope.all (some who) False True).Covers who := Scope.covers_all ..
  cases hm with
  | boots => exact works_beginBoot hc h
  | leaves => exact (works_leave hc trivial h _).trans (works_setStage hc ..)
  | @judges ending =>
    cases ending with
    | ordinary => exact works_judge hc (.inr rfl) h
    | _ => cases hpast
  | windsUp => exact (works_finish hc.reaches h).trans (works_setStage hc ..)
  | isDone => cases hpast.2
  | @tearsDown step todo =>
    have hne : step ≠ .releaseTerminal := fun heq => hrelease todo (heq ▸ rfl)
    exact (works_teardownStep hc (.inr hne) (fits_of_open trivial who h)).trans (works_setStage hc ..)
  | _ => cases hpast

theorem WindsDown.step {face : Option (Nat × Terminal)} (hk : WindsDown who face h)
    (hstep : Step h (some who) h')
    (hno : ∀ todo session, h'.stage? who ≠ some (.booting todo session)) : WindsDown who face h' := by
  obtain ⟨changes, stage, stage', hs, hl, -, hs'⟩ := makes_of_step hstep
  cases hk with
  | gone hgone =>
    cases hs.symm.trans hgone
    cases hl with
    | runs hin => cases hin
  | released hdown hreleased =>
    cases hs.symm.trans hdown
    cases hl with
    | runs hin => cases hin
    | isDone => exact .gone hs'
    | tearsDown => exact .released hs' fun hmem => hreleased (List.mem_cons_of_mem _ hmem)
  | before hbefore hpast ha hc hf =>
    obtain rfl := Option.some.inj (hs.symm.trans hbefore)
    have hm : Moves who h stage h' := moves_of_step hstep hs (by
      cases stage <;> first | rfl | cases hpast)
    by_cases hrelease : ∃ todo, stage = .tearingDown (.releaseTerminal :: todo)
    · obtain ⟨todo, rfl⟩ := hrelease
      have hnodup : (.releaseTerminal :: todo : List TeardownStep).Nodup :=
        hpast.1.sublist.nodup (by decide)
      cases hl with
      | runs hin => cases hin
      | tearsDown => exact .released hs' (List.nodup_cons.mp hnodup).1
    · have hw := works_of_pastProgram hm hpast fun todo heq => hrelease ⟨todo, heq⟩
      refine .before hs' ?_ (hw.apart ha) (hw.isSome hc)
        ((hw.face? ha hc (.inr not_false)).trans hf)
      cases hl with
      | runs hin => cases hin <;> cases hpast
      | @leaves _ ending | @leavesNothing ending =>
        cases ending with
        | ordinary => trivial
        | _ => cases hpast
      | goesOn | isOver | refuses => trivial
      | begins => exact absurd hs' (hno _ _)
      | windsUp => exact ⟨List.suffix_rfl, by decide⟩
      | @tearsDown step todo =>
        obtain ⟨hsuffix, hmem⟩ := hpast
        refine ⟨(List.suffix_cons ..).trans hsuffix, (List.mem_cons.mp hmem).resolve_left ?_⟩
        rintro rfl
        exact hrelease ⟨todo, rfl⟩
      | isDone => cases hpast.2
      | _ => cases hpast

theorem WindsDown.others {face : Option (Nat × Terminal)} (hk : WindsDown who face h)
    (hp : Passes h mover h') (hne : mover ≠ some who) : WindsDown who face h' := by
  have hkeeps := keeps_of_passes hp hne
  cases hk with
  | before hs hpast ha hc hf =>
    exact .before (hkeeps.stage _ hs) hpast (apart_of_passes ha hp) (hkeeps.isSome hc)
      ((face?_of_passes ha hc hp hne).trans hf)
  | released hs hreleased => exact .released (hkeeps.stage _ hs) hreleased
  | gone hs => exact .gone (hkeeps.stage _ hs)

theorem Journey.windsDown {face : Option (Nat × Terminal)} {trace : List Moment} {h₀ : Host}
    (hj : Journey h₀ trace h) (hk : WindsDown who face h₀)
    (hno : ∀ o ∈ trace, ∀ todo session, o.after.stage? who ≠ some (.booting todo session)) :
    WindsDown who face h := by
  induction hj with
  | refl => exact hk
  | @snoc past h h' mover _ hp ih =>
    rw [List.forall_mem_append, List.forall_mem_singleton] at hno
    by_cases hown : mover = some who
    · subst hown
      cases hp with
      | step hstep => exact (ih hno.1).step hstep hno.2
    · exact (ih hno.1).others hp hown

/-! ## 4. Requested stops -/

/-- The boot of `who` has ended in `h₁`, which has led to `h'`. Nothing is told about it, and the terminal
is destroyed if there is no further boot; but if it was `strict` about it, a failure is shown, and the
terminal is kept. -/
structure EndsQuietly (who : Handle) (strict : Prop) (h₁ h' : Host) : Prop where
  tasks : h'.tasks = h₁.tasks
  quiet : ¬strict → h'.terminals = h₁.terminals
  loud : strict → ∀ n t, h₁.terminalOf? who = some (n, t) →
    h'.terminal? n = some (t.showFatal "Error running computer")
  /-- The terminal when the teardown lets go of it. -/
  released : ∀ {later g todo n t}, Journey h' later g →
    (∀ o ∈ later, ∀ todo session, o.after.stage? who ≠ some (.booting todo session)) →
    g.stage? who = some (.tearingDown (.releaseTerminal :: todo)) → g.terminalOf? who = some (n, t) →
      (¬strict → (g.teardownStep who .releaseTerminal).orphans = g.orphans ∧
        (g.teardownStep who .releaseTerminal).terminal? n = some t.destroy) ∧
      (strict → (g.teardownStep who .releaseTerminal).orphans = g.orphans ++ [n] ∧
        (g.teardownStep who .releaseTerminal).terminals = g.terminals)

theorem quiet_exit (session : Session) {how : Exit} (hasked : h₁.isRunning who = false)
    (hnot : ¬(how = .finished ∧ h₁.config.standardsMode = true)) :
    (h₁.exit who session how).tasks = h₁.tasks ∧ (h₁.exit who session how).terminals = h₁.terminals := by
  cases how with
  | interrupted => exact ⟨rfl, rfl⟩
  | raised e =>
    rw [exit, programFailed_of_asked hasked]
    exact ⟨rfl, rfl⟩
  | finished =>
    rw [exit]
    obtain heq | ⟨n, t, hstandards, -⟩ := programFinished_cases h₁ who
    · rw [heq]
      exact ⟨rfl, rfl⟩
    · exact absurd ⟨rfl, hstandards⟩ hnot

theorem terminalNumber?_finish (h : Host) (who w : Handle) :
    (h.modify who Computer.finish).terminalNumber? w = h.terminalNumber? w := by
  refine terminalNumber?_modify (fun c => ?_) h who w
  rw [Computer.finish_frame]
  exact ⟨rfl, rfl⟩

theorem terminalOf?_finish (h : Host) (who w : Handle) :
    (h.modify who Computer.finish).terminalOf? w = h.terminalOf? w := by
  refine Option.ext fun p => ?_
  obtain ⟨n, t⟩ := p
  rw [terminalOf?_eq_some, terminalOf?_eq_some, terminalNumber?_finish]
  rfl

theorem inErrorMode_of_terminalOf? {n : Nat} {t : Terminal} (ht : h.terminalOf? who = some (n, t)) :
    h.inErrorMode who = t.errorMode := by
  rw [inErrorMode, face?, ht]
  rfl

/-- Under strict compatibility a program that finishes leaves a failure on the terminal, if there is one. -/
theorem loud_exit (session : Session) (hstandards : h₁.config.standardsMode = true)
    (hcalm : h₁.inErrorMode who = false) :
    (h₁.exit who session .finished).tasks = h₁.tasks ∧
      (h₁.terminalOf? who = none → (h₁.exit who session .finished).terminals = h₁.terminals) ∧
      ∀ n t, h₁.terminalOf? who = some (n, t) → (h₁.exit who session .finished).terminals =
        (h₁.onTerminal n (·.showFatal "Error running computer")).terminals := by
  have hsame : (h₁.modify who Computer.finish).config.standardsMode = true := hstandards
  unfold exit programFinished
  simp only [hsame, if_true, terminalOf?_finish]
  cases ht : h₁.terminalOf? who with
  | none => exact ⟨rfl, fun _ => rfl, nofun⟩
  | some p =>
    obtain ⟨n, t⟩ := p
    have hmode : t.errorMode = false := (inErrorMode_of_terminalOf? ht).symm.trans hcalm
    simp only [hmode]
    refine ⟨rfl, nofun, fun n' t' heq => ?_⟩
    cases heq
    rfl

/-- What was asked of the computer, the end of a program changes nothing about. -/
theorem terminalNumber?_exit (session : Session) (how : Exit) (hasked : h₁.isRunning who = false)
    (w : Handle) : (h₁.exit who session how).terminalNumber? w = h₁.terminalNumber? w := by
  cases how with
  | interrupted => rfl
  | raised e =>
    rw [exit, programFailed_of_asked hasked]
    rfl
  | finished =>
    have hnumber := terminalNumber?_finish h₁ who w
    rw [exit]
    obtain heq | ⟨n, t, -, -, heq⟩ := programFinished_cases h₁ who <;> rw [heq] <;> exact hnumber

theorem setup_of_journey {trace : List Moment} {h₀ : Host} (hj : Journey h₀ trace h) :
    h.setup = h₀.setup := by
  obtain ⟨trace, hc⟩ := course_of_journey hj ⟨0, 0⟩
  exact hc.setup

theorem Attends.setup (ha : Attends who h h₁) : h₁.setup = h.setup := by
  cases ha with
  | quietly hu => exact hu.setup
  | @asks h₀ _ request hu hu' =>
    have hserve : Keeps who h₀ (h₀.serve who request).2 := keeps_serve h₀ who request
    exact hu'.setup.trans (hserve.setup.trans hu.setup)

/-- What lets go of a terminal, by what is on it. -/
theorem releaseTerminal_of {n : Nat} {t : Terminal} (ht : h.terminalOf? who = some (n, t)) :
    (t.errorMode = false → (h.teardownStep who .releaseTerminal).orphans = h.orphans ∧
      (h.teardownStep who .releaseTerminal).terminal? n = some t.destroy) ∧
    (t.errorMode = true → (h.teardownStep who .releaseTerminal).orphans = h.orphans ++ [n] ∧
      (h.teardownStep who .releaseTerminal).terminals = h.terminals) := by
  show (t.errorMode = false → (h.releaseTerminal who).orphans = h.orphans ∧
      (h.releaseTerminal who).terminal? n = some t.destroy) ∧
    (t.errorMode = true → (h.releaseTerminal who).orphans = h.orphans ++ [n] ∧
      (h.releaseTerminal who).terminals = h.terminals)
  obtain ⟨hnone, -⟩ | ⟨n', t', ht', ⟨hmode, heq⟩ | ⟨hmode, heq⟩⟩ := releaseTerminal_cases h who
  · cases ht.symm.trans hnone
  · cases ht.symm.trans ht'
    rw [heq]
    exact ⟨fun hno => absurd hmode (by simp [hno]), fun _ => ⟨rfl, rfl⟩⟩
  · cases ht.symm.trans ht'
    rw [heq]
    refine ⟨fun _ => ⟨rfl, terminal?_onTerminal (terminalOf?_eq_some.mp ht).2 _⟩, fun hno => ?_⟩
    exact absurd hmode (by simp [hno])

/-- The end of a program after something was asked of its computer. -/
theorem endsQuietly_exit {session : Session} {how : Exit} (hasked : h₁.isRunning who = false)
    (hapart : Apart (h₁.exit who session how))
    (hc : ((h₁.exit who session how).computer? who).isSome = true)
    (hs : (h₁.exit who session how).stage? who = some (.leaving (some session) .ordinary))
    (hcalm : h₁.inErrorMode who = false) :
    EndsQuietly who (how = .finished ∧ h₁.config.standardsMode = true) h₁
      (h₁.exit who session how) := by
  have hnumber := terminalNumber?_exit session how hasked who
  -- Once the boot is over its terminal stays as it is.
  have hpast {later : List Moment} {g : Host} {todo : List TeardownStep}
      (hj : Journey (h₁.exit who session how) later g)
      (hno : ∀ o ∈ later, ∀ todo session, o.after.stage? who ≠ some (.booting todo session))
      (hg : g.stage? who = some (.tearingDown (.releaseTerminal :: todo))) :
      g.face? who = (h₁.exit who session how).face? who := by
    cases hj.windsDown (.before hs trivial hapart hc rfl) hno with
    | before _ _ _ _ hface => exact hface
    | released hg' hreleased =>
      cases hg.symm.trans hg'
      exact absurd List.mem_cons_self hreleased
    | gone hg' => cases hg.symm.trans hg'
  have hsame (ht : (h₁.exit who session how).terminals = h₁.terminals) :
      (h₁.exit who session how).face? who = h₁.face? who := by
    rw [face?_eq, face?_eq, hnumber]
    unfold terminal?
    rw [ht]
  by_cases hstrict : how = .finished ∧ h₁.config.standardsMode = true
  · obtain ⟨rfl, hstandards⟩ := hstrict
    obtain ⟨htasks, hbare, hfatal⟩ := loud_exit session hstandards hcalm
    have hloud {n : Nat} {t : Terminal} (ht : h₁.terminalOf? who = some (n, t)) :
        (h₁.exit who session .finished).terminal? n =
          some (t.showFatal "Error running computer") := by
      unfold terminal?
      rw [hfatal n t ht]
      exact terminal?_onTerminal (terminalOf?_eq_some.mp ht).2 _
    refine ⟨htasks, fun hno => absurd ⟨rfl, hstandards⟩ hno, fun _ n t ht => hloud ht, ?_⟩
    intro later g todo n t hj hno hg ht
    refine ⟨fun hno => absurd ⟨rfl, hstandards⟩ hno, fun _ => (releaseTerminal_of ht).2 ?_⟩
    rw [← inErrorMode_of_terminalOf? ht, inErrorMode_of_face? (hpast hj hno hg)]
    cases ht₁ : h₁.terminalOf? who with
    | none =>
      have hface := (hpast hj hno hg).trans (hsame (hbare ht₁))
      rw [face?, face?, ht, ht₁] at hface
      cases hface
    | some p =>
      obtain ⟨n₁, t₁⟩ := p
      have hexit : (h₁.exit who session .finished).terminalOf? who =
          some (n₁, t₁.showFatal "Error running computer") :=
        terminalOf?_eq_some.mpr ⟨hnumber.trans (terminalOf?_eq_some.mp ht₁).1, hloud ht₁⟩
      rw [inErrorMode_of_terminalOf? hexit]
      rfl
  · obtain ⟨htasks, hquiet⟩ := quiet_exit session hasked hstrict
    refine ⟨htasks, fun _ => hquiet, fun hyes => absurd hyes hstrict, ?_⟩
    intro later g todo n t hj hno hg ht
    refine ⟨fun _ => (releaseTerminal_of ht).1 ?_, fun hyes => absurd hyes hstrict⟩
    rw [← inErrorMode_of_terminalOf? ht,
      inErrorMode_of_face? ((hpast hj hno hg).trans (hsame hquiet)), hcalm]

/-- Where the loop of a program is left, and something had been asked of the computer before, nothing is
told about it and the terminal will be destroyed if no further boot begins. The exception is a program that
finishes under strict compatibility: it leaves a failure on the terminal, which is then kept. -/
theorem requested_stop_is_quiet {setup : HostSetup} {tree : FileTree} {store : ConfigStore}
    {early past : List Moment} {h₀ : Host} {session : Session}
    (hj₀ : Journey (.new setup tree store) early h₀) (hs₀ : h₀.stage? who = some .betweenBoots)
    (hc : (h₀.computer? who).isSome = true) (hj : Journey h₀ past h)
    (hstep : Step h (some who) h') (hs : h.stage? who = some stage) (hin : stage.isInProgram = true)
    (hs' : h'.stage? who = some (.leaving (some session) .ordinary)) :
    ∃ h₁ how, Attends who h h₁ ∧ h' = h₁.exit who session how ∧
      (h₁.isRunning who = false →
        EndsQuietly who (how = .finished ∧ setup.config.standardsMode = true) h₁ h') := by
  have hapart₀ : Apart h₀ := hj₀.apart (apart_new ..)
  obtain ⟨stage', hk⟩ := hj.calm ⟨hs₀, hapart₀, hc, nofun, nofun⟩
  obtain rfl := Option.some.inj (hs.symm.trans hk.stage?)
  have hp : Passes h (some who) h' := .step hstep
  have hc' : (h'.computer? who).isSome = true :=
    (works_of_step (.inl True.intro) hstep).isSome hk.known
  have hcalm : h.inErrorMode who = false := by
    refine hk.calm ?_
    cases stage with
    | resuming | executing | held | suspended | waiting => exact hin
    | _ => cases hin
  cases proceeds_of_step hstep hs hin with
  | goesOn _ hno => exact absurd hs' (hno session)
  | @exits h₁ session' how ha =>
    obtain rfl : session' = session := by
      cases stage_of_exit hs'
      rfl
    have hsetup : h₁.setup = setup := by
      rw [ha.setup, setup_of_journey hj, setup_of_journey hj₀]
      rfl
    refine ⟨h₁, how, ha, rfl, fun hasked => ?_⟩
    rw [← hsetup]
    exact endsQuietly_exit hasked (apart_of_passes hk.apart hp) hc' hs'
      ((inErrorMode_of_face? (ha.face? hk.apart hk.known)).trans hcalm)

/-- What was asked of a computer stays asked, whatever its program asks for. -/
theorem Attends.asked (ha : Attends who h h₁) (hc : (h.computer? who).isSome = true)
    (hasked : h.isRunning who = false) : h₁.isRunning who = false := by
  have hunseen {h h₁ : Host} (hu : Unseen h h₁) : h₁.isRunning who = h.isRunning who := by
    rw [isRunning, hu.computer?, isRunning]
  cases ha with
  | quietly hu => rw [hunseen hu, hasked]
  | @asks h₀ _ request hu hu' =>
    rw [hunseen hu']
    have hc₀ : (h₀.computer? who).isSome = true := by rwa [hu.computer?]
    refine Bool.eq_false_iff.mpr fun hr => Bool.false_ne_true ?_
    rw [← hasked, ← hunseen hu]
    exact (keeps_serve h₀ who request).isRunning hc₀ hr

end

/-- Has the program of a computer just ended, and does the terminal show a failure? -/
def endsLoudly (h : Host) (who : Handle) : Bool :=
  h.inErrorMode who && match h.stage? who with
    | some (.leaving (some _) .ordinary) => true
    | _ => false

/-- Has something been asked of a computer, and will the program be over with its next move, with a failure
on the terminal? -/
def endsLoudlyNext (h : Host) (who : Handle) : Bool :=
  ((h.computer? who).isSome && !h.isRunning who) &&
    ((h.stage? who).any Stage.isInProgram && (h.move? who).any (·.endsLoudly who))

def finisher : Handle := ⟨1, 1⟩

/-- The setup of a host under strict compatibility with a boot script that has nothing to do. -/
def strictSetup : HostSetup :=
  { HostSetup.standard { HostConfig.default with standardsMode := true } with
    bios := .embedded "", terminals := .buffer }

def strictHost : Host := .new strictSetup ⟨[(["rom"], .directory)], []⟩ default

/-- A computer is asked to stop when its program is about to finish. The program finishes and leaves a
failure on the terminal, so the teardown will keep it. -/
theorem requested_stop_is_quiet_finishing :
    ∃ h₁ h' : Host, ∃ how : Exit, h₁.isRunning finisher = false ∧ h'.inErrorMode finisher = true ∧
      EndsQuietly finisher (how = .finished ∧ strictSetup.config.standardsMode = true) h₁ h' := by
  let spawned : Host := (strictHost.spawn 1 false).2
  have hj₀ : Journey strictHost [⟨strictHost, none, spawned⟩] spawned :=
    Journey.refl.snoc (.step (.spawns 1 false))
  have hs₀ : (strictHost.spawn 1 false).2.stage? finisher = some .betweenBoots := by rfl
  have hc : (spawned.computer? finisher).isSome = true := by decide +kernel
  have hmoves : (spawned.moveOn? finisher 26).any fun p =>
      (p.2.modify finisher Computer.shutdown).endsLoudlyNext finisher := by decide +kernel
  obtain ⟨⟨history, h⟩, hmoves, hnext⟩ := (Option.any_eq_true _ _).mp hmoves
  obtain ⟨hknown, hnext⟩ := Bool.and_eq_true_iff.mp hnext
  obtain ⟨hknown, hasked⟩ := Bool.and_eq_true_iff.mp hknown
  obtain ⟨hprogram, hnext⟩ := Bool.and_eq_true_iff.mp hnext
  obtain ⟨stage, hs, hin⟩ := (Option.any_eq_true _ _).mp hprogram
  obtain ⟨h', hmove, hends⟩ := (Option.any_eq_true _ _).mp hnext
  obtain ⟨hloud, hleaving⟩ := Bool.and_eq_true_iff.mp hends
  obtain ⟨session, hs'⟩ : ∃ session, h'.stage? finisher = some (.leaving (some session) .ordinary) := by
    split at hleaving
    · next session hs' => exact ⟨session, hs'⟩
    · cases hleaving
  obtain ⟨trace, hj, -⟩ := journey_of_moveOn? hmoves
  have hstop : Passes h none (h.modify finisher Computer.shutdown) := .step (.shutsDown finisher)
  obtain ⟨h₁, how, ha, heq, hquiet⟩ :=
    requested_stop_is_quiet hj₀ hs₀ hc (hj.snoc hstop) (.moves hmove) hs hin hs'
  exact ⟨h₁, h', how, ha.asked hknown (by simpa using hasked), hloud,
    hquiet (ha.asked hknown (by simpa using hasked))⟩

end Host

end ComputerHost
