import ComputerHost.Proofs.Host.Change
import ComputerHost.Proofs.Host.Simulation

/-!
# Threads and the changes they make

What one step of a computer's thread comes to, as changes of what computers hold, and where it leads the
thread: `Leads` has one constructor for each kind of step. `Turns` says the same as seen by others; here
every change has its name.

Results:
1. `comes_serve`: what a program asks for is the change of that name.
2. `runs_of_acts`: a move of a program comes to what it asks for.
3. `makes_of_step`: the steps of threads are those of `Leads`.
-/

namespace ComputerHost

namespace Host

/-- The changes that a call of a link comes to. -/
def linkCalled (h : Host) (link : String) (l : Link) : String → List Change
  | "turnOn" => [.turnOn link]
  | "shutdown" => if (h.registry.resolve? l.target).isSome then [.shutdown l.target] else []
  | "reboot" => if (h.registry.resolve? l.target).isSome then [.reboot l.target] else []
  | _ => []

/-- The changes that a call of the peripheral at a side of a computer comes to. -/
def called (h : Host) (who : Handle) (side method : String) : List Change :=
  match (h.computer? who).bind (·.peripheral? side) with
  | none => []
  | some name =>
    match h.peripheral? name with
    | some (.link l) => if l.hasHost then h.linkCalled name l method else []
    | _ => []

/-- The changes that a request of a program comes to. -/
def requested (h : Host) (who : Handle) : Script.Request → List Change
  | .shutdown => [.shutdown who]
  | .reboot => [.reboot who]
  | .setBreakpoint _ _ | .clearBreakpoint _ => []
  | .startTimer ms => [.startTimer who ms]
  | .queue e => [.queue who e]
  | .call side method _ => h.called who side method
  | .setLabel text => [.setLabel who text]

/-- The changes that a program of `who` can ask for. -/
inductive IsRequest (who : Handle) : Change → Prop
  | shutdown (w : Handle) : IsRequest who (.shutdown w)
  | reboot (w : Handle) : IsRequest who (.reboot w)
  | startTimer (ms : Nat) : IsRequest who (.startTimer who ms)
  | queue (e : Event) : IsRequest who (.queue who e)
  | setLabel (text : String) : IsRequest who (.setLabel who text)
  | turnOn (link : String) : IsRequest who (.turnOn link)

/-- Has the program control, or does it get control with the next move? -/
inductive InControl (who : Handle) (h : Host) : Stage → Bool → Prop
  | resuming {session : Session} {args : List Value} {warned : Bool} :
      h.isRunning who = true → InControl who h (.resuming session args warned) warned
  | executing {session : Session} {program : Script.Program} {warned : Bool} :
      InControl who h (.executing session program warned) warned
  | held {session : Session} {program : Script.Program} {request : Script.Request}
      {device : String} {warned : Bool} :
      InControl who h (.held session program request device warned) warned

/-- Where a program leads the thread, and what the thread does on its own account. -/
inductive Yields (who : Handle) (warned : Bool) : List Change → Stage → Prop
  | goesOn {stage : Stage} : stage.program? = some warned → Yields who warned [] stage
  /-- The program has finished or raised an error. -/
  | ends {session : Session} : Yields who warned [.finish who] (.leaving (some session) .ordinary)
  | panics {session : Session} {message : String} :
      Yields who warned [] (.leaving (some session) (.panicked message))

/-- One step of the thread of `who` at a stage: the changes that it makes, and the next stage. -/
inductive Leads (who : Handle) (h : Host) : Stage → List Change → Stage → Prop
  | begins {state : RunState} {todo : List BootStep} :
      h.runState? who = some state → state ≠ .stopped →
      Leads who h .betweenBoots [.beginBoot who] (.booting todo none)
  | refuses : (∀ state, h.runState? who = some state → state = .stopped) →
      Leads who h .betweenBoots [] .stopping
  | clears {todo : List BootStep} {session : Session} :
      Leads who h (.booting (.clearEvents :: todo) (some session)) [.setQueue who []]
        (.booting todo (some session))
  | prepares {step : BootStep} {todo : List BootStep} {session session' : Option Session} :
      Leads who h (.booting (step :: todo) session) [] (.booting todo session')
  | bootFails {step : BootStep} {todo : List BootStep} {session : Option Session} {e : BootError} :
      Leads who h (.booting (step :: todo) session) [] (.leaving session (.failed e))
  | enters {session : Session} :
      Leads who h (.booting [] (some session)) [] (.resuming session [] false)
  | lacksState : Leads who h (.booting [] none) [] (.leaving none .ordinary)
  | declines {session : Session} {args : List Value} {warned : Bool} :
      h.isRunning who = false →
      Leads who h (.resuming session args warned) [] (.leaving (some session) .ordinary)
  | runs {stage stage' : Stage} {warned : Bool} {asked after : List Change} :
      InControl who h stage warned → (∀ x ∈ asked, IsRequest who x) →
      Yields who warned after stage' → Leads who h stage (asked ++ after) stage'
  | suspends {session : Session} {values : List Value} {warned : Bool} {filter : String}
      {deadline : Nat} :
      h.isRunning who = true →
      Leads who h (.suspended session values warned) [] (.waiting session filter deadline warned)
  | quits {session : Session} {values : List Value} {warned : Bool} :
      h.isRunning who = false →
      Leads who h (.suspended session values warned) [] (.leaving (some session) .ordinary)
  | takes {session : Session} {filter : String} {deadline : Nat} {warned : Bool} {e : Event}
      {rest : List Event} :
      h.queue who = e :: rest → e.passes filter = true →
      Leads who h (.waiting session filter deadline warned) [.setQueue who rest]
        (.resuming session e.values false)
  | drops {session : Session} {filter : String} {deadline : Nat} {warned : Bool} {e : Event}
      {rest : List Event} :
      h.queue who = e :: rest → e.passes filter = false →
      Leads who h (.waiting session filter deadline warned) [.setQueue who rest]
        (.waiting session filter deadline warned)
  | interrupted {session : Session} {filter : String} {deadline : Nat} {warned : Bool} :
      h.queue who = [] → h.isRunning who = false →
      Leads who h (.waiting session filter deadline warned) [] (.leaving (some session) .ordinary)
  | warns {session : Session} {filter : String} {deadline : Nat} :
      h.queue who = [] → deadline ≤ h.clock →
      Leads who h (.waiting session filter deadline false) []
        (.resuming session Event.terminate.values true)
  | givesUp {session : Session} {filter : String} {deadline : Nat} :
      h.queue who = [] → deadline ≤ h.clock →
      Leads who h (.waiting session filter deadline true) [.shutdown who]
        (.resuming session [] true)
  | leaves {session : Session} {ending : Ending} :
      Leads who h (.leaving (some session) ending) [.disconnectAll who] (.ended ending)
  | leavesNothing {ending : Ending} : Leads who h (.leaving none ending) [] (.ended ending)
  | goesOn : h.runState? who = some .rebooting → Leads who h (.ended .ordinary) [] .betweenBoots
  | isOver : h.runState? who ≠ some .rebooting → Leads who h (.ended .ordinary) [] .stopping
  | failed {e : BootError} : Leads who h (.ended (.failed e)) [.shutdown who] .stopping
  | panicked {message : String} :
      Leads who h (.ended (.panicked message)) [.shutdown who, .disconnectAll who]
        (.tearingDown teardownPlan)
  | windsUp : Leads who h .stopping [.finish who] (.tearingDown teardownPlan)
  | tearsDown {step : TeardownStep} {todo : List TeardownStep} :
      Leads who h (.tearingDown (step :: todo)) [.teardown who step] (.tearingDown todo)
  | isDone : Leads who h (.tearingDown []) [] .gone

/-- The thread of `who` makes a step that comes to these changes. -/
def Makes (who : Handle) (h : Host) (changes : List Change) (h' : Host) : Prop :=
  ∃ stage stage', h.stage? who = some stage ∧ Leads who h stage changes stage' ∧
    Comes h changes h' ∧ h'.stage? who = some stage'

/-! ## 1. Requests -/

section
variable {h h' h₁ : Host} {who w : Handle}

theorem comes_callLink {link : String} {l : Link} (hp : h.peripheral? link = some (.link l))
    (hhost : l.hasHost = true) (method : String) :
    Comes h (h.linkCalled link l method) (h.callLink link l method).2 := by
  have hself : Comes h [] h := Differs.comes (.refl _ h)
  unfold linkCalled
  split
  · have hturn : h.turnOn link = (h.callLink link l "turnOn").2 := by
      unfold turnOn
      rw [hp]
      simp [hhost]
    rw [← hturn]
    exact comes_on (.turnOn link) h
  · show Comes h _ (if (h.registry.resolve? l.target).isSome then
      h.modify l.target Computer.shutdown else h)
    split
    · exact comes_on (.shutdown l.target) h
    · exact hself
  · show Comes h _ (if (h.registry.resolve? l.target).isSome then
      h.modify l.target Computer.reboot else h)
    split
    · exact comes_on (.reboot l.target) h
    · exact hself
  · next hturn hshutdown hreboot =>
    unfold callLink
    dsimp only
    split
    · exact hself
    · exact hself
    · exact absurd rfl hturn
    · exact absurd rfl hshutdown
    · exact absurd rfl hreboot
    · exact hself
    · exact hself

theorem comes_call (h : Host) (who : Handle) (side method : String) (args : List Value) :
    Comes h (h.called who side method) (h.call who side method args).2 := by
  unfold call called
  cases (h.computer? who).bind (·.peripheral? side) with
  | none => exact Differs.comes (.refl _ h)
  | some name =>
    dsimp only
    generalize hm : h.modify who _ = h₁
    have hq : Quiet h h₁ := by
      rw [← hm]
      exact quiet_modify (fun _ => rfl) h who
    have hsame : h₁.peripheral? = h.peripheral? ∧ h₁.linkCalled = h.linkCalled := by
      rw [← hm]
      exact ⟨rfl, rfl⟩
    rw [← hsame.1, ← hsame.2]
    cases hp : h₁.peripheral? name with
    | none => exact hq.comes
    | some p =>
      cases p with
      | link l =>
        dsimp only
        split
        · next hhost => exact hq.comes_of (comes_callLink hp hhost method)
        · exact hq.comes
      | device d =>
        dsimp only
        split
        · exact hq.comes
        · exact hq.comes
        · exact hq.comes
        · split
          · next hpermit => exact (hq.trans (quiet_takePermit? hpermit)).comes
          · exact hq.comes

theorem comes_serve (h : Host) (who : Handle) (request : Script.Request) :
    Comes h (h.requested who request) (h.serve who request).2 := by
  cases request with
  | shutdown => exact comes_on (.shutdown who) h
  | reboot => exact comes_on (.reboot who) h
  | setBreakpoint source line =>
    show Comes h [] (h.update who _ Script.Reply.done).2
    exact Differs.comes (differs_update h who _ _ (fun _ => rfl) fun x _ _ c => by
      cases x <;> trivial)
  | clearBreakpoint id =>
    show Comes h [] (h.update who _ Script.Reply.done).2
    exact Differs.comes (differs_update h who _ _ (fun _ => rfl) fun x _ _ c => by
      cases x <;> trivial)
  | startTimer ms => exact comes_on (.startTimer who ms) h
  | queue e => exact comes_on (.queue who e) h
  | call side method args => exact comes_call h who side method args
  | setLabel text => exact comes_on (.setLabel who text) h

theorem isRequest_of_linkCalled {link : String} {l : Link} {method : String} {x : Change}
    (hx : x ∈ h.linkCalled link l method) : IsRequest who x := by
  unfold linkCalled at hx
  split at hx
  · rw [List.mem_singleton.mp hx]
    exact .turnOn link
  · split at hx
    · rw [List.mem_singleton.mp hx]
      exact .shutdown l.target
    · cases hx
  · split at hx
    · rw [List.mem_singleton.mp hx]
      exact .reboot l.target
    · cases hx
  · cases hx

theorem isRequest_of_requested {request : Script.Request} {x : Change}
    (hx : x ∈ h.requested who request) : IsRequest who x := by
  cases request with
  | shutdown => rw [List.mem_singleton.mp hx]; exact .shutdown who
  | reboot => rw [List.mem_singleton.mp hx]; exact .reboot who
  | setBreakpoint | clearBreakpoint => cases hx
  | startTimer ms => rw [List.mem_singleton.mp hx]; exact .startTimer ms
  | queue e => rw [List.mem_singleton.mp hx]; exact .queue e
  | setLabel text => rw [List.mem_singleton.mp hx]; exact .setLabel text
  | call side method args =>
    unfold requested called at hx
    dsimp only at hx
    split at hx
    · cases hx
    · split at hx
      · split at hx
        · exact isRequest_of_linkCalled hx
        · cases hx
      · cases hx

/-! ## 2. Programs -/

theorem isRunning_iff : h.isRunning who = true ↔ h.runState? who = some .running := by
  unfold isRunning runState?
  cases h.computer? who with
  | none => simp
  | some c => simp [Computer.isRunning]

theorem finish_of_running {c : Computer} (hr : c.isRunning = true) :
    c.finish = c.shutdown := by
  unfold Computer.finish
  rw [if_pos (by simpa [Computer.isRunning] using hr)]
  rfl

theorem finish_of_not_running {c : Computer} (hr : c.isRunning = false) : c.finish = c := by
  unfold Computer.finish
  rw [if_neg (by simpa [Computer.isRunning] using hr)]

theorem comes_programFinished (h : Host) (who : Handle) :
    Comes h [.finish who] (h.programFinished who) := by
  have hfinish : Comes h [.finish who] (h.modify who Computer.finish) := comes_on (.finish who) h
  obtain heq | ⟨n, t, -, -, heq⟩ := programFinished_cases h who <;> rw [heq]
  · exact hfinish
  · exact hfinish.quiet (quiet_showFatal ..)

/-- A program that has failed is stopped as one that has finished. -/
theorem comes_programFailed (h : Host) (who : Handle) (e : ScriptError) :
    Comes h [.finish who] (h.programFailed who e) := by
  have hfinish : Comes h [.finish who] (h.modify who Computer.finish) := comes_on (.finish who) h
  have hhandle (c : Computer) : c.finish.handle = c.handle := (Computer.grows_finish c).handle
  obtain ⟨hr, heq⟩ | ⟨hr, ha⟩ := programFailed_cases h who e
  · rw [heq]
    refine hfinish.quiet (quiet_of_modify hhandle fun c hc => finish_of_not_running ?_)
    rw [← isRunning_of_computer? hc]
    exact hr
  · have hsame : Quiet (h.modify who Computer.finish) (h.modify who Computer.shutdown) :=
      quiet_modify_modify hhandle (fun _ => rfl) fun c hc =>
        finish_of_running (by rwa [← isRunning_of_computer? hc])
    exact hfinish.quiet (hsame.trans ha.quiet)

/-- What a move of a program comes to, with what it asks for. -/
def Runs (who : Handle) (warned : Bool) (asked : List Change) (h h' : Host) : Prop :=
  ∃ after stage h₁, Yields who warned after stage ∧ Comes h (asked ++ after) h₁ ∧
    Keeps who h h₁ ∧ h' = h₁.setStage who stage

theorem Runs.of_comes {warned : Bool} {asked : List Change} (hc : Comes h asked h₁)
    (hk : Keeps who h h₁) (hr : Runs who warned [] h₁ h') : Runs who warned asked h h' := by
  obtain ⟨after, stage, h₂, hy, hc', hk', rfl⟩ := hr
  exact ⟨after, stage, h₂, hy, hc.trans hc', hk.trans hk', rfl⟩

theorem Runs.of_quiet {warned : Bool} {asked : List Change} (hq : Quiet h h₁)
    (hk : Keeps who h h₁) (hr : Runs who warned asked h₁ h') : Runs who warned asked h h' := by
  obtain ⟨after, stage, h₂, hy, hc', hk', rfl⟩ := hr
  exact ⟨after, stage, h₂, hy, hq.comes_of hc', hk.trans hk', rfl⟩

theorem runs_afterTurn (h : Host) (who : Handle) (session : Session) (program : Script.Program)
    (warned : Bool) (turn : Script.Turn) :
    Runs who warned [] h (h.afterTurn who session program warned turn) := by
  have hself : Comes h [] h := Differs.comes (.refl _ h)
  cases turn with
  | next | ask | suspend => exact ⟨[], _, h, .goesOn rfl, hself, .refl who h, rfl⟩
  | finish =>
    exact ⟨_, _, _, .ends, comes_programFinished h who, keeps_programFinished h who, rfl⟩
  | fail e => exact ⟨_, _, _, .ends, comes_programFailed h who e, keeps_programFailed h who e, rfl⟩
  | panic message => exact ⟨[], _, h, .panics, hself, .refl who h, rfl⟩

theorem runs_afterReply (h : Host) (who : Handle) (session : Session) (program : Script.Program)
    (warned : Bool) (request : Script.Request) (reply : Script.Reply) :
    Runs who warned [] h (h.afterReply who session program warned request reply) :=
  .of_quiet (quiet_log ..) (keeps_log ..) (runs_afterTurn ..)

theorem runs_afterLine (h : Host) (who : Handle) (session : Session) (warned : Bool)
    (line : List String × Script.Turn × Script.Program) :
    ∃ asked, (∀ x ∈ asked, IsRequest who x) ∧
      Runs who warned asked h (h.afterLine who session warned line) := by
  obtain ⟨lines, turn, program⟩ := line
  have hlog : Quiet h (h.log who.id lines) := quiet_log ..
  have hkeep : Keeps who h (h.log who.id lines) := keeps_log ..
  have hno (x : Change) (hx : x ∈ ([] : List Change)) : IsRequest who x := absurd hx List.not_mem_nil
  cases turn with
  | ask request =>
    have hserve := comes_serve (h.log who.id lines) who request
    have hkeeps : Keeps who (h.log who.id lines) ((h.log who.id lines).serve who request).2 :=
      keeps_serve ..
    refine ⟨(h.log who.id lines).requested who request, fun x => isRequest_of_requested,
      .of_quiet hlog hkeep ?_⟩
    unfold afterLine
    dsimp only
    split
    · next reply h₁ hr =>
      rw [hr] at hserve hkeeps
      exact .of_comes hserve hkeeps (runs_afterReply ..)
    · next device h₁ hr =>
      rw [hr] at hserve hkeeps
      exact .of_comes hserve hkeeps
        ⟨[], _, h₁, .goesOn rfl, Differs.comes (.refl _ h₁), .refl who h₁, rfl⟩
  | next => exact ⟨[], hno, .of_quiet hlog hkeep (runs_afterTurn _ who session program warned .next)⟩
  | suspend values =>
    exact ⟨[], hno, .of_quiet hlog hkeep (runs_afterTurn _ who session program warned (.suspend values))⟩
  | finish =>
    exact ⟨[], hno, .of_quiet hlog hkeep (runs_afterTurn _ who session program warned .finish)⟩
  | fail e =>
    exact ⟨[], hno, .of_quiet hlog hkeep (runs_afterTurn _ who session program warned (.fail e))⟩
  | panic message =>
    exact ⟨[], hno, .of_quiet hlog hkeep (runs_afterTurn _ who session program warned (.panic message))⟩

theorem runs_resume (h : Host) (who : Handle) (session : Session) (args : List Value)
    (warned : Bool) :
    ∃ asked, (∀ x ∈ asked, IsRequest who x) ∧
      Runs who warned asked h (h.resume who session args warned) := by
  have hnote : Quiet h (h.noteCall who session (.resume args.length)) := quiet_note _ who rfl
  have hkeep : Keeps who h (h.noteCall who session (.resume args.length)) := keeps_note ..
  have hno (x : Change) (hx : x ∈ ([] : List Change)) : IsRequest who x := absurd hx List.not_mem_nil
  have hfailed (e : ScriptError) (s : Session) : Runs who warned []
      (h.noteCall who session (.resume args.length))
      (((h.noteCall who session (.resume args.length)).programFailed who e).setStage who
        (.leaving s .ordinary)) :=
    ⟨_, _, _, .ends, comes_programFailed .., keeps_programFailed .., rfl⟩
  unfold resume
  dsimp only
  split
  · exact ⟨[], hno, .of_quiet hnote hkeep (hfailed _ _)⟩
  · split
    · exact ⟨[], hno, .of_quiet hnote hkeep (hfailed _ _)⟩
    · obtain ⟨asked, ha, hr⟩ := runs_afterLine
        (h.noteCall who session (.resume args.length)) who _ warned _
      exact ⟨asked, ha, .of_quiet hnote hkeep hr⟩

theorem runs_of_acts {warned : Bool} (ha : Acts who warned h h') :
    ∃ asked, (∀ x ∈ asked, IsRequest who x) ∧ Runs who warned asked h h' := by
  have hno (x : Change) (hx : x ∈ ([] : List Change)) : IsRequest who x := absurd hx List.not_mem_nil
  cases ha with
  | turns session program turn => exact ⟨[], hno, runs_afterTurn ..⟩
  | @asks request reply h₁ session program turn hr =>
    have hserve := comes_serve h who request
    have hkeeps : Keeps who h (h.serve who request).2 := keeps_serve ..
    rw [hr] at hserve hkeeps
    exact ⟨_, fun x => isRequest_of_requested, .of_comes hserve hkeeps (runs_afterTurn ..)⟩
  | @isHeld request device h₁ session program hr =>
    have hserve := comes_serve h who request
    have hkeeps : Keeps who h (h.serve who request).2 := keeps_serve ..
    rw [hr] at hserve hkeeps
    exact ⟨_, fun x => isRequest_of_requested, .of_comes hserve hkeeps
      ⟨[], _, h₁, .goesOn rfl, Differs.comes (.refl _ h₁), .refl who h₁, rfl⟩⟩

theorem makes_of_runs {stage : Stage} {warned : Bool} {asked : List Change}
    (hs : h.stage? who = some stage) (hin : InControl who h stage warned)
    (ha : ∀ x ∈ asked, IsRequest who x) (hr : Runs who warned asked h h') :
    ∃ changes, Makes who h changes h' := by
  obtain ⟨after, stage', h₁, hy, hc, hk, rfl⟩ := hr
  exact ⟨asked ++ after, stage, stage', hs, .runs hin ha hy, hc.quiet (quiet_setStage ..),
    stage?_setStage_self (hk.stage stage hs) stage'⟩

/-! ## 3. Threads -/

/-- A move that is quiet but for the stage. -/
theorem makes_of_quiet {stage stage' : Stage} (hs : h.stage? who = some stage) (hq : Quiet h h₁)
    (hk : Keeps who h h₁) (hl : Leads who h stage [] stage') :
    Makes who h [] (h₁.setStage who stage') :=
  ⟨stage, stage', hs, hl, (hq.trans (quiet_setStage ..)).comes,
    stage?_setStage_self (hk.stage stage hs) stage'⟩

theorem makes_of_changes {stage stage' : Stage} {xs : List Change} (hs : h.stage? who = some stage)
    (hl : Leads who h stage xs stage') (hc : Comes h xs h₁)
    (hk : h₁.stage? who = h.stage? who) : Makes who h xs (h₁.setStage who stage') :=
  ⟨stage, stage', hs, hl, hc.quiet (quiet_setStage ..), stage?_setStage_self (hk.trans hs) stage'⟩

theorem makes_beginBoot_of_ne (hs : h.stage? who = some .betweenBoots) {state : RunState}
    (hr : h.runState? who = some state) (hne : state ≠ .stopped) :
    Makes who h [.beginBoot who] (h.beginBoot who) := by
  obtain ⟨c, hc, -, heq⟩ | ⟨hno, -⟩ := beginBoot_cases h who
  · have hbegin := comes_on (.beginBoot who) h
    rw [show (Change.beginBoot who).on h = (h.update who Computer.beginBoot false).2 from rfl,
      update_of_computer? hc] at hbegin
    rw [heq]
    exact makes_of_changes hs (.begins hr hne) (hbegin.quiet (quiet_setPhase ..)) rfl
  · exact absurd (hno state hr) hne

theorem makes_beginBoot (hs : h.stage? who = some .betweenBoots) :
    ∃ xs, Makes who h xs (h.beginBoot who) := by
  obtain ⟨c, hc, hne, -⟩ | ⟨hno, heq⟩ := beginBoot_cases h who
  · have hr : h.runState? who = some c.runState := by rw [runState?, hc, Option.map_some]
    exact ⟨_, makes_beginBoot_of_ne hs hr hne⟩
  · have hsame : (h.update who Computer.beginBoot false).2.stage? who = h.stage? who := by
      rw [update_frame]
      rfl
    have hquiet : Quiet h (h.update who Computer.beginBoot false).2 := by
      cases hc : h.computer? who with
      | none =>
        rw [update, hc]
        exact .refl _ h
      | some c =>
        rw [update_of_computer? hc]
        refine quiet_to_modify (fun c => by rw [Computer.beginBoot_frame]) fun c' hc' => ?_
        have hr : h.runState? who = some c'.runState := by rw [runState?, hc', Option.map_some]
        rw [Computer.beginBoot_of_stopped (hno _ hr)]
    rw [heq]
    exact ⟨[], makes_of_changes hs (.refuses hno) hquiet.comes hsame⟩

theorem makes_timeOut {session : Session} {filter : String} {deadline : Nat} {warned : Bool}
    (hs : h.stage? who = some (.waiting session filter deadline warned)) (hq : h.queue who = [])
    (hd : deadline ≤ h.clock) : ∃ xs, Makes who h xs (h.timeOut who session warned) := by
  cases warned with
  | true => exact ⟨_, makes_of_changes hs (.givesUp hq hd) (comes_on (.shutdown who) h) rfl⟩
  | false => exact ⟨[], makes_of_quiet hs (.refl _ h) (.refl who h) (.warns hq hd)⟩

theorem comes_leave (h : Host) (who : Handle) (session : Session) :
    Comes h [.disconnectAll who] (h.leave who (some session)) := by
  have hclose : Comes h [.disconnectAll who] (h.closeConnections who) :=
    comes_on (.disconnectAll who) h
  unfold leave
  exact hclose.quiet (differs_foldl (fun h l => quiet_note h who rfl) _ _)

/-- No boot comes after one that has failed. -/
theorem judge_failed (h : Host) (who : Handle) (e : BootError) :
    h.judge who (.failed e) =
      ((h.reportBootFailure who e).modify who Computer.shutdown).setStage who .stopping := by
  refine if_neg fun hreboot => ?_
  change ((h.reportBootFailure who e).modify who Computer.shutdown).runState? who = _ at hreboot
  rw [runState?_shutdown] at hreboot
  obtain ⟨_, _, hstopped⟩ := Option.map_eq_some_iff.mp hreboot
  cases hstopped

theorem makes_judge {ending : Ending} (hs : h.stage? who = some (.ended ending)) :
    ∃ xs, Makes who h xs (h.judge who ending) := by
  cases ending with
  | ordinary =>
    by_cases hr : h.runState? who = some .rebooting
    · have hjudge : h.judge who .ordinary =
          (h.modify who (·.setPhase .rebooting)).setStage who .betweenBoots :=
        if_pos hr
      rw [hjudge]
      exact ⟨[], makes_of_changes hs (.goesOn hr) (quiet_setPhase ..).comes rfl⟩
    · have hjudge : h.judge who .ordinary = h.setStage who .stopping := if_neg hr
      rw [hjudge]
      exact ⟨[], makes_of_quiet hs (.refl _ h) (.refl who h) (.isOver hr)⟩
  | failed e =>
    have hshut : Comes h [.shutdown who]
        ((h.reportBootFailure who e).modify who Computer.shutdown) :=
      (quiet_reportBootFailure h who e).comes_of (comes_on (.shutdown who) _)
    have hk : Keeps who h ((h.reportBootFailure who e).modify who Computer.shutdown) :=
      (keeps_reportBootFailure h who e).trans (keeps_modify Computer.grows_shutdown _ who)
    rw [judge_failed]
    exact ⟨_, makes_of_changes hs .failed hshut ((hk.stage _ hs).trans hs.symm)⟩
  | panicked detail =>
    have hshut : Comes h [.shutdown who] ((h.showDialog ((h.terminalOf? who).map (·.1))
        "Uncaught Exception" (panicMessage detail)).modify who Computer.shutdown) :=
      (quiet_showDialog ..).comes_of (comes_on (.shutdown who) _)
    have hk : Keeps who h (((h.showDialog ((h.terminalOf? who).map (·.1)) "Uncaught Exception"
        (panicMessage detail)).modify who Computer.shutdown).closeConnections who) :=
      ((keeps_showDialog ..).trans (keeps_modify Computer.grows_shutdown _ who)).trans
        (keeps_closeConnections ..)
    exact ⟨_, makes_of_changes hs .panicked (hshut.trans (comes_on (.disconnectAll who) _))
      ((hk.stage _ hs).trans hs.symm)⟩

theorem quiet_bootStep_of_not_clears {step : BootStep} {session : Option Session}
    (hclear : ¬(step = .clearEvents ∧ session.isSome = true)) (h : Host) (who : Handle) :
    Quiet h (h.bootStep who session step).2 := by
  by_cases hstep : step = .clearEvents
  · subst hstep
    cases session with
    | none => exact .refl _ h
    | some session => exact absurd ⟨rfl, rfl⟩ hclear
  · exact quiet_bootStep h who session hstep

theorem makes_of_moves (hs : h.stage? who = some stage) (hm : Moves who h stage h') :
    ∃ xs, Makes who h xs h' := by
  have hself (stage' : Stage) (hl : Leads who h stage [] stage') :
      ∃ xs, Makes who h xs (h.setStage who stage') :=
    ⟨[], makes_of_quiet hs (.refl _ h) (.refl who h) hl⟩
  cases hm with
  | boots => exact makes_beginBoot hs
  | lacksState => exact hself _ .lacksState
  | enters => exact hself _ .enters
  | @prepares step todo session session' h₁ hb =>
    by_cases hclear : step = .clearEvents ∧ session.isSome = true
    · obtain ⟨rfl, hsome⟩ := hclear
      obtain ⟨session, rfl⟩ := Option.isSome_iff_exists.mp hsome
      cases hb
      exact ⟨_, makes_of_changes hs .clears (comes_on (.setQueue who []) h) rfl⟩
    · have hquiet := quiet_bootStep_of_not_clears hclear h who
      have hkeep := keeps_bootStep_of_not_clears hclear h who who
      rw [hb] at hquiet hkeep
      exact ⟨[], makes_of_quiet hs hquiet hkeep .prepares⟩
  | @bootFails step todo session e h₁ hb =>
    have hclear := not_clears_of_error hb
    have hquiet := quiet_bootStep_of_not_clears hclear h who
    have hkeep := keeps_bootStep_of_not_clears hclear h who who
    rw [hb] at hquiet hkeep
    exact ⟨[], makes_of_quiet hs hquiet hkeep .bootFails⟩
  | resumes hr =>
    obtain ⟨asked, ha, hruns⟩ := runs_resume h who _ _ _
    exact makes_of_runs hs (.resuming hr) ha hruns
  | declines hr => exact hself _ (.declines hr)
  | executes =>
    obtain ⟨asked, ha, hruns⟩ := runs_afterLine h who _ _ _
    exact makes_of_runs hs .executing ha hruns
  | @letGo session program request device warned h₁ hp =>
    have hruns := (runs_afterReply h₁ who session program warned request (.results [])).of_quiet
      (quiet_takePermit? hp) (keeps_takePermit? hp)
    exact makes_of_runs hs .held (fun x hx => absurd hx List.not_mem_nil) hruns
  | suspends hr => exact hself _ (.suspends hr)
  | quits hr => exact hself _ (.quits hr)
  | takes hq hp => exact ⟨_, makes_of_changes hs (.takes hq hp) (comes_on (.setQueue who _) h) rfl⟩
  | drops hq hp => exact ⟨_, _, _, hs, .drops hq hp, comes_on (.setQueue who _) h, hs⟩
  | interrupted hq hr => exact hself _ (.interrupted hq hr)
  | timesOut _ hq hd => exact makes_timeOut hs hq hd
  | @leaves session ending =>
    have hk : Keeps who h (h.leave who session) := keeps_leave ..
    cases session with
    | none => exact ⟨[], makes_of_quiet hs (.refl _ h) hk .leavesNothing⟩
    | some session =>
      exact ⟨_, makes_of_changes hs .leaves (comes_leave ..) ((hk.stage _ hs).trans hs.symm)⟩
  | judges => exact makes_judge hs
  | windsUp =>
    -- The update is one change, `finish`, and a phase, which nobody else sees.
    have hfinish : Comes h [.finish who] (h.modify who fun c => c.finish.setPhase .stopped) := by
      have hmodify := modify_modify (fun c => (Computer.grows_finish c).handle)
        (·.setPhase .stopped) h who
      rw [← hmodify]
      exact (comes_on (.finish who) h).quiet (quiet_setPhase ..)
    exact ⟨_, makes_of_changes hs .windsUp hfinish rfl⟩
  | isDone => exact hself _ .isDone
  | @tearsDown step todo =>
    have hk : Keeps who h (h.teardownStep who step) := keeps_teardownStep ..
    exact ⟨_, makes_of_changes hs .tearsDown (comes_on (.teardown who step) h)
      ((hk.stage _ hs).trans hs.symm)⟩

/-- A step of the thread of `who` comes to changes that `Leads` allows. -/
theorem makes_of_step (hs : Step h (some who) h') : ∃ xs, Makes who h xs h' := by
  cases hs with
  | moves hm =>
    obtain ⟨stage, hs, hmoves⟩ := exists_moves_of_move? hm
    exact makes_of_moves hs hmoves
  | enters hstage hr ha =>
    obtain ⟨asked, hasked, hruns⟩ := runs_of_acts ha
    exact makes_of_runs hstage (.resuming hr) hasked hruns
  | executes hstage ha =>
    obtain ⟨asked, hasked, hruns⟩ := runs_of_acts ha
    exact makes_of_runs hstage .executing hasked hruns
  | letGo hstage hp ha =>
    obtain ⟨asked, hasked, hruns⟩ := runs_of_acts ha
    exact makes_of_runs hstage .held hasked
      (.of_quiet (quiet_takePermit? hp) (keeps_takePermit? hp) hruns)
  | expires hstage _ hq hd => exact makes_timeOut hstage hq hd

end

end Host

end ComputerHost
