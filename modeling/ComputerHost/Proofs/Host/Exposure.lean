import ComputerHost.Proofs.Host.Hooks
import ComputerHost.Proofs.Host.Scope

/-!
# What a boot exposes

A boot opens the libraries that the configuration allows into a fresh state, each with the functions that
are allowed, and sets globals there; its program adds nothing. When the boot has ended, the libraries that
it opened are told so once. The thread does that at one moment, which no end of a boot goes around.

`Shows` says what can be seen in a session, and `Progress` is the invariant of one boot, from its
beginning to the beginning of the next one.

Results:
1. `journal_of_works`, `deinitsOf_of_works`: who tells libraries.
2. `shows_stepInSession`: one move of a boot.
3. `carried_of_moves`, `within_of_moves`: one move of the thread.
4. `Journey.progress`, `boot_exposes`: whole boots.
-/

namespace ComputerHost

/-- Has a boot failed before it opened libraries? -/
def Ending.isEarly : Ending → Bool
  | .failed (.state _) => true
  | _ => false

/-- What the moves of a boot open: libraries with functions. -/
def openedBy (moves : List BootStep) : List (Library × List String) :=
  moves.filterMap fun
    | .openLibrary l surfaces => some (l, surfaces)
    | _ => none

/-- The moves of a boot from its coroutine to its program. -/
def bootMiddle (config : HostConfig) (isDebugger : Bool) (libraries : List Library) : List BootStep :=
  let caps := CapabilitySet.resolve config isDebugger
  [.clearEvents, .reinitializePeripherals, .bindComputer, .openBase] ++
  (Library.opened libraries caps).map (fun (l, surfaces) => .openLibrary l surfaces) ++
  (if config.vanilla then [] else [.showPluginFailures, .loadPlugins]) ++
  [.setGlobals] ++
  (if config.standardsMode then [.chooseLoader] else [])

/-- A move that needs a state and does not fail. -/
def BootStep.isPlain : BootStep → Bool
  | .resetTerminal | .openState | .openCoroutine | .loadBios => false
  | _ => true

theorem isPlain_of_mem_bootMiddle {config : HostConfig} {isDebugger : Bool}
    {libraries : List Library} {step : BootStep} (hs : step ∈ bootMiddle config isDebugger libraries) :
    step.isPlain = true := by
  have hplugins (hs : step ∈ if config.vanilla then [] else [.showPluginFailures, .loadPlugins]) :
      step.isPlain = true := by
    split at hs
    · cases hs
    · rcases List.mem_pair.mp hs with rfl | rfl <;> rfl
  have hloader (hs : step ∈ if config.standardsMode then [.chooseLoader] else []) :
      step.isPlain = true := by
    split at hs
    · obtain rfl := List.mem_singleton.mp hs
      rfl
    · cases hs
  unfold bootMiddle at hs
  simp only [List.mem_append, List.mem_cons, List.mem_map, List.not_mem_nil, or_false] at hs
  rcases hs with (((hs | ⟨_, -, rfl⟩) | hs) | rfl) | hs
  · rcases hs with rfl | rfl | rfl | rfl <;> rfl
  · rfl
  · exact hplugins hs
  · rfl
  · exact hloader hs

theorem openedBy_append (moves moves' : List BootStep) :
    openedBy (moves ++ moves') = openedBy moves ++ openedBy moves' :=
  List.filterMap_append

theorem openedBy_bootMiddle (config : HostConfig) (isDebugger : Bool) (libraries : List Library) :
    openedBy (bootMiddle config isDebugger libraries) =
      Library.opened libraries (CapabilitySet.resolve config isDebugger) := by
  have hopened (ls : List (Library × List String)) :
      openedBy (ls.map fun (l, surfaces) => .openLibrary l surfaces) = ls := by
    simp [openedBy, List.filterMap_map]
  have hplugins : openedBy (if config.vanilla then [] else [.showPluginFailures, .loadPlugins]) = [] := by
    split <;> rfl
  have hloader : openedBy (if config.standardsMode then [.chooseLoader] else []) = [] := by
    split <;> rfl
  unfold bootMiddle
  simp only [openedBy_append, hopened, hplugins, hloader]
  simp [openedBy]

/-- The stages from the end of one boot to the beginning of the next. -/
def Stage.isBetween : Stage → Bool
  | .ended _ | .betweenBoots | .stopping | .tearingDown _ | .gone => true
  | _ => false

theorem Stage.session?_of_isBetween {stage : Stage} (hb : stage.isBetween = true) :
    stage.session? = none := by
  cases stage with
  | ended | betweenBoots | stopping | tearingDown | gone => rfl
  | _ => cases hb

/-- The same can be seen in another session. -/
structure Session.Same (s s' : Session) : Prop where
  opened : s'.opened = s.opened
  libraries : s'.interpreter.libraries = s.interpreter.libraries
  globals : s'.interpreter.globals = s.interpreter.globals

theorem Session.Same.refl (s : Session) : s.Same s := ⟨rfl, rfl, rfl⟩

namespace Host

/-- The libraries that were told for `who` that a boot has ended, in order. -/
def deinitsOf (h : Host) (who : Handle) : List Library :=
  h.journal.filterMap fun e => if e.owner = some who then e.deed.library? else none

/-- The libraries that are allowed, in the order of the host, each with the functions that are. -/
def exposable (h : Host) (isDebugger : Bool) : List (Library × List String) :=
  let caps := CapabilitySet.resolve h.config isDebugger
  (h.setup.libraries.filter (caps.allows ·.requires)).map fun l =>
    (l, (l.surfaces.filter (caps.allows ·.requires)).map (·.name))

/-- What can be seen in a session of `who` since `b`: these libraries, each with its functions, and globals
that were set since then. -/
structure Shows (who : Handle) (b h : Host) (ls : List (Library × List String)) (s : Session) :
    Prop where
  opened : s.opened = ls.map (·.1)
  libraries : s.interpreter.libraries = ls.map fun (l, surfaces) => (l.name, surfaces)
  globals : ∀ g ∈ s.interpreter.globals, ∃ e ∈ h.journal.drop b.journal.length,
    e.owner = some who ∧ ∃ bound, e.deed = .engine (.setGlobal g.1 g.2) bound

/-- The thread cleans up after a boot. -/
def Leaves (who : Handle) (session : Option Session) (ending : Ending) (o : Moment) : Prop :=
  o.mover = some who ∧ o.before.stage? who = some (.leaving session ending)

/-- The end of a boot of `who` that began at `b`: the libraries that it opened were told since, in order, and
no other one. That is all libraries that were allowed, or none if the boot failed before. -/
structure Tells (who : Handle) (b : Host) (allowed : List Library) (h : Host) (session : Option Session)
    (ending : Ending) (o : Moment) : Prop where
  opened : (session.map (·.opened)).getD [] = if ending.isEarly then [] else allowed
  before : o.before.deinitsOf who = b.deinitsOf who
  since : h.deinitsOf who = b.deinitsOf who ++ (session.map (·.opened)).getD []

/-- What can be seen of a boot of `who` that began at `b` and may open these libraries, each with these
functions. -/
structure Exposes (who : Handle) (b : Host) (allowed : List (Library × List String))
    (trace : List Moment) (h : Host) : Prop where
  /-- The libraries are opened in order, and all are open when the program is entered. -/
  shows : ∀ stage s, h.stage? who = some stage → stage.session? = some s →
    ∃ ls, ls <+: allowed ∧ Shows who b h ls s ∧ (stage.isInProgram = true → ls = allowed)
  /-- As long as the boot has not ended no library is told. -/
  waits : (∀ o ∈ trace, ∀ session ending, ¬Leaves who session ending o) →
    h.deinitsOf who = b.deinitsOf who
  tells : ∀ o ∈ trace, ∀ session ending, Leaves who session ending o →
    Tells who b (allowed.map (·.1)) h session ending o
  /-- Every boot ends so. -/
  ends : ∀ stage, h.stage? who = some stage → stage.isBetween = true →
    ∃ o ∈ trace, ∃ session ending, Leaves who session ending o

section
variable {sc : Scope} {who w : Handle} {b h h' h₀ h₁ : Host} {ls : List (Library × List String)}
  {s s' : Session} {stage : Stage} {mover : Option Handle}

/-! ## 1. Who tells libraries -/

/-- What is written down while something is done for a computer, or for nobody: only in the scope that may
are libraries told, and for that computer. -/
def Writes (sc : Scope) (h h' : Host) : Prop :=
  ∃ added, h'.journal = h.journal ++ added ∧ ∀ e ∈ added, ∀ w l,
    e.owner = some w → e.deed.library? = some l → sc.leaves ∧ sc.who = some w

theorem Writes.of_eq (heq : h'.journal = h.journal) : Writes sc h h' :=
  ⟨[], by rw [heq, List.append_nil], by simp⟩

theorem Writes.trans (hw : Writes sc h h₁) (hw' : Writes sc h₁ h') : Writes sc h h' := by
  obtain ⟨added, hj, hadded⟩ := hw
  obtain ⟨added', hj', hadded'⟩ := hw'
  refine ⟨added ++ added', by rw [hj', hj, List.append_assoc], ?_⟩
  rw [List.forall_mem_append]
  exact ⟨hadded, hadded'⟩

/-- What is written down for a computer that has no handle yet. -/
theorem writes_create (sc : Scope) (h : Host) (id : UInt32) (isDebugger : Bool) :
    Writes sc h (h.create id isDebugger).2 := by
  rcases hc : h.create id isDebugger with ⟨e | w, h'⟩
  · obtain ⟨entries, hjournal, hnone⟩ := (aborts_of_create_error hc).1.journal
    refine ⟨entries, hjournal, fun e he w l hw => ?_⟩
    cases (hnone e he).symm.trans hw
  · obtain ⟨-, terminal, mounts, config, tree, -, -, heq⟩ := made_of_create_ok hc
    rw [heq]
    exact .of_eq rfl

theorem writes_spawn (h : Host) (id : UInt32) (isDebugger : Bool) :
    Writes sc h (h.spawn id isDebugger).2 := by
  have hcreate := writes_create sc h id isDebugger
  unfold spawn
  split
  · next hc =>
    rw [hc] at hcreate
    exact hcreate.trans (.of_eq rfl)
  · next hc =>
    rw [hc] at hcreate
    refine hcreate.trans (.of_eq ?_)
    unfold reportSpawnError
    split <;> rfl

theorem writes_of_touches (ht : Touches sc h h') : Writes sc h h' := by
  cases ht with
  | @deed w d hd =>
    refine ⟨_, rfl, fun e he w' l hw hl => ?_⟩
    obtain rfl := List.mem_singleton.mp he
    obtain rfl := Option.some.inj hw
    exact hd.resolve_left fun hnone => by rw [hnone] at hl; cases hl
  | transcript =>
    refine .of_eq ?_
    unfold log
    split
    · rfl
    · split <;> rfl
  | spawns => exact writes_spawn ..
  | other _ _ _ _ _ hj => exact .of_eq hj
  | _ => exact .of_eq rfl

theorem writes_of_works (hw : Works sc h h') : Writes sc h h' := by
  induction hw with
  | refl => exact .of_eq rfl
  | tail _ ht ih => exact ih.trans (writes_of_touches ht)

/-- The journal is only written on. -/
theorem journal_of_works (hw : Works sc h h') : h.journal <+: h'.journal := by
  obtain ⟨added, hj, -⟩ := writes_of_works hw
  exact ⟨added, hj.symm⟩

theorem deinitsOf_of_works (hw : Works sc h h') (hno : ¬sc.leaves ∨ sc.who ≠ some who) :
    h'.deinitsOf who = h.deinitsOf who := by
  obtain ⟨added, hj, hadded⟩ := writes_of_works hw
  unfold deinitsOf
  rw [hj, List.filterMap_append]
  refine (congrArg _ (List.filterMap_eq_nil_iff.mpr fun e he => ?_)).trans (List.append_nil _)
  split
  · next howner =>
    rw [Option.eq_none_iff_forall_ne_some]
    intro l hl
    obtain ⟨hleaves, hwho⟩ := hadded e he who l howner hl
    exact hno.elim (fun h => h hleaves) fun h => h hwho
  · rfl

/-- At the end of a boot the libraries that it opened are told. -/
theorem deinitsOf_leave (h : Host) (who : Handle) (session : Option Session) :
    (h.leave who session).deinitsOf who =
      h.deinitsOf who ++ (session.map (·.opened)).getD [] := by
  cases session with
  | none => simp [leave]
  | some s =>
    have hclose : (h.closeConnections who).deinitsOf who = h.deinitsOf who :=
      deinitsOf_of_works (works_closeConnections (Scope.covers_all who False False).reaches h)
        (.inl id)
    have htold (h : Host) (opened : List Library) :
        (opened.foldl (fun h l => h.note who (.deinitialized l)) h).deinitsOf who =
          h.deinitsOf who ++ opened := by
      induction opened generalizing h with
      | nil => simp
      | cons l opened ih =>
        have hone : (h.note who (.deinitialized l)).deinitsOf who = h.deinitsOf who ++ [l] := by
          simp [deinitsOf, note, Deed.library?]
        rw [List.foldl_cons, ih, hone, List.append_assoc, List.singleton_append]
    exact (htold ..).trans (by rw [hclose]; rfl)

/-! ## 2. One move of a boot -/

theorem Shows.of_same (hs : Shows who b h ls s) (hj : h.journal <+: h'.journal)
    (hsame : s.Same s') : Shows who b h' ls s' where
  opened := hsame.opened.trans hs.opened
  libraries := hsame.libraries.trans hs.libraries
  globals g hg := by
    obtain ⟨added, hadded⟩ := hj
    rw [hsame.globals] at hg
    obtain ⟨e, he, hset⟩ := hs.globals g hg
    refine ⟨e, ?_, hset⟩
    rw [← hadded, List.drop_append]
    exact List.mem_append_left _ he

theorem shows_setGlobal (hb : b.journal <+: h.journal) (hs : Shows who b h ls s) (name : String)
    (value : Value) : Shows who b (h.setGlobal who s name value).1 ls
      (h.setGlobal who s name value).2 where
  opened := hs.opened
  libraries := hs.libraries
  globals g hg := by
    have hadded : (h.setGlobal who s name value).1.journal.drop b.journal.length =
        h.journal.drop b.journal.length ++ [_] := List.drop_append_of_le_length hb.length_le
    rw [hadded]
    rcases List.mem_cons.mp hg with rfl | hg
    · exact ⟨_, List.mem_append_right _ (List.mem_singleton.mpr rfl), rfl, _, rfl⟩
    · obtain ⟨e, he, hset⟩ := hs.globals g (List.mem_of_mem_filter hg)
      exact ⟨e, List.mem_append_left _ he, hset⟩

theorem shows_setGlobals (hb : b.journal <+: h.journal) (hs : Shows who b h ls s)
    (globals : List (String × Value)) : Shows who b (h.setGlobals who s globals).1 ls
      (h.setGlobals who s globals).2 := by
  unfold setGlobals
  induction globals generalizing h s with
  | nil => exact hs
  | cons g later ih => exact ih (hb.trans ⟨_, rfl⟩) (shows_setGlobal hb hs g.1 g.2)

theorem shows_reinitialized (hb : b.journal <+: h.journal) (hs : Shows who b h ls s) (name : String) :
    Shows who b (h.reinitialize who s name).1 ls (h.reinitialize who s name).2 := by
  unfold reinitialize
  split
  · next d _ =>
    let told := (h.setPeripheral name
      (.device { d with reinitialized := d.reinitialized + 1 })).note who (.reinitialized name)
    have hnote : h.journal <+: told.journal := ⟨_, rfl⟩
    exact shows_setGlobals (hb.trans hnote) (hs.of_same hnote (.refl s)) d.globals
  · exact hs

theorem shows_reinitializeAll (hb : b.journal <+: h.journal) (hs : Shows who b h ls s)
    (names : List String) :
    Shows who b (names.foldl (fun (h, session) name => h.reinitialize who session name) (h, s)).1 ls
      (names.foldl (fun (h, session) name => h.reinitialize who session name) (h, s)).2 := by
  induction names generalizing h s with
  | nil => exact hs
  | cons name later ih =>
    have hwrites : h.journal <+: (h.reinitialize who s name).1.journal :=
      journal_of_works (works_reinitialized (s := .all none False False) trivial h who s)
    exact ih (hb.trans hwrites) (shows_reinitialized hb hs name)

theorem same_load {st st' : Script.Interpreter} {co : Nat} {source : ByteArray} {name : String}
    (hl : st.load co source name = .ok st') : st'.libraries = st.libraries ∧ st'.globals = st.globals := by
  unfold Script.Interpreter.load at hl
  cases hr : Script.Program.read source name with
  | error e => simp [hr, bind, Except.bind] at hl
  | ok program =>
    simp only [hr, bind, Except.bind] at hl
    split at hl
    · rw [← Except.ok.inj hl]
      exact ⟨rfl, rfl⟩
    · cases hl

/-- A move of a boot that has a state opens what it says. -/
theorem shows_stepInSession {step : BootStep} (hb : b.journal <+: h.journal)
    (hs : Shows who b h ls s) (hok : (h.stepInSession who s step).1 = .ok s') :
    Shows who b (h.stepInSession who s step).2 (ls ++ openedBy [step]) s' := by
  have hj : h.journal <+: (h.stepInSession who s step).2.journal :=
    journal_of_works (works_stepInSession (s := .all none False False) trivial
      (fun _ _ => trivial) s step)
  have hsame (hno : openedBy [step] = []) (hsame : s.Same s') :
      Shows who b (h.stepInSession who s step).2 (ls ++ openedBy [step]) s' := by
    rw [hno, List.append_nil]
    exact hs.of_same hj hsame
  have hset (hno : openedBy [step] = []) (hset : Shows who b (h.stepInSession who s step).2 ls s') :
      Shows who b (h.stepInSession who s step).2 (ls ++ openedBy [step]) s' := by
    rwa [hno, List.append_nil]
  cases step with
  | openCoroutine =>
    refine hsame rfl ?_
    change (h.openCoroutine who s).1 = _ at hok
    unfold openCoroutine at hok
    dsimp only at hok
    split at hok
    · cases hok
    · cases hok
      exact ⟨rfl, rfl, rfl⟩
  | reinitializePeripherals =>
    cases hok
    exact hset rfl (shows_reinitializeAll hb hs _)
  | showPluginFailures =>
    refine hset rfl ?_
    unfold stepInSession at hok ⊢
    dsimp only at hok ⊢
    split at hok
    · cases hok
      exact hs
    · cases hok
      exact shows_setGlobal hb hs ..
  | loadPlugins =>
    refine hset rfl ?_
    unfold stepInSession at hok ⊢
    dsimp only at hok ⊢
    split at hok
    · cases hok
      exact hs
    · cases hok
      have hnote : h.journal <+: (h.note who .pluginsLoaded).journal := ⟨_, rfl⟩
      exact shows_setGlobals (hb.trans hnote) (hs.of_same hnote (.refl s)) _
  | setGlobals =>
    cases hok
    exact hset rfl (shows_setGlobals hb hs (h.hostGlobals (h.terminalOf? who).isNone))
  | loadBios =>
    refine hsame rfl ?_
    change (h.loadBios who s).1 = _ at hok
    unfold loadBios at hok
    dsimp only at hok
    split at hok
    · cases hok
    · split at hok
      · next hl =>
        cases hok
        exact ⟨rfl, (same_load hl).1, (same_load hl).2⟩
      · cases hok
  | openLibrary l surfaces =>
    cases hok
    have hnext := hs.of_same hj (.refl s)
    refine ⟨?_, ?_, hnext.globals⟩
    · simp [openedBy, hs.opened]
    · simp [openedBy, Script.Interpreter.openLibrary, hs.libraries]
  | clearEvents | enterProgram | resetTerminal | openState | bindComputer | openBase
  | chooseLoader =>
    cases hok
    exact hsame rfl ⟨rfl, rfl, rfl⟩

/-! ## 3. One move of the thread -/

/-- Where a program that began with a session has brought the thread. -/
inductive Carries (s : Session) : Stage → Prop
  | runs {stage : Stage} {s' : Session} :
      stage.isInProgram = true → stage.session? = some s' → s.Same s' → Carries s stage
  | leaves {s' : Session} {ending : Ending} :
      ending.isEarly = false → s.Same s' → Carries s (.leaving (some s') ending)

/-- The thread is where the program has brought it. -/
def Carried (who : Handle) (s : Session) (h : Host) : Prop :=
  ∃ stage, h.stage? who = some stage ∧ Carries s stage

theorem carried_setStage {stage' : Stage} (hs : h.stage? who = some stage) (hc : Carries s stage') :
    Carried who s (h.setStage who stage') :=
  ⟨stage', stage?_setStage_self hs stage', hc⟩

theorem carried_afterTurn (hs : h.stage? who = some stage) (hsame : s.Same s')
    (program : Script.Program) (warned : Bool) (turn : Script.Turn) :
    Carried who s (h.afterTurn who s' program warned turn) := by
  cases turn with
  | next | ask => exact carried_setStage hs (.runs rfl rfl hsame)
  | suspend =>
    refine carried_setStage hs (.runs rfl rfl ?_)
    exact ⟨hsame.opened, hsame.libraries, hsame.globals⟩
  | panic => exact carried_setStage hs (.leaves rfl hsame)
  | finish =>
    exact carried_setStage ((keeps_programFinished h who).stage _ hs) (.leaves rfl hsame)
  | fail e =>
    exact carried_setStage ((keeps_programFailed h who e).stage _ hs) (.leaves rfl hsame)

theorem carried_afterReply (hs : h.stage? who = some stage) (hsame : s.Same s')
    (program : Script.Program) (warned : Bool) (request : Script.Request) (reply : Script.Reply) :
    Carried who s (h.afterReply who s' program warned request reply) := by
  have hlog : (h.log who.id (request.resolve reply).1).stage? who = some stage :=
    (keeps_log ..).stage _ hs
  have hhooks : s.Same { s' with interpreter := s'.interpreter.applyHooks reply.hookChanges } :=
    ⟨hsame.opened, hsame.libraries, hsame.globals⟩
  exact carried_afterTurn hlog hhooks ..

theorem carried_afterLine (hs : h.stage? who = some stage) (hsame : s.Same s') (warned : Bool)
    (line : List String × Script.Turn × Script.Program) :
    Carried who s (h.afterLine who s' warned line) := by
  obtain ⟨lines, turn, program⟩ := line
  have hlog : (h.log who.id lines).stage? who = some stage := (keeps_log ..).stage _ hs
  cases turn with
  | ask request =>
    have hserve : Keeps who (h.log who.id lines) _ := keeps_serve (h.log who.id lines) who request
    have hstage := hserve.stage _ hlog
    unfold afterLine
    dsimp only
    split
    · next hr =>
      rw [hr] at hstage
      exact carried_afterReply hstage hsame ..
    · next hr =>
      rw [hr] at hstage
      exact carried_setStage hstage (.runs rfl rfl hsame)
  | _ => exact carried_afterTurn hlog hsame ..

theorem carried_resume (hs : h.stage? who = some stage) (args : List Value) (warned : Bool) :
    Carried who s (h.resume who s args warned) := by
  have hnote : (h.noteCall who s (.resume args.length)).stage? who = some stage := hs
  have hfailed (e : ScriptError) : Carried who s
      (((h.noteCall who s (.resume args.length)).programFailed who e).setStage who
        (.leaving (some { s with resumes := s.resumes + 1 }) .ordinary)) :=
    carried_setStage ((keeps_programFailed ..).stage _ hnote) (.leaves rfl ⟨rfl, rfl, rfl⟩)
  unfold resume
  dsimp only
  split
  · exact hfailed _
  · split
    · exact hfailed _
    · next program interpreter htake =>
      have hsame : s.Same { s with interpreter, resumes := s.resumes + 1 } := by
        unfold Script.Interpreter.take at htake
        split at htake
        · cases htake
          exact ⟨rfl, rfl, rfl⟩
        · cases htake
      exact carried_afterLine hnote hsame ..

/-- One move of a program. -/
theorem carried_of_moves (hs : h.stage? who = some stage) (hin : stage.isInProgram = true)
    (hsession : stage.session? = some s) (hm : Moves who h stage h') : Carried who s h' := by
  have hsame := Session.Same.refl s
  cases hm with
  | resumes =>
    cases hsession
    exact carried_resume hs ..
  | executes =>
    cases hsession
    exact carried_afterLine hs hsame ..
  | letGo hp =>
    cases hsession
    exact carried_afterReply ((keeps_takePermit? hp).stage _ hs) hsame ..
  | suspends =>
    cases hsession
    exact carried_setStage hs (.runs rfl rfl hsame)
  | takes =>
    cases hsession
    exact carried_setStage (h := h.setQueue who _) hs (.runs rfl rfl hsame)
  | drops =>
    cases hsession
    exact ⟨_, hs, .runs rfl rfl hsame⟩
  | timesOut =>
    cases hsession
    unfold timeOut
    split
    · exact carried_setStage (h := h.modify who Computer.shutdown) hs (.runs rfl rfl hsame)
    · exact carried_setStage hs (.runs rfl rfl hsame)
  | declines | quits | interrupted =>
    cases hsession
    exact carried_setStage hs (.leaves rfl hsame)
  | boots | lacksState | enters | prepares | bootFails | leaves | judges | windsUp | isDone
  | tearsDown => cases hin

/-- Where a boot is that began at `b`, and what can be seen in its session. The moves from the coroutine to
the program are `middle`. -/
inductive Within (who : Handle) (b h : Host) (middle : List BootStep) : Stage → Prop
  | resets : Within who b h middle (.booting
      (.resetTerminal :: .openState :: .openCoroutine :: (middle ++ [.loadBios, .enterProgram])) none)
  | opens : Within who b h middle (.booting
      (.openState :: .openCoroutine :: (middle ++ [.loadBios, .enterProgram])) none)
  | creates {s : Session} : Shows who b h [] s → Within who b h middle (.booting
      (.openCoroutine :: (middle ++ [.loadBios, .enterProgram])) (some s))
  | prepares (moves : List BootStep) {todo : List BootStep} {s : Session} : middle = moves ++ todo →
      Shows who b h (openedBy moves) s →
      Within who b h middle (.booting (todo ++ [.loadBios, .enterProgram]) (some s))
  | isLoaded {todo : List BootStep} {s : Session} : todo <:+ [.enterProgram] →
      Shows who b h (openedBy middle) s → Within who b h middle (.booting todo (some s))
  | runs {stage : Stage} {s : Session} : stage.isInProgram = true → stage.session? = some s →
      Shows who b h (openedBy middle) s → Within who b h middle stage
  | leaves {s : Session} {ending : Ending} :
      Shows who b h (if ending.isEarly then [] else openedBy middle) s →
      Within who b h middle (.leaving (some s) ending)
  | leavesNothing {ending : Ending} : ending.isEarly = true →
      Within who b h middle (.leaving none ending)

/-- One move of a boot that has a state. -/
theorem shows_bootStep (step : BootStep) {todo : List BootStep} (hb : b.journal <+: h.journal)
    (hshows : Shows who b h ls s) (hreset : step ≠ .resetTerminal) (hopen : step ≠ .openState)
    (hs : h.stage? who = some (.booting (step :: todo) (some s)))
    (hm : Moves who h (.booting (step :: todo) (some s)) h') :
    (∃ s', h'.stage? who = some (.booting todo (some s')) ∧
        Shows who b h' (ls ++ openedBy [step]) s') ∨
      ∃ e, (h.stepInSession who s step).1 = .error e ∧
        h'.stage? who = some (.leaving (some s) (.failed e)) ∧ Shows who b h' ls s := by
  obtain ⟨stage', rfl, hs', hresult⟩ := stage_of_bootStep hs hm
  rw [bootStep_some hreset hopen] at hresult
  rw [snd_bootStep_some hreset hopen] at hs' ⊢
  rcases hresult with ⟨session', hok, rfl⟩ | ⟨e, herror, rfl⟩
  · cases hstep : (h.stepInSession who s step).1 with
    | error e => simp [hstep, Except.map] at hok
    | ok s' =>
      rw [hstep] at hok
      obtain rfl : some s' = session' := Except.ok.inj hok
      exact .inl ⟨s', hs', (shows_stepInSession hb hshows hstep).of_same (List.prefix_refl _) (.refl s')⟩
  · right
    cases hstep : (h.stepInSession who s step).1 with
    | ok s' => simp [hstep, Except.map] at herror
    | error e' =>
      rw [hstep] at herror
      obtain rfl : e' = e := Except.error.inj herror
      have hj : h.journal <+: (h.stepInSession who s step).2.journal :=
        journal_of_works (works_stepInSession (s := .all none False False) trivial
          (fun _ _ => trivial) s step)
      exact ⟨e', rfl, hs', hshows.of_same hj (.refl s)⟩

/-- Which moves of a boot fail, and how. -/
theorem error_stepInSession {step : BootStep} {e : BootError}
    (he : (h.stepInSession who s step).1 = .error e) :
    step.isPlain = false ∧
      ((step = .openCoroutine ∧ (Ending.failed e).isEarly = true) ∨
        (step = .loadBios ∧ (Ending.failed e).isEarly = false)) := by
  cases step with
  | openCoroutine =>
    change (h.openCoroutine who s).1 = _ at he
    unfold openCoroutine at he
    dsimp only at he
    split at he
    · cases he
      exact ⟨rfl, .inl ⟨rfl, rfl⟩⟩
    · cases he
  | loadBios =>
    change (h.loadBios who s).1 = _ at he
    unfold loadBios at he
    dsimp only at he
    split at he
    · next hread =>
      cases he
      unfold readBios at hread
      split at hread
      · cases hread
      · split at hread
        · cases hread
        · cases hread
          exact ⟨rfl, .inr ⟨rfl, rfl⟩⟩
    · split at he
      · cases he
      · cases he
        exact ⟨rfl, .inr ⟨rfl, rfl⟩⟩
  | showPluginFailures | loadPlugins =>
    unfold stepInSession at he
    dsimp only at he
    split at he <;> cases he
  | _ => cases he

/-- The state is opened. -/
theorem within_of_opens {middle : List BootStep}
    (hs : h.stage? who = some (.booting
      (.openState :: .openCoroutine :: (middle ++ [.loadBios, .enterProgram])) none))
    (hm : Moves who h (.booting
      (.openState :: .openCoroutine :: (middle ++ [.loadBios, .enterProgram])) none) h') :
    ∃ stage', h'.stage? who = some stage' ∧ Within who b h' middle stage' := by
  obtain ⟨stage', rfl, hs', hresult⟩ := stage_of_bootStep hs hm
  refine ⟨stage', hs', ?_⟩
  have hopen : (h.bootStep who none .openState).1 = h.openState.1.map some := rfl
  rw [hopen] at hresult
  unfold openState at hresult
  dsimp only at hresult
  split at hresult
  · obtain ⟨_, hok, -⟩ | ⟨_, herror, rfl⟩ := hresult
    · cases hok
    · cases herror
      exact .leavesNothing rfl
  · obtain ⟨_, hok, rfl⟩ | ⟨_, herror, -⟩ := hresult
    · cases hok
      exact .creates ⟨rfl, rfl, nofun⟩
    · cases herror

/-- What has been opened so far can be seen, and everything once the bios is loaded. -/
theorem within_of_prepares {middle moves todo : List BootStep}
    (hplain : ∀ step ∈ middle, step.isPlain = true) (hb : b.journal <+: h.journal)
    (heq : middle = moves ++ todo) (hshows : Shows who b h (openedBy moves) s)
    (hs : h.stage? who = some (.booting (todo ++ [.loadBios, .enterProgram]) (some s)))
    (hm : Moves who h (.booting (todo ++ [.loadBios, .enterProgram]) (some s)) h') :
    ∃ stage', h'.stage? who = some stage' ∧ Within who b h' middle stage' := by
  cases todo with
  | nil =>
    rw [List.append_nil] at heq
    rcases shows_bootStep .loadBios hb hshows nofun nofun hs hm with
      ⟨s', hs', hshows'⟩ | ⟨e, he, hs', hshows'⟩
    · refine ⟨_, hs', .isLoaded (List.suffix_refl _) ?_⟩
      rw [heq]
      simpa [openedBy] using hshows'
    · have hlate := (error_stepInSession he).2.resolve_left nofun
      exact ⟨_, hs', .leaves (by rwa [hlate.2, if_neg Bool.false_ne_true, heq])⟩
  | cons step todo =>
    have hstep : step.isPlain = true := hplain step (by simp [heq])
    have hreset : step ≠ .resetTerminal := by rintro rfl; cases hstep
    have hopen : step ≠ .openState := by rintro rfl; cases hstep
    rcases shows_bootStep step hb hshows hreset hopen hs hm with ⟨s', hs', hshows'⟩ | ⟨e, he, -, -⟩
    · refine ⟨_, hs', .prepares (moves ++ [step]) (by simp [heq]) ?_⟩
      rwa [openedBy_append]
    · rw [(error_stepInSession he).1] at hstep
      cases hstep

/-- One move of the thread before the boot has ended. -/
theorem within_of_moves {middle : List BootStep} (hplain : ∀ step ∈ middle, step.isPlain = true)
    (hb : b.journal <+: h.journal) (hw : Within who b h middle stage)
    (hnot : ∀ session ending, stage ≠ .leaving session ending) (hs : h.stage? who = some stage)
    (hm : Moves who h stage h') :
    ∃ stage', h'.stage? who = some stage' ∧ Within who b h' middle stage' := by
  cases hw with
  | resets =>
    obtain ⟨stage', -, hs', hresult⟩ := stage_of_bootStep hs hm
    rw [bootStep_resetTerminal] at hresult
    obtain ⟨_, hok, rfl⟩ | ⟨_, herror, -⟩ := hresult
    · cases hok
      exact ⟨_, hs', .opens⟩
    · cases herror
  | opens => exact within_of_opens hs hm
  | creates hshows =>
    rcases shows_bootStep .openCoroutine hb hshows nofun nofun hs hm with
      ⟨s', hs', hshows'⟩ | ⟨e, he, hs', hshows'⟩
    · exact ⟨_, hs', .prepares [] rfl hshows'⟩
    · have hearly := (error_stepInSession he).2.resolve_right nofun
      exact ⟨_, hs', .leaves (by rwa [hearly.2, if_pos rfl])⟩
  | prepares moves heq hshows => exact within_of_prepares hplain hb heq hshows hs hm
  | @isLoaded todo s hsuffix hshows =>
    cases todo with
    | nil =>
      cases hm with
      | enters =>
        exact ⟨_, stage?_setStage_self hs _,
          .runs rfl rfl (hshows.of_same (List.prefix_refl _) (.refl s))⟩
    | cons step todo =>
      obtain ⟨rfl, rfl⟩ : step = .enterProgram ∧ todo = [] := by
        simpa [List.suffix_cons_iff] using hsuffix
      rcases shows_bootStep .enterProgram hb hshows nofun nofun hs hm with
        ⟨s', hs', hshows'⟩ | ⟨e, he, -, -⟩
      · refine ⟨_, hs', .isLoaded (List.nil_suffix ..) ?_⟩
        simpa [openedBy] using hshows'
      · cases (error_stepInSession he).1
  | @runs _ s hin hsession hshows =>
    have hworks : Works (.all (some who) True True) h h' :=
      works_of_moves (Scope.covers_all ..) trivial (fits_of_open trivial who h) (.inl trivial) hs hm
    have hj : h.journal <+: h'.journal := journal_of_works hworks
    obtain ⟨stage', hs', hcarries⟩ := carried_of_moves hs hin hsession hm
    refine ⟨stage', hs', ?_⟩
    cases hcarries with
    | runs hin' hsession' hsame => exact .runs hin' hsession' (hshows.of_same hj hsame)
    | leaves hlate hsame =>
      refine .leaves ?_
      rw [hlate, if_neg Bool.false_ne_true]
      exact hshows.of_same hj hsame
  | leaves | leavesNothing => exact absurd rfl (hnot _ _)

/-! ## 4. Whole boots -/

/-- How far the boot has come that began at `b`. -/
inductive Progress (who : Handle) (b : Host) (middle : List BootStep) (trace : List Moment) (h : Host) :
    Prop
  | within {stage : Stage} : h.stage? who = some stage → Within who b h middle stage →
      b.journal <+: h.journal → h.deinitsOf who = b.deinitsOf who →
      (∀ o ∈ trace, ∀ session ending, ¬Leaves who session ending o) → Progress who b middle trace h
  | ended {stage : Stage} : h.stage? who = some stage → stage.isBetween = true →
      (∃ o ∈ trace, ∃ session ending, Leaves who session ending o) →
      (∀ o ∈ trace, ∀ session ending, Leaves who session ending o →
        Tells who b ((openedBy middle).map (·.1)) h session ending o) → Progress who b middle trace h

theorem Within.mono {middle : List BootStep} (hw : Within who b h middle stage)
    (hj : h.journal <+: h'.journal) : Within who b h' middle stage := by
  have hmono {ls : List (Library × List String)} {s : Session} (hs : Shows who b h ls s) :
      Shows who b h' ls s := hs.of_same hj (.refl s)
  cases hw with
  | resets => exact .resets
  | opens => exact .opens
  | creates hs => exact .creates (hmono hs)
  | prepares moves heq hs => exact .prepares moves heq (hmono hs)
  | isLoaded hsuffix hs => exact .isLoaded hsuffix (hmono hs)
  | runs hin hsession hs => exact .runs hin hsession (hmono hs)
  | leaves hs => exact .leaves (hmono hs)
  | leavesNothing he => exact .leavesNothing he

/-- The session at the end of a boot has opened everything, or nothing. -/
theorem Within.opened {middle : List BootStep} {session : Option Session} {ending : Ending}
    (hw : Within who b h middle (.leaving session ending)) :
    (session.map (·.opened)).getD [] =
      if ending.isEarly then [] else (openedBy middle).map (·.1) := by
  cases hw with
  | runs hin => cases hin
  | leavesNothing he => rw [if_pos he]; rfl
  | leaves hs =>
    refine hs.opened.trans ?_
    split <;> rfl

section
variable {middle : List BootStep} {trace : List Moment}

/-- What happens between two boots, or to others. -/
theorem Progress.ended_snoc {o : Moment} (hs' : h'.stage? who = some stage)
    (hbetween : stage.isBetween = true)
    (hends : ∃ o ∈ trace, ∃ session ending, Leaves who session ending o)
    (htells : ∀ o ∈ trace, ∀ session ending, Leaves who session ending o →
      Tells who b ((openedBy middle).map (·.1)) h session ending o)
    (hno : ∀ session ending, ¬Leaves who session ending o)
    (hdeinits : h'.deinitsOf who = h.deinitsOf who) : Progress who b middle (trace ++ [o]) h' := by
  obtain ⟨last, hlast, hleaves⟩ := hends
  refine .ended hs' hbetween ⟨last, List.mem_append_left _ hlast, hleaves⟩ ?_
  rw [List.forall_mem_append, List.forall_mem_singleton]
  refine ⟨fun o ho session ending hl => ?_, fun session ending hl => absurd hl (hno session ending)⟩
  obtain ⟨hopened, hbefore, hsince⟩ := htells o ho session ending hl
  exact ⟨hopened, hbefore, hdeinits.trans hsince⟩

theorem Progress.others (hk : Progress who b middle trace h) (hp : Passes h mover h')
    (hne : mover ≠ some who) : Progress who b middle (trace ++ [⟨h, mover, h'⟩]) h' := by
  have hworks : Works (.all mover True True) h h' := works_of_passes (.inl True.intro) hp
  have hdeinits : h'.deinitsOf who = h.deinitsOf who := deinitsOf_of_works hworks (.inr hne)
  have hlast (session : Option Session) (ending : Ending) : ¬Leaves who session ending ⟨h, mover, h'⟩ :=
    fun hl => hne hl.1
  have hj := journal_of_works hworks
  cases hk with
  | within hs hw hb hsame hno =>
    refine .within ((keeps_of_passes hp hne).stage _ hs) (hw.mono hj) (hb.trans hj)
      (hdeinits.trans hsame) ?_
    rw [List.forall_mem_append, List.forall_mem_singleton]
    exact ⟨hno, hlast⟩
  | ended hs hbetween hends htells =>
    exact .ended_snoc ((keeps_of_passes hp hne).stage _ hs) hbetween hends htells hlast hdeinits

theorem isBetween_of_leads {changes : List Change} {stage' : Stage}
    (hl : Leads who h stage changes stage') (hbetween : stage.isBetween = true)
    (hnot : stage ≠ .betweenBoots) : stage'.isBetween = true := by
  cases hl with
  | runs hin => cases hin <;> cases hbetween
  | begins | refuses => exact absurd rfl hnot
  | goesOn | isOver | failed | panicked | windsUp | tearsDown | isDone => rfl
  | _ => cases hbetween

/-- A step of the thread that is not the end of a boot. -/
theorem Progress.goesOn (hplain : ∀ step ∈ middle, step.isPlain = true)
    (hk : Progress who b middle trace h) (hm : h.move? who = some h')
    (hnot : ¬Boots who ⟨h, some who, h'⟩)
    (hno : ∀ session ending, h.stage? who ≠ some (.leaving session ending)) :
    Progress who b middle (trace ++ [⟨h, some who, h'⟩]) h' := by
  have hworks : Works (.all (some who) True False) h h' := works_of_step (.inr hno) (.moves hm)
  have hdeinits : h'.deinitsOf who = h.deinitsOf who := deinitsOf_of_works hworks (.inl id)
  have hlast (session : Option Session) (ending : Ending) :
      ¬Leaves who session ending ⟨h, some who, h'⟩ := fun hl => hno session ending hl.2
  cases hk with
  | within hs hw hb hsame hbefore =>
    obtain ⟨stage', hs', hw'⟩ := within_of_moves hplain hb hw
      (fun session ending heq => hno session ending (heq ▸ hs)) hs (moves_of_move? hs hm)
    refine .within hs' hw' (hb.trans (journal_of_works hworks)) (hdeinits.trans hsame) ?_
    rw [List.forall_mem_append, List.forall_mem_singleton]
    exact ⟨hbefore, hlast⟩
  | ended hs hbetween hends htells =>
    obtain ⟨changes, stage₁, stage', hs₁, hl, -, hs'⟩ := makes_of_step (.moves hm)
    obtain rfl := Option.some.inj (hs.symm.trans hs₁)
    have hbetween' := isBetween_of_leads hl hbetween fun heq => hnot ⟨rfl, heq ▸ hs⟩
    exact .ended_snoc hs' hbetween' hends htells hlast hdeinits

/-- The end of a boot. -/
theorem Progress.leaves {session : Option Session} {ending : Ending}
    (hk : Progress who b middle trace h) (hs : h.stage? who = some (.leaving session ending))
    (hm : h.move? who = some h') : Progress who b middle (trace ++ [⟨h, some who, h'⟩]) h' := by
  cases hk with
  | ended hs₁ hbetween =>
    cases hs.symm.trans hs₁
    cases hbetween
  | within hs₁ hw _ hsame hbefore =>
    cases hs.symm.trans hs₁
    have hopened := hw.opened
    obtain ⟨⟩ := moves_of_move? hs hm
    have hs' := stage?_setStage_self ((keeps_leave h who session).stage _ hs) (.ended ending)
    have hlast : (⟨h, some who, (h.leave who session).setStage who (.ended ending)⟩ : Moment) ∈
        trace ++ [⟨h, some who, (h.leave who session).setStage who (.ended ending)⟩] :=
      List.mem_append_right _ (List.mem_singleton.mpr rfl)
    refine .ended hs' rfl ⟨_, hlast, session, ending, rfl, hs⟩ ?_
    rw [List.forall_mem_append, List.forall_mem_singleton]
    refine ⟨fun o ho session ending hl => absurd hl (hbefore o ho session ending), ?_⟩
    rintro _ _ ⟨-, hl⟩
    cases hs.symm.trans hl
    exact ⟨hopened, hsame, (deinitsOf_leave ..).trans (by rw [hsame])⟩

theorem Journey.progress (hplain : ∀ step ∈ middle, step.isPlain = true) (hj : Journey h₀ trace h)
    (hloaded : Loaded who trace) (hnot : ∀ o ∈ trace, ¬Boots who o)
    (hk : Progress who b middle [] h₀) : Progress who b middle trace h := by
  induction hj with
  | refl => exact hk
  | @snoc past h h' mover _ hp ih =>
    unfold Loaded at hloaded
    rw [List.forall_mem_append, List.forall_mem_singleton] at hloaded hnot
    have hk' := ih hloaded.1 hnot.1
    by_cases hown : mover = some who
    · subst hown
      by_cases hleaving : ∃ session ending, h.stage? who = some (.leaving session ending)
      · obtain ⟨session, ending, hs⟩ := hleaving
        exact hk'.leaves hs (hloaded.2 rfl)
      · exact hk'.goesOn hplain (hloaded.2 rfl) hnot.2 fun session ending hs =>
          hleaving ⟨session, ending, hs⟩
    · exact hk'.others hp hown

/-- What can be seen while the boot has a session. -/
theorem Within.shows (hw : Within who b h middle stage) (hsession : stage.session? = some s) :
    ∃ ls, ls <+: openedBy middle ∧ Shows who b h ls s ∧
      (stage.isInProgram = true → ls = openedBy middle) := by
  cases hw with
  | resets | opens | leaves | leavesNothing => cases hsession
  | creates hs =>
    cases hsession
    exact ⟨[], List.nil_prefix, hs, nofun⟩
  | prepares moves heq hs =>
    cases hsession
    exact ⟨_, ⟨_, (heq ▸ openedBy_append moves _).symm⟩, hs, nofun⟩
  | isLoaded _ hs =>
    cases hsession
    exact ⟨_, List.prefix_refl _, hs, nofun⟩
  | runs _ hsession' hs =>
    cases hsession.symm.trans hsession'
    exact ⟨_, List.prefix_refl _, hs, fun _ => rfl⟩

theorem Progress.exposes (hk : Progress who b middle trace h) :
    Exposes who b (openedBy middle) trace h := by
  cases hk with
  | within hs hw _ hsame hno =>
    refine ⟨fun stage' s hs' hsession => ?_, fun _ => hsame,
      fun o ho session ending hl => absurd hl (hno o ho session ending), fun stage' hs' hbetween => ?_⟩
    · cases hs.symm.trans hs'
      exact hw.shows hsession
    · cases hs.symm.trans hs'
      cases hw with
      | runs _ hsession => cases (Stage.session?_of_isBetween hbetween).symm.trans hsession
      | _ => cases hbetween
  | ended hs hbetween hends htells =>
    obtain ⟨o, ho, session, ending, hl⟩ := hends
    refine ⟨fun stage' s hs' hsession => ?_, fun hno => absurd hl (hno o ho session ending), htells,
      fun _ _ _ => ⟨o, ho, session, ending, hl⟩⟩
    cases hs.symm.trans hs'
    cases (Stage.session?_of_isBetween hbetween).symm.trans hsession

end

/-- Where a boot begins. -/
theorem progress_beginBoot {c : Computer} {todo : List BootStep} {session : Option Session}
    (hc : b.computer? who = some c) (hs : b.stage? who = some .betweenBoots)
    (hm : b.move? who = some h) (hs' : h.stage? who = some (.booting todo session)) :
    Progress who b (bootMiddle b.config c.isDebugger b.setup.libraries) [] h := by
  have hworks : Works (.all (some who) True False) b h :=
    works_of_step (.inr fun _ _ hl => nomatch hs.symm.trans hl) (.moves hm)
  cases moves_of_move? hs hm
  obtain ⟨c', hc', -, heq⟩ | ⟨-, heq⟩ := beginBoot_cases b who
  · cases hc.symm.trans hc'
    rw [heq] at hworks ⊢
    exact .within (stage?_setStage_self hs _) .resets (journal_of_works hworks)
      (deinitsOf_of_works hworks (.inl id)) (by simp)
  · have hsame : (b.update who Computer.beginBoot false).2.stage? who = some .betweenBoots := by
      rw [update_frame]
      exact hs
    rw [heq] at hs'
    cases (stage?_setStage_self hsame _).symm.trans hs'

/-- A boot opens just the libraries that are allowed, in the order of the host, each with just the functions
that are allowed, in their order. Nothing can be seen in its state that an earlier boot has opened or set.
When it has ended, the libraries that it opened are told so, once and in the order in which they were opened:
all of them however it has ended, and none if it failed before. -/
theorem boot_exposes {c : Computer} {todo : List BootStep} {session : Option Session}
    {trace : List Moment} (hc : b.computer? who = some c) (hs : b.stage? who = some .betweenBoots)
    (hm : b.move? who = some h₀) (hs₀ : h₀.stage? who = some (.booting todo session))
    (hj : Journey h₀ trace h) (hloaded : Loaded who trace) (hnot : ∀ o ∈ trace, ¬Boots who o) :
    Exposes who b (b.exposable c.isDebugger) trace h := by
  have hmiddle : openedBy (bootMiddle b.config c.isDebugger b.setup.libraries) =
      b.exposable c.isDebugger := openedBy_bootMiddle ..
  rw [← hmiddle]
  exact (hj.progress (fun _ => isPlain_of_mem_bootMiddle) hloaded hnot
    (progress_beginBoot hc hs hm hs₀)).exposes

end

/-- Is a host met like this after so many moves of the thread, all before the end of a boot? -/
def comesTo (p : Host → Bool) (who : Handle) : Nat → Host → Bool
  | 0, h => p h
  | n + 1, h => (h.stage? who).all (!·.isBetween) && (h.move? who).any (comesTo p who n)

theorem exists_journey_of_comesTo {p : Host → Bool} {who : Handle} {n : Nat} {h : Host}
    (hc : comesTo p who n h = true) :
    ∃ trace h', Journey h trace h' ∧ Loaded who trace ∧ (∀ o ∈ trace, ¬Boots who o) ∧
      p h' = true := by
  induction n generalizing h with
  | zero => exact ⟨[], h, .refl, by simp [Loaded], by simp, hc⟩
  | succ n ih =>
    obtain ⟨hstage, hnext⟩ := Bool.and_eq_true_iff.mp hc
    obtain ⟨h₁, hm, hnext⟩ := (Option.any_eq_true _ _).mp hnext
    obtain ⟨trace, h', hj, hloaded, hnot, hp⟩ := ih hnext
    refine ⟨_, h', (Journey.refl.snoc (.step (.moves hm))).trans hj, ?_, ?_, hp⟩
    · unfold Loaded
      rw [List.nil_append, List.forall_mem_append, List.forall_mem_singleton]
      exact ⟨fun _ => hm, hloaded⟩
    · rw [List.nil_append, List.forall_mem_append, List.forall_mem_singleton]
      refine ⟨fun hb => ?_, hnot⟩
      rw [hb.2] at hstage
      cases hstage

def gatedHandle : Handle := ⟨1, 1⟩

/-- A library with a function for everybody and one that needs a capability. -/
def gatedLibrary : Library :=
  .builtIn "net" none (Library.plain ["ping"] ++ Library.gated .http ["request"])

/-- A host without the capability `http`. -/
def gatedHost : Host :=
  .new { HostSetup.standard { HostConfig.default with httpEnable := false } with
    bios := .embedded ""
    libraries := [gatedLibrary, .builtIn "http" (some .http) (Library.plain ["request"]), gatedLibrary] }
    ⟨[(["rom"], .directory)], []⟩ default

/-- Without the capability the library as a whole stays away, and so does the function that needs it. At the
end of the boot the other library, which the host has twice, is told twice. -/
theorem boot_exposes_gated :
    ∃ begun trace h, Journey begun trace h ∧
      Exposes gatedHandle (gatedHost.spawn 1 false).2
        [(gatedLibrary, ["ping"]), (gatedLibrary, ["ping"])] trace h ∧
      h.deinitsOf gatedHandle = [gatedLibrary, gatedLibrary] := by
  have hs : (gatedHost.spawn 1 false).2.stage? gatedHandle = some .betweenBoots := by rfl
  have hc : (((gatedHost.spawn 1 false).2.computer? gatedHandle).any fun c =>
      (gatedHost.spawn 1 false).2.exposable c.isDebugger ==
        [(gatedLibrary, ["ping"]), (gatedLibrary, ["ping"])]) = true := by decide +kernel
  have hm : (((gatedHost.spawn 1 false).2.move? gatedHandle).any fun begun =>
      ((begun.stage? gatedHandle).any Stage.isBooting) && comesTo
        (fun h => h.deinitsOf gatedHandle == [gatedLibrary, gatedLibrary]) gatedHandle 18 begun) =
      true := by decide +kernel
  obtain ⟨c, hc, hallowed⟩ := (Option.any_eq_true _ _).mp hc
  obtain ⟨begun, hm, hboot⟩ := (Option.any_eq_true _ _).mp hm
  obtain ⟨hbooting, hmoves⟩ := Bool.and_eq_true_iff.mp hboot
  obtain ⟨stage, hstage, hbooting⟩ := (Option.any_eq_true _ _).mp hbooting
  obtain ⟨todo, session, rfl⟩ : ∃ todo session, stage = .booting todo session := by
    cases stage with
    | booting todo session => exact ⟨todo, session, rfl⟩
    | _ => cases hbooting
  obtain ⟨trace, h, hj, hloaded, hnot, htold⟩ := exists_journey_of_comesTo hmoves
  have hexposes := boot_exposes hc hs hm hstage hj hloaded hnot
  rw [eq_of_beq hallowed] at hexposes
  exact ⟨begun, trace, h, hj, hexposes, eq_of_beq htold⟩

end Host

end ComputerHost
