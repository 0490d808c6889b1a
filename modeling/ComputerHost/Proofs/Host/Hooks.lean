import ComputerHost.Proofs.Host.Phase

/-!
# Hooks and breakpoints

The breakpoints belong to a computer and survive its reboots; the hooks belong to the state of one boot,
which begins without any. Only what the program of the boot asks for installs and removes them. So hooks
and breakpoints agree from the first breakpoint on that is set in a boot, and until then if there was none
when the boot began. For breakpoints that an earlier boot has left no hook is installed.

`InBoot` says that something has happened since the current boot began, and `Tracks` is the invariant.

Results:
1. `wanted_onHooks`: what a request makes of breakpoints and hooks.
2. `hooks_bootStep`, `minds_of_moves`: one move of a thread.
3. `Journey.tracks`, `hooks_follow_boot`: whole journeys.
-/

namespace ComputerHost

/-- The same hook, or none, on both targets. -/
def HookSet.both (hook : Option Hook) : HookSet := ⟨hook, hook⟩

/-- The hooks for breakpoints are installed if they are wanted, and no other hook is. -/
structure HookSet.Wanted (wanted : Prop) (s : HookSet) : Prop where
  installed : wanted → s = .both (some Hook.breakpoints)
  removed : ¬wanted → s = .both none

/-- The hooks after a request of the program. -/
def Script.Request.onHooks : Script.Request → BreakpointTable → HookSet → HookSet
  | .setBreakpoint source line, t, s => s.applyAll (t.set source line.toInt).2.2
  | .clearBreakpoint id, t, s => s.applyAll (t.clear id.toNat).2.2
  | _, _, s => s

/-- The hooks after the turn that follows a line of the program. -/
def Script.Turn.onHooks : Script.Turn → BreakpointTable → HookSet → HookSet
  | .ask request, t, s => request.onHooks t s
  | _, _, s => s

namespace Stage

/-- The session of a boot that has begun and not ended. -/
def session? : Stage → Option Session
  | .booting _ session => session
  | .resuming session _ _ | .executing session _ _ | .held session _ _ _ _
  | .suspended session _ _ | .waiting session _ _ _ => some session
  | _ => none

def isBooting : Stage → Bool
  | .booting _ _ => true
  | _ => false

end Stage

namespace Host

/-- The hooks in the session of `who`, while it has one. -/
def hooks? (h : Host) (who : Handle) : Option HookSet :=
  ((h.stage? who).bind Stage.session?).map (·.interpreter.hooks)

/-- The thread begins a boot, unless the computer was asked to stop. -/
def Boots (who : Handle) (o : Moment) : Prop :=
  o.mover = some who ∧ o.before.stage? who = some .betweenBoots

/-- A boot begins without breakpoints. -/
def BootsBare (who : Handle) (o : Moment) : Prop :=
  Boots who o ∧ ∃ t, o.before.table? who = some t ∧ t.isEmpty = true

/-- The computer has a breakpoint more than before. -/
def SetsBreakpoint (who : Handle) (o : Moment) : Prop :=
  ∃ t t', o.before.table? who = some t ∧ o.after.table? who = some t' ∧ t.size < t'.size

/-- Such a moment was there since the last boot began. -/
def InBoot (who : Handle) (P : Moment → Prop) (trace : List Moment) : Prop :=
  ∃ past o later, trace = past ++ o :: later ∧ P o ∧ ∀ o' ∈ later, ¬Boots who o'

/-- The program of `who` is the one that its boot has loaded. -/
def Loaded (who : Handle) (trace : List Moment) : Prop :=
  ∀ o ∈ trace, o.mover = some who → o.before.move? who = some o.after

/-- A move of a program comes to what its turn asks for: so for the breakpoints, and for the hooks of
the session that it leaves. -/
def Minds (who : Handle) (t : BreakpointTable) (s : HookSet) (turn : Script.Turn) (h' : Host) : Prop :=
  h'.table? who = some (turn.onTable t) ∧ ∃ stage', h'.stage? who = some stage' ∧
    stage'.isBooting = false ∧
    ∀ session, stage'.session? = some session → session.interpreter.hooks = turn.onHooks t s

section
variable {who : Handle} {h h' h₀ h₁ : Host} {t : BreakpointTable} {s : HookSet} {stage : Stage}
  {wanted : Prop} {trace : List Moment} {mover : Option Handle} {P : Moment → Prop}

/-! ## 1. Requests -/

theorem applyAll_onBoth (s : HookSet) (hook : Option Hook) :
    s.applyAll (BreakpointTable.onBoth hook) = .both hook := rfl

/-- Clearing a breakpoint removes the hooks if it was the last one. -/
theorem clear_cases (t : BreakpointTable) (id : Nat) : (t.clear id).2 = (t, []) ∨
    t.isEmpty = false ∧ (t.clear id).2.1.size ≤ t.size ∧
      (t.clear id).2.2 =
        if (t.clear id).2.1.isEmpty then BreakpointTable.onBoth none else [] := by
  unfold BreakpointTable.clear BreakpointTable.isEmpty BreakpointTable.size
  split
  · next hfound =>
    have hsome : t.entries.isEmpty = false := by
      obtain ⟨entry, he, -⟩ := List.any_eq_true.mp hfound
      exact List.isEmpty_eq_false_iff.mpr (List.ne_nil_of_mem he)
    refine .inr ⟨hsome, ?_⟩
    dsimp only
    split <;> exact ⟨List.length_filter_le .., rfl⟩
  · exact .inl rfl

theorem wanted_onHooks (turn : Script.Turn) (hw : s.Wanted (t.isEmpty = false ∧ wanted)) :
    (turn.onHooks t s).Wanted
      ((turn.onTable t).isEmpty = false ∧ (wanted ∨ t.size < (turn.onTable t).size)) := by
  have hsame : s.Wanted (t.isEmpty = false ∧ (wanted ∨ t.size < t.size)) := by simpa using hw
  cases turn with
  | ask request =>
    cases request with
    | setBreakpoint source line =>
      refine ⟨fun _ => rfl, fun hno => absurd ⟨?_, .inr ?_⟩ hno⟩
      · simp [Script.Turn.onTable, Script.Request.onTable, BreakpointTable.set, BreakpointTable.isEmpty]
      · simp [Script.Turn.onTable, Script.Request.onTable, BreakpointTable.set, BreakpointTable.size]
    | clearBreakpoint id =>
      show (s.applyAll (t.clear id.toNat).2.2).Wanted ((t.clear id.toNat).2.1.isEmpty = false ∧
        (wanted ∨ t.size < (t.clear id.toNat).2.1.size))
      rcases clear_cases t id.toNat with heq | ⟨hsome, hle, hchanges⟩
      · rw [heq]
        exact hsame
      · have hnot : ¬t.size < (t.clear id.toNat).2.1.size := Nat.not_lt.mpr hle
        rw [hchanges]
        cases hleft : (t.clear id.toNat).2.1.isEmpty with
        | true => exact ⟨fun hyes => Bool.noConfusion hyes.1, fun _ => applyAll_onBoth s none⟩
        | false => simpa [hsome, hnot, HookSet.applyAll] using hw
    | _ => exact hsame
  | _ => exact hsame

/-! ## 2. Moves of the thread -/

theorem hooks_load {st st' : Script.Interpreter} {co : Nat} {source : ByteArray} {name : String}
    (hl : st.load co source name = .ok st') : st'.hooks = st.hooks := by
  unfold Script.Interpreter.load at hl
  cases hr : Script.Program.read source name with
  | error e => simp [hr, bind, Except.bind] at hl
  | ok program =>
    simp only [hr, bind, Except.bind] at hl
    split at hl
    · rw [← Except.ok.inj hl]
    · cases hl

theorem hooks_setGlobals (h : Host) (who : Handle) (session : Session) (globals : List (String × Value)) :
    (h.setGlobals who session globals).2.interpreter.hooks = session.interpreter.hooks := by
  unfold setGlobals
  induction globals generalizing h session with
  | nil => rfl
  | cons g later ih => exact ih ..

theorem hooks_of_peripheral (h : Host) (who : Handle) (session : Session) (name : String) :
    (h.reinitialize who session name).2.interpreter.hooks = session.interpreter.hooks := by
  unfold reinitialize
  split
  · exact hooks_setGlobals ..
  · rfl

theorem hooks_of_peripherals (h : Host) (who : Handle) (session : Session) (names : List String) :
    (names.foldl (fun (h, session) name => h.reinitialize who session name)
      (h, session)).2.interpreter.hooks = session.interpreter.hooks := by
  induction names generalizing h session with
  | nil => rfl
  | cons name later ih => exact (ih ..).trans (hooks_of_peripheral ..)

/-- A boot leaves the hooks of its state alone. -/
theorem hooks_stepInSession {session session' : Session} {step : BootStep}
    (hb : (h.stepInSession who session step).1 = .ok session') :
    session'.interpreter.hooks = session.interpreter.hooks := by
  cases step with
  | openCoroutine =>
    change (h.openCoroutine who session).1 = _ at hb
    unfold openCoroutine at hb
    dsimp only at hb
    split at hb
    · cases hb
    · rw [← Except.ok.inj hb]
      rfl
  | reinitializePeripherals =>
    rw [← Except.ok.inj hb]
    exact hooks_of_peripherals ..
  | showPluginFailures =>
    unfold stepInSession at hb
    dsimp only at hb
    split at hb
    · rw [← Except.ok.inj hb]
    · rw [← Except.ok.inj hb]
      rfl
  | loadPlugins =>
    unfold stepInSession at hb
    dsimp only at hb
    split at hb
    · rw [← Except.ok.inj hb]
    · rw [← Except.ok.inj hb]
      exact hooks_setGlobals ..
  | setGlobals =>
    rw [← Except.ok.inj hb]
    exact hooks_setGlobals ..
  | loadBios =>
    change (h.loadBios who session).1 = _ at hb
    unfold loadBios at hb
    dsimp only at hb
    split at hb
    · cases hb
    · split at hb
      · next hl =>
        rw [← Except.ok.inj hb]
        exact hooks_load hl
      · cases hb
  | clearEvents | enterProgram | resetTerminal | openState => rw [← Except.ok.inj hb]
  | bindComputer | openBase | openLibrary | chooseLoader =>
    rw [← Except.ok.inj hb]
    rfl

/-- A boot installs no hooks. -/
theorem hooks_bootStep {session session' : Option Session} {step : BootStep}
    (hnone : ∀ s, session = some s → s.interpreter.hooks = .both none)
    (hb : (h.bootStep who session step).1 = .ok session') :
    ∀ s, session' = some s → s.interpreter.hooks = .both none := by
  rintro made rfl
  obtain ⟨-, hsame⟩ | ⟨_, heq, hmade⟩ := session_of_bootStep hb
  · exact hnone made hsame.symm
  cases heq
  rcases hmade with hopen | ⟨before, rfl, hstep⟩
  · unfold openState at hopen
    dsimp only at hopen
    split at hopen
    · cases hopen
    · rw [← Except.ok.inj hopen]
      rfl
  · exact (hooks_stepInSession hstep).trans (hnone before rfl)

theorem hookChanges_callLink (h : Host) (name : String) (l : Link) (method : String) :
    (h.callLink name l method).1.hookChanges = [] := by
  unfold callLink
  dsimp only
  split
  · rfl
  · rfl
  · split
    · rfl
    · split <;> rfl
  · rfl
  · rfl
  · rfl
  · rfl

/-- A call of a peripheral changes no hooks. -/
theorem hookChanges_call {side method : String} {args : List Value} {reply : Script.Reply}
    (hr : h.call who side method args = (.replied reply, h₁)) : reply.hookChanges = [] := by
  unfold call at hr
  dsimp only at hr
  split at hr
  · cases hr
    rfl
  · split at hr
    · cases hr
      rfl
    · split at hr
      · cases hr
        exact hookChanges_callLink ..
      · cases hr
        rfl
    · split at hr
      · cases hr
        rfl
      · cases hr
        rfl
      · cases hr
        rfl
      · split at hr
        · cases hr
          rfl
        · cases hr

/-- The reply to a request comes with its changes to hooks. -/
theorem hooks_of_serve {request : Script.Request} {reply : Script.Reply} (ht : h.table? who = some t)
    (hr : h.serve who request = (.replied reply, h₁)) (s : HookSet) :
    s.applyAll reply.hookChanges = request.onHooks t s := by
  obtain ⟨c, hc, rfl⟩ := Option.map_eq_some_iff.mp ht
  cases request with
  | setBreakpoint source line =>
    simp only [serve, update, hc] at hr
    cases hr
    rfl
  | clearBreakpoint id =>
    simp only [serve, update, hc] at hr
    cases hr
    rfl
  | call side method args => rw [hookChanges_call hr]; rfl
  | _ =>
    cases hr
    rfl

theorem hooks_of_serve_held {request : Script.Request} {device : String}
    (hr : h.serve who request = (.held device, h₁)) : request.onHooks t s = s := by
  cases request with
  | call => rfl
  | _ => cases hr

theorem minds_setStage {turn : Script.Turn} {stage' : Stage} (hs : h.stage? who = some stage)
    (ht : h.table? who = some (turn.onTable t)) (hbooting : stage'.isBooting = false)
    (hhooks : ∀ session, stage'.session? = some session →
      session.interpreter.hooks = turn.onHooks t s) : Minds who t s turn (h.setStage who stage') :=
  ⟨ht, stage', stage?_setStage_self hs stage', hbooting, hhooks⟩

theorem minds_afterTurn {turn : Script.Turn} {session : Session} (hs : h.stage? who = some stage)
    (ht : h.table? who = some (turn.onTable t))
    (hhooks : session.interpreter.hooks = turn.onHooks t s) (program : Script.Program) (warned : Bool)
    (after : Script.Turn) : Minds who t s turn (h.afterTurn who session program warned after) := by
  have hsame (session' : Session) (heq : some session = some session') :
      session'.interpreter.hooks = turn.onHooks t s := Option.some.inj heq ▸ hhooks
  cases after with
  | next | ask => exact minds_setStage hs ht rfl hsame
  | suspend =>
    refine minds_setStage hs ht rfl fun session' heq => ?_
    cases heq
    exact hhooks
  | panic => exact minds_setStage hs ht rfl nofun
  | finish =>
    exact minds_setStage ((keeps_programFinished h who).stage _ hs)
      ((spares_programFinished h who).table? ht) rfl nofun
  | fail e =>
    exact minds_setStage ((keeps_programFailed h who e).stage _ hs)
      ((spares_programFailed h who e).table? ht) rfl nofun

theorem minds_afterReply {turn : Script.Turn} {session : Session} {reply : Script.Reply}
    (hs : h.stage? who = some stage) (ht : h.table? who = some (turn.onTable t))
    (hhooks : session.interpreter.hooks.applyAll reply.hookChanges = turn.onHooks t s)
    (program : Script.Program) (warned : Bool) (request : Script.Request) :
    Minds who t s turn (h.afterReply who session program warned request reply) :=
  minds_afterTurn ((keeps_log ..).stage _ hs) ((spares_log ..).table? ht) hhooks ..

theorem minds_afterLine {session : Session} (hs : h.stage? who = some stage)
    (ht : h.table? who = some t) (warned : Bool) (line : List String × Script.Turn × Script.Program) :
    Minds who t session.interpreter.hooks line.2.1 (h.afterLine who session warned line) := by
  obtain ⟨lines, turn, program⟩ := line
  have hlog : (h.log who.id lines).stage? who = some stage := (keeps_log ..).stage _ hs
  have hlogTable : (h.log who.id lines).table? who = some t := (spares_log ..).table? ht
  cases turn with
  | ask request =>
    have hserve : Keeps who (h.log who.id lines) _ := keeps_serve (h.log who.id lines) who request
    have hstage := hserve.stage _ hlog
    have htable := (sets_serve (h.log who.id lines) who request).table? hlogTable
    unfold afterLine
    dsimp only
    split
    · next reply h₁ hr =>
      rw [hr] at hstage htable
      refine minds_afterReply hstage ?_ (hooks_of_serve hlogTable hr _) ..
      exact htable
    · next device h₁ hr =>
      rw [hr] at hstage htable
      refine minds_setStage hstage htable rfl fun session' heq => ?_
      cases heq
      exact (hooks_of_serve_held hr).symm
  | _ =>
    refine minds_afterTurn hlog ?_ rfl ..
    exact hlogTable

theorem hooks_take {st st' : Script.Interpreter} {co : Nat} {program : Script.Program}
    (hl : st.take co = .ok (program, st')) : st'.hooks = st.hooks := by
  unfold Script.Interpreter.take at hl
  split at hl
  · cases hl
    rfl
  · cases hl

theorem minds_resume {session : Session} (hs : h.stage? who = some stage)
    (ht : h.table? who = some t) (args : List Value) (warned : Bool) :
    ∃ turn, Minds who t session.interpreter.hooks turn (h.resume who session args warned) := by
  have hnote : (h.noteCall who session (.resume args.length)).stage? who = some stage := hs
  have htable : (h.noteCall who session (.resume args.length)).table? who = some t := ht
  have hfailed (e : ScriptError) (left : Session) :
      Minds who t session.interpreter.hooks .next
        (((h.noteCall who session (.resume args.length)).programFailed who e).setStage who
          (.leaving left .ordinary)) :=
    minds_setStage ((keeps_programFailed ..).stage _ hnote)
      ((spares_programFailed ..).table? htable) rfl nofun
  unfold resume
  dsimp only
  split
  · exact ⟨_, hfailed _ _⟩
  · split
    · exact ⟨_, hfailed _ _⟩
    · next program interpreter htake =>
      let entered : Session := { session with interpreter, resumes := session.resumes + 1 }
      have hhooks : entered.interpreter.hooks = session.interpreter.hooks := hooks_take htake
      have hline : Minds who t entered.interpreter.hooks _ _ :=
        minds_afterLine hnote htable warned (program.enter args)
      rw [hhooks] at hline
      exact ⟨_, hline⟩

/-- One move of a program. -/
theorem minds_of_moves {session : Session} (hs : h.stage? who = some stage)
    (hin : stage.isInProgram = true) (hsession : stage.session? = some session)
    (ht : h.table? who = some t) (hm : Moves who h stage h') :
    ∃ turn, Minds who t session.interpreter.hooks turn h' := by
  have hkept (h₁ : Host) {stage' : Stage} (hs₁ : h₁.stage? who = some stage)
      (ht₁ : h₁.table? who = some t) (hbooting : stage'.isBooting = false)
      (hsame : ∀ s', stage'.session? = some s' → s' = session) :
      ∃ turn, Minds who t session.interpreter.hooks turn (h₁.setStage who stage') :=
    ⟨.next, minds_setStage hs₁ ht₁ hbooting fun s' heq => by rw [hsame s' heq]; rfl⟩
  have hself (s' : Session) (heq : some session = some s') : s' = session :=
    (Option.some.inj heq).symm
  have hqueue (events : List Event) : (h.setQueue who events).table? who = some t :=
    (spares_modify (fun _ => by rfl) h who).table? ht
  cases hm with
  | resumes =>
    cases hsession
    exact minds_resume hs ht ..
  | executes =>
    cases hsession
    exact ⟨_, minds_afterLine hs ht ..⟩
  | letGo hp =>
    cases hsession
    -- A device that lets go answers with nothing, and so without changes to hooks.
    refine ⟨.next, minds_afterReply ((keeps_takePermit? hp).stage _ hs) ?_ rfl ..⟩
    exact (spares_takePermit? hp).table? ht
  | suspends =>
    cases hsession
    exact hkept h hs ht rfl hself
  | takes =>
    cases hsession
    exact hkept (h.setQueue who _) hs (hqueue _) rfl hself
  | drops =>
    cases hsession
    exact ⟨.next, hqueue _, _, hs, rfl, fun s' heq => by rw [hself s' heq]; rfl⟩
  | timesOut =>
    cases hsession
    unfold timeOut
    split
    · exact hkept (h.modify who Computer.shutdown) hs ((spares_shutdown ..).table? ht) rfl hself
    · exact hkept h hs ht rfl hself
  | declines | quits | interrupted => exact hkept h hs ht rfl nofun
  | boots | lacksState | enters | prepares | bootFails | leaves | judges | windsUp | isDone
  | tearsDown => cases hin

/-- A boot ends as it has begun, without hooks. -/
theorem hooks_of_booting {todo : List BootStep} {session : Option Session} {stage' : Stage}
    (hs : h.stage? who = some (.booting todo session))
    (hnone : ∀ s, session = some s → s.interpreter.hooks = .both none)
    (hm : Moves who h (.booting todo session) h') (hs' : h'.stage? who = some stage') :
    ∀ s, stage'.session? = some s → s.interpreter.hooks = .both none := by
  cases todo with
  | cons step todo =>
    obtain ⟨stage₁, rfl, hs₁, hresult⟩ := stage_of_bootStep hs hm
    obtain rfl := Option.some.inj (hs'.symm.trans hs₁)
    rcases hresult with ⟨session', hb, rfl⟩ | ⟨e, -, rfl⟩
    · exact hooks_bootStep hnone hb
    · nofun
  | nil =>
    cases hm with
    | lacksState =>
      cases (stage?_setStage_self hs _).symm.trans hs'
      nofun
    | enters =>
      cases (stage?_setStage_self hs _).symm.trans hs'
      exact hnone

/-! ## 3. Journeys -/

theorem inBoot_snoc (trace : List Moment) (o : Moment) :
    InBoot who P (trace ++ [o]) ↔ P o ∨ (InBoot who P trace ∧ ¬Boots who o) := by
  constructor
  · rintro ⟨past, o', later, heq, hP, hlater⟩
    rcases List.eq_nil_or_concat later with rfl | ⟨later, last, rfl⟩
    · obtain ⟨-, hlast⟩ := List.append_inj' heq rfl
      exact .inl (List.singleton_inj.mp hlast ▸ hP)
    · rw [List.concat_eq_append, ← List.cons_append, ← List.append_assoc] at heq
      obtain ⟨rfl, hlast⟩ := List.append_inj' heq rfl
      rw [List.concat_eq_append, List.forall_mem_append, List.forall_mem_singleton,
        ← List.singleton_inj.mp hlast] at hlater
      exact .inr ⟨⟨past, o', later, rfl, hP, hlater.1⟩, hlater.2⟩
  · rintro (hP | ⟨⟨past, o', later, rfl, hP, hlater⟩, hnot⟩)
    · exact ⟨trace, o, [], rfl, hP, by simp⟩
    · refine ⟨past, o', later ++ [o], by simp, hP, ?_⟩
      rw [List.forall_mem_append, List.forall_mem_singleton]
      exact ⟨hlater, hnot⟩

/-- The breakpoints of a computer and the hooks of its session, along a journey. -/
structure Tracks (who : Handle) (trace : List Moment) (h : Host) (stage : Stage)
    (t : BreakpointTable) : Prop where
  stage? : h.stage? who = some stage
  table? : h.table? who = some t
  booting : stage.isBooting = true → ¬InBoot who (SetsBreakpoint who) trace
  hooks : ∀ session, stage.session? = some session → session.interpreter.hooks.Wanted
    (t.isEmpty = false ∧ InBoot who (SetsBreakpoint who) trace)
  bare : InBoot who (BootsBare who) trace →
    t.isEmpty = true ∨ InBoot who (SetsBreakpoint who) trace

theorem setsBreakpoint_iff {t' : BreakpointTable} (ht : h.table? who = some t)
    (ht' : h'.table? who = some t') :
    SetsBreakpoint who ⟨h, mover, h'⟩ ↔ t.size < t'.size := by
  simp [SetsBreakpoint, ht, ht']

/-- What is not the beginning of a boot. -/
theorem inBoot_of_not_boots (trace : List Moment) {t' : BreakpointTable}
    (ht : h.table? who = some t) (ht' : h'.table? who = some t') (hnot : ¬Boots who ⟨h, mover, h'⟩) :
    (InBoot who (SetsBreakpoint who) (trace ++ [⟨h, mover, h'⟩]) ↔
      InBoot who (SetsBreakpoint who) trace ∨ t.size < t'.size) ∧
    (InBoot who (BootsBare who) (trace ++ [⟨h, mover, h'⟩]) ↔ InBoot who (BootsBare who) trace) := by
  have hbare : ¬BootsBare who ⟨h, mover, h'⟩ := fun hb => hnot hb.1
  simp [inBoot_snoc, setsBreakpoint_iff ht ht', hnot, hbare, or_comm]

/-- Whatever is not the beginning of a boot. -/
theorem Tracks.snoc {stage' : Stage} {t' : BreakpointTable} (hk : Tracks who trace h stage t)
    (hnot : ¬Boots who ⟨h, mover, h'⟩) (hs' : h'.stage? who = some stage')
    (ht' : h'.table? who = some t')
    (hbooting : stage'.isBooting = true → stage.isBooting = true ∧ t' = t)
    (hhooks : ∀ session, stage'.session? = some session → session.interpreter.hooks.Wanted
      (t'.isEmpty = false ∧ (InBoot who (SetsBreakpoint who) trace ∨ t.size < t'.size))) :
    Tracks who (trace ++ [⟨h, mover, h'⟩]) h' stage' t' := by
  obtain ⟨hsets, hbare⟩ := inBoot_of_not_boots trace hk.table? ht' hnot
  refine ⟨hs', ht', fun hb => ?_, fun session hsession => ?_, fun hb => ?_⟩
  · obtain ⟨hbefore, rfl⟩ := hbooting hb
    rw [hsets, not_or]
    exact ⟨hk.booting hbefore, Nat.lt_irrefl _⟩
  · rw [hsets]
    exact hhooks session hsession
  · rw [hsets]
    rcases hk.bare (hbare.mp hb) with hempty | hset
    · rcases Nat.lt_or_ge t.size t'.size with hlt | hle
      · exact .inr (.inr hlt)
      · left
        rw [BreakpointTable.isEmpty, List.isEmpty_iff, ← List.length_eq_zero_iff] at hempty ⊢
        exact Nat.le_zero.mp (hempty ▸ hle)
    · exact .inr (.inl hset)

theorem Tracks.others (hk : Tracks who trace h stage t) (hp : Passes h mover h')
    (hne : mover ≠ some who) : Tracks who (trace ++ [⟨h, mover, h'⟩]) h' stage t :=
  hk.snoc (fun hb => hne hb.1) ((keeps_of_passes hp hne).stage _ hk.stage?)
    ((spares_of_passes hp hne).table? hk.table?) (fun hb => ⟨hb, rfl⟩)
    fun session hsession => by simpa using hk.hooks session hsession

/-- A boot begins: whatever was set before it does not count any more. -/
theorem Tracks.boots (hk : Tracks who trace h .betweenBoots t) (hm : h.move? who = some h') :
    ∃ stage', Tracks who (trace ++ [⟨h, some who, h'⟩]) h' stage' t := by
  obtain ⟨changes, stage₁, stage', hs, hl, -, hs'⟩ := makes_of_step (.moves hm)
  obtain rfl := Option.some.inj (hk.stage?.symm.trans hs)
  obtain ⟨b, hsets, hb⟩ := sets_of_moves hs (moves_of_move? hs hm) hs'
  obtain rfl := hb rfl
  have ht' : h'.table? who = some t := hsets.table? hk.table?
  have hboots : Boots who ⟨h, some who, h'⟩ := ⟨rfl, hs⟩
  have hsession : stage'.session? = none := by
    cases hl with
    | runs hin => cases hin
    | begins | refuses => rfl
  have hno : ¬InBoot who (SetsBreakpoint who) (trace ++ [⟨h, some who, h'⟩]) := by
    simp [inBoot_snoc, setsBreakpoint_iff hk.table? ht', hboots]
  refine ⟨stage', hs', ht', fun _ => hno, fun session heq => by simp [hsession] at heq, fun hb => ?_⟩
  rw [inBoot_snoc] at hb
  obtain ⟨-, t₀, ht₀, hempty⟩ | ⟨-, hnot⟩ := hb
  · cases hk.table?.symm.trans ht₀
    exact .inl hempty
  · exact absurd hboots hnot

theorem over_of_leads {changes : List Change} {stage' : Stage} (hl : Leads who h stage changes stage')
    (hover : stage.isOver = true) : stage'.isBooting = false ∧ stage'.session? = none := by
  cases hl with
  | runs hin => cases hin <;> cases hover
  | leaves | leavesNothing | goesOn | isOver | failed | panicked | windsUp | tearsDown | isDone =>
    exact ⟨rfl, rfl⟩
  | _ => cases hover

/-- One step of the thread. -/
theorem Tracks.step (hk : Tracks who trace h stage t) (hm : h.move? who = some h') :
    ∃ stage' t', Tracks who (trace ++ [⟨h, some who, h'⟩]) h' stage' t' := by
  obtain ⟨changes, stage₁, stage', hs, hl, -, hs'⟩ := makes_of_step (.moves hm)
  obtain rfl := Option.some.inj (hk.stage?.symm.trans hs)
  -- Three cases: a boot begins, the program has its turn, or neither.
  by_cases hboots : stage = .betweenBoots
  · subst hboots
    obtain ⟨stage', hk'⟩ := hk.boots hm
    exact ⟨stage', t, hk'⟩
  have hnot : ¬Boots who ⟨h, some who, h'⟩ := fun hb => hboots (Option.some.inj (hs.symm.trans hb.2))
  by_cases hin : stage.isInProgram = true
  · obtain ⟨session, hsession⟩ : ∃ session, stage.session? = some session := by
      cases stage with
      | resuming | executing | held | suspended | waiting => exact ⟨_, rfl⟩
      | _ => cases hin
    obtain ⟨turn, ht', stage₁, hs₁, hbooting, hhooks⟩ :=
      minds_of_moves hs hin hsession hk.table? (moves_of_move? hs hm)
    obtain rfl := Option.some.inj (hs'.symm.trans hs₁)
    refine ⟨stage', turn.onTable t, hk.snoc hnot hs' ht' (fun hb => ?_) fun session' heq => ?_⟩
    · rw [hbooting] at hb
      cases hb
    · rw [hhooks session' heq]
      exact wanted_onHooks turn (hk.hooks session hsession)
  · obtain ⟨b, hsets, hb⟩ := sets_of_moves hs (moves_of_move? hs hm) hs'
    obtain rfl := hb (Bool.eq_false_iff.mpr hin)
    have ht' : h'.table? who = some t := hsets.table? hk.table?
    have hover (ho : stage.isOver = true) : stage'.isBooting = false ∧ stage'.session? = none :=
      over_of_leads hl ho
    refine ⟨stage', t, ?_⟩
    cases stage with
    | booting todo session =>
      have hno := hk.booting rfl
      have hnone (s : Session) (heq : session = some s) : s.interpreter.hooks = .both none :=
        (hk.hooks s heq).removed fun hwanted => hno hwanted.2
      refine hk.snoc hnot hs' ht' (fun _ => ⟨rfl, rfl⟩) fun s heq =>
        ⟨fun hwanted => ?_, fun _ => hooks_of_booting hs hnone (moves_of_move? hs hm) hs' s heq⟩
      exact absurd hwanted.2 (by simpa using hno)
    | leaving | ended | stopping | tearingDown | gone =>
      obtain ⟨hbooting, hsession⟩ := hover rfl
      exact hk.snoc hnot hs' ht' (fun hb => absurd hb (by simp [hbooting]))
        fun s heq => absurd heq (by simp [hsession])
    | betweenBoots => exact absurd rfl hboots
    | _ => exact absurd rfl hin

theorem Journey.tracks (hj : Journey h₀ trace h) (hloaded : Loaded who trace)
    (hk : Tracks who [] h₀ stage t) : ∃ stage' t', Tracks who trace h stage' t' := by
  induction hj with
  | refl => exact ⟨_, _, hk⟩
  | @snoc past h h' mover _ hp ih =>
    unfold Loaded at hloaded
    rw [List.forall_mem_append, List.forall_mem_singleton] at hloaded
    obtain ⟨stage', t', hk'⟩ := ih hloaded.1
    by_cases hown : mover = some who
    · subst hown
      exact hk'.step (hloaded.2 rfl)
    · exact ⟨_, _, hk'.others hp hown⟩

/-- In any boot of a computer the same hook or none is on both targets. It is the one that finds
breakpoints just if there are breakpoints and one of them was set in this boot. So if there was none when
the boot began, it is installed exactly while there are breakpoints; those that are left from an earlier
boot find no hook until another one is set. -/
theorem hooks_follow_boot (hs₀ : h₀.stage? who = some .betweenBoots)
    (hc : (h₀.computer? who).isSome = true) (hj : Journey h₀ trace h) (hloaded : Loaded who trace)
    (hh : h.hooks? who = some s) :
    ∃ t, h.table? who = some t ∧
      s.Wanted (t.isEmpty = false ∧ InBoot who (SetsBreakpoint who) trace) ∧
      (InBoot who (BootsBare who) trace → s.Wanted (t.isEmpty = false)) := by
  obtain ⟨c, hc⟩ := Option.isSome_iff_exists.mp hc
  obtain ⟨session, hsession, rfl⟩ := Option.map_eq_some_iff.mp hh
  obtain ⟨stage, hs, hsession⟩ := Option.bind_eq_some_iff.mp hsession
  have hnothing {P : Moment → Prop} : ¬InBoot who P [] := by simp [InBoot]
  have hstart : Tracks who [] h₀ .betweenBoots c.breakpoints :=
    ⟨hs₀, by rw [Host.table?, hc]; rfl, nofun, nofun, fun hb => absurd hb hnothing⟩
  obtain ⟨stage', t, hk⟩ := hj.tracks hloaded hstart
  obtain rfl := Option.some.inj (hs.symm.trans hk.stage?)
  obtain ⟨hinstalled, hremoved⟩ := hk.hooks session hsession
  refine ⟨t, hk.table?, ⟨hinstalled, hremoved⟩, fun hbare => ?_⟩
  refine ⟨fun hsome => hinstalled ⟨hsome, ?_⟩, fun hno => hremoved fun hwanted => hno hwanted.1⟩
  refine (hk.bare hbare).resolve_left fun hempty => ?_
  simp [hempty] at hsome

end

/-- Are there breakpoints, and are these the hooks? -/
def isHooked (h : Host) (who : Handle) (s : HookSet) : Bool :=
  (h.table? who).any (!·.isEmpty) && h.hooks? who == some s

/-- If so many moves of the thread bring it to where there are breakpoints, there is such a journey. -/
theorem exists_journey_hooked {who : Handle} {n : Nat} {h : Host} {s : HookSet}
    (hm : (h.moveOn? who n).any (·.2.isHooked who s) = true) :
    ∃ trace h' t, Journey h trace h' ∧ Loaded who trace ∧ h'.table? who = some t ∧
      t.isEmpty = false ∧ h'.hooks? who = some s := by
  obtain ⟨⟨history, h'⟩, hmoves, hend⟩ := (Option.any_eq_true _ _).mp hm
  obtain ⟨htable, hhooks⟩ := Bool.and_eq_true_iff.mp hend
  obtain ⟨trace, hj, hmoved⟩ := journey_of_moveOn? hmoves
  obtain ⟨t, ht, hsome⟩ := (Option.any_eq_true _ _).mp htable
  exact ⟨trace, h', t, hj, fun o ho _ => (hmoved o ho).2, ht, by simpa using hsome, eq_of_beq hhooks⟩

def forgetful : Handle := ⟨1, 1⟩

/-- A host whose boot script sets a breakpoint and reboots. -/
def rebooting : Host :=
  Host.new { HostSetup.standard .default with bios := .embedded "breakpoint a.lua 1\nreboot" }
    ⟨[(["rom"], .directory)], []⟩ default

/-- The breakpoint that the first boot sets finds its hook there. When the second boot is about to enter
its program the breakpoint is still there, and the hook is not. -/
theorem hooks_follow_boot_forgetful :
    (∃ trace h t, Journey (rebooting.spawn 1 false).2 trace h ∧ h.table? forgetful = some t ∧
      t.isEmpty = false ∧ h.hooks? forgetful = some (.both (some Hook.breakpoints)) ∧
      InBoot forgetful (SetsBreakpoint forgetful) trace) ∧
    ∃ trace h t, Journey (rebooting.spawn 1 false).2 trace h ∧ h.table? forgetful = some t ∧
      t.isEmpty = false ∧ h.hooks? forgetful = some (.both none) ∧
      ¬InBoot forgetful (SetsBreakpoint forgetful) trace := by
  let spawned : Host := (rebooting.spawn 1 false).2
  have hbetween : (rebooting.spawn 1 false).2.stage? forgetful = some .betweenBoots := by rfl
  have hfollow {trace : List Moment} {h : Host} {s : HookSet} (hj : Journey spawned trace h)
      (hloaded : Loaded forgetful trace) (hh : h.hooks? forgetful = some s) :=
    hooks_follow_boot hbetween (by decide +kernel) hj hloaded hh
  have hne : HookSet.both (some Hook.breakpoints) ≠ .both none := by decide
  constructor
  · have hmoves : (spawned.moveOn? forgetful 27).any
        (·.2.isHooked forgetful (.both (some Hook.breakpoints))) = true := by decide +kernel
    obtain ⟨trace, h, t, hj, hloaded, ht, hsome, hh⟩ := exists_journey_hooked hmoves
    obtain ⟨t', ht', hwanted, -⟩ := hfollow hj hloaded hh
    exact ⟨trace, h, t, hj, ht, hsome, hh,
      Classical.byContradiction fun hno => hne (hwanted.removed fun hyes => hno hyes.2)⟩
  · have hmoves : (spawned.moveOn? forgetful 54).any
        (·.2.isHooked forgetful (.both none)) = true := by decide +kernel
    obtain ⟨trace, h, t, hj, hloaded, ht, hsome, hh⟩ := exists_journey_hooked hmoves
    obtain ⟨t', ht', hwanted, -⟩ := hfollow hj hloaded hh
    cases ht.symm.trans ht'
    exact ⟨trace, h, t, hj, ht, hsome, hh, fun hset => hne (hwanted.installed ⟨hsome, hset⟩).symm⟩

end Host

end ComputerHost
