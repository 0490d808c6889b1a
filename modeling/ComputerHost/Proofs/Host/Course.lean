import ComputerHost.Proofs.Host.Thread

/-!
# Courses of events

What happens to one computer, as changes with their names: its own thread makes a step, another thread
does, or somebody calls from outside. `Occurs` is one such occurrence, and a `Course` any number of them.
Everybody but the computer's own thread respects its frame (`Keeps`).

The run state of a computer follows from the changes alone (`runState?_of_comes`).

Results:
1. `keeps_of_isCall`, `Occurs.foreign`: what everybody but the computer's own thread does.
2. `runState?_on`, `runState?_of_comes`: run states.
3. `Course.split`, `course_of_step`: the parts of a course, and that every step of a host is one.
-/

namespace ComputerHost

namespace RunState

def reboot : RunState → RunState
  | .stopped => .stopped
  | _ => .rebooting

def beginBoot : RunState → RunState
  | .stopped => .stopped
  | _ => .running

def finish : RunState → RunState
  | .running => .stopped
  | s => s

end RunState

namespace Change

/-- What a change makes of the run state of a computer. -/
def runs (who : Handle) : Change → RunState → RunState
  | shutdown w, s => if w = who then .stopped else s
  | reboot w, s => if w = who then s.reboot else s
  | beginBoot w, s => if w = who then s.beginBoot else s
  | finish w, s => if w = who then s.finish else s
  | _, s => s

/-- What several changes make of the run state of a computer. -/
def runAll (who : Handle) (xs : List Change) (s : RunState) : RunState :=
  xs.foldl (fun s x => x.runs who s) s

theorem runAll_append (who : Handle) (xs ys : List Change) (s : RunState) :
    runAll who (xs ++ ys) s = runAll who ys (runAll who xs s) :=
  List.foldl_append

/-- What is called from outside. The rest is left to threads. -/
def IsCall : Change → Prop
  | setQueue _ _ | beginBoot _ | finish _ | teardown _ _ => False
  | _ => True

/-- What threads do, on their own account or for a program. -/
def OfThread : Change → Prop
  | queue _ _ | setQueue _ _ | shutdown _ | reboot _ | beginBoot _ | finish _ | setLabel _ _
  | startTimer _ _ | turnOn _ | disconnectAll _ | teardown _ _ => True
  | _ => False

/-- A change that is not left to the thread of `who`. -/
def Foreign (who : Handle) : Change → Prop
  | setQueue w _ | beginBoot w | finish w | teardown w _ => w ≠ who
  | _ => True

end Change

namespace Host

/-- Something happens to the computer `who`: its own thread makes a step, another thread does, or
somebody calls from outside. -/
inductive Occurs (who : Handle) (h : Host) : Option Handle → List Change → Host → Prop
  | own {changes : List Change} {h' : Host} : Makes who h changes h' → Occurs who h (some who) changes h'
  | other {w : Handle} {changes : List Change} {h' : Host} :
      w ≠ who → Makes w h changes h' → Keeps who h h' → Occurs who h (some w) changes h'
  | called {x : Change} : x.IsCall → Occurs who h none [x] (x.on h)
  | quiet {h' : Host} : Quiet h h' → Keeps who h h' → Occurs who h none [] h'

/-- An occurrence: who moved, if it was a thread, and the changes that it came to. -/
structure Occurrence where
  before : Host
  mover : Option Handle
  changes : List Change
  after : Host

/-- What happens to the computer `who`, in order. -/
inductive Course (who : Handle) (h₀ : Host) : List Occurrence → Host → Prop
  | refl : Course who h₀ [] h₀
  | snoc {past : List Occurrence} {h h' : Host} {mover : Option Handle} {changes : List Change} :
      Course who h₀ past h → Occurs who h mover changes h' →
      Course who h₀ (past ++ [⟨h, mover, changes, h'⟩]) h'

section
variable {who w : Handle} {h h' h₀ : Host} {mover : Option Handle} {changes xs : List Change}

/-! ## 1. What others do -/

theorem keeps_turnOn (h : Host) (link : String) : Keeps who h (h.turnOn link) := by
  unfold turnOn
  split
  · exact keeps_ite (fun _ => keeps_callLink ..) fun _ => .refl who h
  · exact .refl who h

theorem keeps_closeConnection (h : Host) (w : Handle) (id : Nat) :
    Keeps who h (h.closeConnection w id).2 := by
  have htake : Keeps who h (h.update w (·.takeConnection id) none).2 :=
    keeps_update (fun c => .of_eq rfl rfl rfl) h w none
  unfold closeConnection
  rcases hu : h.update w (·.takeConnection id) none with ⟨_ | c, h₁⟩
  · rw [hu] at htake
    exact htake
  · rw [hu] at htake
    exact htake.trans (keeps_note ..)

theorem keeps_of_isCall (x : Change) (hx : x.IsCall) (h : Host) : Keeps who h (x.on h) := by
  have hmodify {f : Computer → Computer} (w : Handle)
      (hf : ∀ c, (f c).handle = c.handle ∧ (f c).events = c.events ∧ (f c).runState = c.runState) :
      Keeps who h (h.modify w f) :=
    keeps_modify (fun c => .of_eq (hf c).1 (hf c).2.1 (hf c).2.2) h w
  cases x with
  | queue w e => exact keeps_queueEvent h w e
  | shutdown w => exact keeps_modify Computer.grows_shutdown h w
  | reboot w => exact keeps_modify Computer.grows_reboot h w
  | setLabel w text => exact hmodify w fun _ => ⟨rfl, rfl, rfl⟩
  | startTimer w ms => exact keeps_startTimer h w ms
  | cancelTimer w id => exact keeps_cancelTimer h w id
  | debounce w ms e => exact keeps_debounce h w ms e
  | sweep => exact keeps_sweep h
  | resolve =>
    show Keeps who h (h.resolveDue?.getD h)
    cases hr : h.resolveDue? with
    | none => exact .refl who h
    | some h' => exact keeps_resolveDue? hr
  | fire =>
    show Keeps who h (h.fire?.getD h)
    cases hf : h.fire? with
    | none => exact .refl who h
    | some h' => exact keeps_fire? hf
  | spawn id isDebugger => exact keeps_spawn h id isDebugger
  | supply name p => exact keeps_ite (fun _ => .refl who h) fun _ => .of_eq rfl rfl rfl rfl
  | attach w side name => exact keeps_attach h w side name
  | detach w side => exact keeps_detach h w side
  | turnOn link => exact keeps_turnOn h link
  | connect w name => exact keeps_update (fun c => .of_eq rfl rfl rfl) h w 0
  | disconnect w id => exact keeps_closeConnection h w id
  | disconnectAll w => exact keeps_closeConnections h w
  | addFinalizer w name => exact hmodify w fun _ => ⟨rfl, rfl, rfl⟩
  | setQueue | beginBoot | finish | teardown => exact hx.elim

theorem foreign_of_isCall {x : Change} (hx : x.IsCall) (who : Handle) : x.Foreign who := by
  cases x with
  | setQueue | beginBoot | finish | teardown => exact hx.elim
  | _ => trivial

theorem IsRequest.isCall {x : Change} (hx : IsRequest w x) : x.IsCall := by
  cases hx <;> trivial

theorem foreign_of_leads {stage stage' : Stage} (hl : Leads w h stage xs stage') (hne : w ≠ who) :
    ∀ x ∈ xs, x.Foreign who := by
  have hnone (x : Change) (hx : x ∈ ([] : List Change)) : x.Foreign who := absurd hx List.not_mem_nil
  have hone {y : Change} (hy : y.Foreign who) (x : Change) (hx : x ∈ [y]) : x.Foreign who :=
    List.mem_singleton.mp hx ▸ hy
  cases hl with
  | begins | clears | takes | drops | windsUp | tearsDown => exact hone hne
  | givesUp | leaves | failed => exact hone trivial
  | panicked =>
    intro x hx
    rcases List.mem_cons.mp hx with rfl | hx
    · trivial
    · exact hone (y := .disconnectAll w) trivial x hx
  | runs _ hasked hy =>
    intro x hx
    rcases List.mem_append.mp hx with hx | hx
    · exact foreign_of_isCall (hasked x hx).isCall who
    · cases hy with
      | goesOn | panics => cases hx
      | ends => exact hone (y := .finish w) hne x hx
  | _ => exact hnone

theorem ofThread_of_leads {stage stage' : Stage} (hl : Leads w h stage xs stage') :
    ∀ x ∈ xs, x.OfThread := by
  have hnone (x : Change) (hx : x ∈ ([] : List Change)) : x.OfThread := absurd hx List.not_mem_nil
  have hone {y : Change} (hy : y.OfThread) (x : Change) (hx : x ∈ [y]) : x.OfThread :=
    List.mem_singleton.mp hx ▸ hy
  cases hl with
  | begins | clears | takes | drops | windsUp | tearsDown | givesUp | leaves | failed =>
    exact hone trivial
  | panicked =>
    intro x hx
    rcases List.mem_cons.mp hx with rfl | hx
    · trivial
    · exact hone (y := .disconnectAll w) trivial x hx
  | runs _ hasked hy =>
    intro x hx
    rcases List.mem_append.mp hx with hx | hx
    · cases hasked x hx <;> trivial
    · cases hy with
      | goesOn | panics => cases hx
      | ends => exact hone (y := .finish w) trivial x hx
  | _ => exact hnone

theorem Occurs.makes (ho : Occurs who h (some who) changes h') : Makes who h changes h' := by
  cases ho with
  | own hm => exact hm
  | other hne => exact absurd rfl hne

/-- What everybody but the computer's own thread does. -/
theorem Occurs.foreign (ho : Occurs who h mover changes h') (hne : mover ≠ some who) :
    (∀ x ∈ changes, x.Foreign who) ∧ Keeps who h h' := by
  cases ho with
  | own => exact absurd rfl hne
  | other hw hm hk =>
    obtain ⟨_, _, -, hl, -⟩ := hm
    exact ⟨foreign_of_leads hl hw, hk⟩
  | @called x hcall =>
    refine ⟨fun y hy => ?_, keeps_of_isCall x hcall h⟩
    rw [List.mem_singleton.mp hy]
    exact foreign_of_isCall hcall who
  | quiet _ hk => exact ⟨fun x hx => absurd hx List.not_mem_nil, hk⟩

theorem Occurs.comes (ho : Occurs who h mover changes h') : Comes h changes h' := by
  cases ho with
  | own hm | other _ hm _ =>
    obtain ⟨_, _, -, -, hc, -⟩ := hm
    exact hc
  | called => exact comes_on _ h
  | quiet hq _ => exact hq.comes

/-- Either there was one call, or threads have done something. -/
theorem Occurs.called_or_thread (ho : Occurs who h mover changes h') :
    (∃ x, x.IsCall ∧ changes = [x] ∧ h' = x.on h) ∨ ∀ x ∈ changes, x.OfThread := by
  cases ho with
  | own hm | other _ hm _ =>
    obtain ⟨_, _, -, hl, -⟩ := hm
    exact .inr (ofThread_of_leads hl)
  | @called x hcall => exact .inl ⟨x, hcall, rfl, rfl⟩
  | quiet => exact .inr fun x hx => absurd hx List.not_mem_nil

theorem Comes.known (hc : Comes h xs h') (hsome : (h.computer? w).isSome = true) :
    (h'.computer? w).isSome = true := by
  obtain ⟨trace, he, -⟩ := hc
  induction he with
  | refl => exact hsome
  | change _ ih => exact (differs_on _ _).known w ih
  | quiet _ hq ih => exact hq.known w ih

/-! ## 2. Run states -/

theorem runState?_modify (h : Host) (w : Handle) {f : Computer → Computer}
    (hf : ∀ c, (f c).handle = c.handle) {g : RunState → RunState}
    (hg : ∀ c, (f c).runState = g c.runState) (who : Handle) :
    (h.modify w f).runState? who =
      (h.runState? who).map fun s => if w = who then g s else s := by
  unfold runState?
  rw [computer?_modify h w f hf, Option.map_map, Option.map_map]
  refine Option.map_congr fun c hc => ?_
  have hhandle := handle_of_computer? hc
  simp only [Function.comp, hhandle, eq_comm]
  split
  · exact hg c
  · rfl

theorem runState?_on (x : Change) (hc : (h.computer? who).isSome = true) :
    (x.on h).runState? who = (h.runState? who).map (x.runs who) := by
  have hsame (hx : ¬x.Touches (.runState who)) : (x.on h).runState? who = h.runState? who :=
    (differs_on x h).agrees (.runState who) hx hc
  have hid : (h.runState? who).map (fun s => s) = h.runState? who := by simp
  cases x with
  | shutdown w =>
    exact runState?_modify h w (f := Computer.shutdown) (fun _ => rfl) (g := fun _ => .stopped)
      (fun _ => rfl) who
  | reboot w =>
    refine runState?_modify h w (fun c => (Computer.grows_reboot c).handle) (g := RunState.reboot)
      (fun c => ?_) who
    unfold Computer.reboot RunState.reboot
    cases hs : c.runState <;> simp [hs]
  | finish w =>
    refine runState?_modify h w (fun c => (Computer.grows_finish c).handle) (g := RunState.finish)
      (fun c => ?_) who
    unfold Computer.finish RunState.finish
    cases hs : c.runState <;> simp [hs]
  | beginBoot w =>
    have hhandle (c : Computer) : c.beginBoot.2.handle = c.handle := by
      rw [Computer.beginBoot_frame]
    have hupdate : ((Change.beginBoot w).on h).runState? who =
        (h.modify w fun c => c.beginBoot.2).runState? who :=
      congrArg (Option.map _) (computer?_update h w Computer.beginBoot false hhandle who)
    rw [hupdate]
    refine runState?_modify h w hhandle (g := RunState.beginBoot) (fun c => ?_) who
    unfold Computer.beginBoot RunState.beginBoot
    cases hs : c.runState <;> simp [hs]
  | turnOn link => exact (hsame (by simp [Change.Touches, Aspect.OfSpawn])).trans hid.symm
  | spawn | resolve | fire | attach | detach => exact (hsame not_false).trans hid.symm
  | teardown w step =>
    refine (hsame fun hn => ?_).trans hid.symm
    cases step <;> exact hn
  | _ => exact (hsame (by simp [Change.Touches])).trans hid.symm

/-- The run state of a computer follows from the changes. -/
theorem runState?_of_comes (hc : Comes h xs h') (hsome : (h.computer? who).isSome = true) :
    h'.runState? who = (h.runState? who).map (Change.runAll who xs) := by
  obtain ⟨trace, he, rfl⟩ := hc
  suffices hall : (h'.computer? who).isSome = true ∧
      h'.runState? who = (h.runState? who).map (Change.runAll who (trace.map (·.2))) from hall.2
  induction he with
  | refl =>
    have hid : (h.runState? who).map (fun s => s) = h.runState? who := by simp
    exact ⟨hsome, hid.symm⟩
  | @change _ h₁ x _ ih =>
    refine ⟨(differs_on x h₁).known who ih.1, ?_⟩
    rw [runState?_on x ih.1, ih.2, Option.map_map, List.map_append]
    exact Option.map_congr fun s _ => (Change.runAll_append who _ [x] s).symm
  | quiet _ hq ih =>
    exact ⟨hq.known who ih.1, (hq.agrees (.runState who) not_false ih.1).trans ih.2⟩

/-! ## 3. Courses -/

theorem Course.split {past later : List Occurrence} {o : Occurrence}
    (hc : Course who h₀ (past ++ o :: later) h) :
    Course who h₀ past o.before ∧ Occurs who o.before o.mover o.changes o.after ∧
      Course who o.after later h := by
  generalize ht : past ++ o :: later = trace at hc
  induction hc generalizing later with
  | refl => simp at ht
  | @snoc trace h₁ h₂ mover changes hc ho ih =>
    rcases List.eq_nil_or_concat later with rfl | ⟨later, last, rfl⟩
    · obtain ⟨rfl, heq⟩ := List.append_inj' ht rfl
      cases List.singleton_inj.mp heq
      exact ⟨hc, ho, .refl⟩
    · rw [List.concat_eq_append, ← List.cons_append, ← List.append_assoc] at ht
      obtain ⟨heq, hlast⟩ := List.append_inj' ht rfl
      obtain ⟨hpast, ho', hlater⟩ := ih heq
      rw [List.concat_eq_append, List.singleton_inj.mp hlast]
      exact ⟨hpast, ho', .snoc hlater ho⟩

theorem Course.trans {past later : List Occurrence} (hc : Course who h₀ past h)
    (hc' : Course who h later h') : Course who h₀ (past ++ later) h' := by
  induction hc' with
  | refl => rwa [List.append_nil]
  | snoc _ ho ih =>
    rw [← List.append_assoc]
    exact .snoc ih ho

theorem Occurs.course (ho : Occurs who h mover changes h') :
    Course who h [⟨h, mover, changes, h'⟩] h' :=
  .snoc .refl ho

/-- Calls made one after the other, as they occur. -/
def calls (h : Host) (xs : List Change) : List Occurrence :=
  (h.traceOf xs).map fun (h, x) => ⟨h, none, [x], x.on h⟩

theorem course_calls (hx : ∀ x ∈ xs, x.IsCall) (h : Host) :
    Course who h (h.calls xs) (xs.foldl (fun h x => x.on h) h) := by
  induction xs generalizing h with
  | nil => exact .refl
  | cons x later ih =>
    obtain ⟨hcall, hlater⟩ := List.forall_mem_cons.mp hx
    exact (Occurs.called hcall).course.trans (ih hlater (x.on h))

/-- The same call for several computers. -/
theorem course_foldl (f : Handle → Change) (hf : ∀ w, (f w).IsCall) (ws : List Handle) (h : Host) :
    ∃ trace, Course who h trace (ws.foldl (fun h w => (f w).on h) h) := by
  have hc : Course who h _ ((ws.map f).foldl (fun h x => x.on h) h) :=
    course_calls (List.forall_mem_map.mpr fun w (_ : w ∈ ws) => hf w) h
  rw [List.foldl_map] at hc
  exact ⟨_, hc⟩

/-- A step of a host, as it occurs to each of its computers. -/
theorem course_of_step (hs : Step h mover h') (who : Handle) : ∃ trace, Course who h trace h' := by
  have hkeeps (hne : mover ≠ some who) : Keeps who h h' := keeps_of_step hs hne
  have hcall {x : Change} (hx : x.IsCall) : ∃ trace, Course who h trace (x.on h) :=
    ⟨_, (Occurs.called hx).course⟩
  cases mover with
  | some w =>
    obtain ⟨changes, hm⟩ := makes_of_step hs
    by_cases hw : w = who
    · subst hw
      exact ⟨_, (Occurs.own hm).course⟩
    · exact ⟨_, (Occurs.other hw hm (hkeeps fun heq => hw (Option.some.inj heq))).course⟩
  | none =>
    cases hs with
    | passes hle => exact ⟨_, (Occurs.quiet (quiet_clock h hle) (hkeeps nofun)).course⟩
    | runsTasks => exact ⟨_, (Occurs.quiet (quiet_runTasks h) (hkeeps nofun)).course⟩
    | resolves hr => exact on_resolve hr ▸ hcall (x := .resolve) trivial
    | fires hf => exact on_fire hf ▸ hcall (x := .fire) trivial
    | broadcasts e => exact course_foldl (.queue · e) (fun _ => trivial) _ h
    | shutsAllDown => exact course_foldl .shutdown (fun _ => trivial) _ h
    | sweeps => exact hcall (x := .sweep) trivial
    | queues w e => exact hcall (x := .queue w e) trivial
    | shutsDown w => exact hcall (x := .shutdown w) trivial
    | reboots w => exact hcall (x := .reboot w) trivial
    | spawns id isDebugger => exact hcall (x := .spawn id isDebugger) trivial
    | attaches w side name => exact hcall (x := .attach w side name) trivial
    | detaches w side => exact hcall (x := .detach w side) trivial
    | startsTimer w ms => exact hcall (x := .startTimer w ms) trivial
    | cancelsTimer w id => exact hcall (x := .cancelTimer w id) trivial
    | debounces w ms e => exact hcall (x := .debounce w ms e) trivial

/-- So many moves of the thread, one right after the other. -/
theorem course_of_moveOn? {n : Nat} {history : List Happening}
    (hm : h.moveOn? who n = some (history, h')) :
    ∃ trace, Course who h trace h' ∧
      ∀ o ∈ trace, o.mover = some who ∧ ∀ x ∈ o.changes, x.OfThread := by
  induction n generalizing h history with
  | zero =>
    cases hm
    exact ⟨[], .refl, by simp⟩
  | succ n ih =>
    obtain ⟨h₁, hmove, hrest⟩ := Option.bind_eq_some_iff.mp hm
    obtain ⟨⟨later, h₂⟩, hlater, heq⟩ := Option.map_eq_some_iff.mp hrest
    cases heq
    obtain ⟨changes, hmakes⟩ := makes_of_step (.moves hmove)
    obtain ⟨trace, hc, htrace⟩ := ih hlater
    refine ⟨_, (Occurs.own hmakes).course.trans hc, ?_⟩
    obtain ⟨_, _, -, hl, -⟩ := hmakes
    rw [List.forall_mem_append, List.forall_mem_singleton]
    exact ⟨⟨rfl, ofThread_of_leads hl⟩, htrace⟩

theorem Course.known {trace : List Occurrence} (hc : Course who h₀ trace h)
    (hsome : (h₀.computer? w).isSome = true) : (h.computer? w).isSome = true := by
  induction hc with
  | refl => exact hsome
  | snoc _ ho ih => exact ho.comes.known ih

end

end Host

end ComputerHost
