import ComputerHost.Proofs.Host.Loop

/-!
# Hosts and loops

Whatever happens to the program of a computer within a boot could happen to a loop. `Matches` ties a
loop to the thread of a computer: they have the same pending events, and the stage of the thread is one
at which the program can be what the loop says it is (`Stands`).

Results:
1. `matches_of_keeps`: everybody else adds events at most.
2. `mimics_of_turns`, `mimics_of_step`: every move of the computer's own thread is one of the loop,
   with a lemma for each kind of move.
3. `mimics_of_run`, `mimics_of_bootRun`: the history of a run within one boot is a trace of the loop.
4. `run_of_halted`: nothing but pushes happens to a program that was stopped.
-/

namespace ComputerHost.Host

/-- The stages at which a program can be what a loop says. -/
inductive Stands (who : Handle) (h : Host) : Loop.Mode → Stage → Prop
  | booting (todo : List BootStep) (session : Option Session) :
      Stands who h (.due [] false) (.booting todo session)
  | due (session : Session) (args : List Value) (warned : Bool) :
      Stands who h (.due args warned) (.resuming session args warned)
  | running {stage : Stage} {warned : Bool} :
      stage.program? = some warned → Stands who h (.running warned) stage
  | waiting (session : Session) (filter : String) {deadline : Nat} {warned : Bool} :
      (warned = true → deadline ≤ h.clock) →
      Stands who h (.waiting filter warned) (.waiting session filter deadline warned)
  | halting (session : Session) : h.runState? who = some .stopped →
      Stands who h .halted (.resuming session [] true)
  | halted {stage : Stage} : h.runState? who = some .stopped → stage.isOver = true →
      Stands who h .halted stage
  /-- As long as the computer runs, a boot ends only before its program is resumed at all, or when the
  program ends. -/
  | finished {mode : Loop.Mode} {stage : Stage} : mode ≠ .halted → stage.isOver = true →
      (h.isRunning who = true → mode = .due [] false ∨ ∃ warned, mode = .running warned) →
      Stands who h mode stage
  | betweenBoots {mode : Loop.Mode} : mode ≠ .halted → h.isRunning who = false →
      Stands who h mode .betweenBoots

/-- A loop that tells what the thread of `who` is at. -/
structure Matches (who : Handle) (l : Loop) (h : Host) : Prop where
  computer : (h.computer? who).isSome = true
  pending : h.queue who = l.pending
  stands : ∃ stage, h.stage? who = some stage ∧ Stands who h l.mode stage

/-- A history that brings a loop to where the thread of `who` is. -/
def Mimics (who : Handle) (l : Loop) (history : List Happening) (h : Host) : Prop :=
  ∃ l', Loop.Trace l history l' ∧ Matches who l' h

section
variable {who : Handle} {h h' : Host} {l : Loop}

theorem Matches.stands_at {stage : Stage} (hm : Matches who l h) (hs : h.stage? who = some stage) :
    Stands who h l.mode stage := by
  obtain ⟨stage', hs', hst⟩ := hm.stands
  rwa [Option.some.inj (hs.symm.trans hs')]

/-! ## 1. The others -/

theorem Keeps.isSome (hk : Keeps who h h') (hc : (h.computer? who).isSome = true) :
    (h'.computer? who).isSome = true := by
  obtain ⟨c, hc⟩ := Option.isSome_iff_exists.mp hc
  obtain ⟨c', hc', -⟩ := hk.computer c hc
  rw [hc', Option.isSome_some]

theorem Keeps.queue (hk : Keeps who h h') : h.queue who <+: h'.queue who := by
  cases hc : h.computer? who with
  | none =>
    unfold Host.queue
    rw [hc]
    exact List.nil_prefix
  | some c =>
    obtain ⟨c', hc', hg⟩ := hk.computer c hc
    rw [queue_of_computer? hc, queue_of_computer? hc']
    exact hg.events

theorem Keeps.isRunning (hk : Keeps who h h') (hc : (h.computer? who).isSome = true)
    (hr : h'.isRunning who = true) : h.isRunning who = true := by
  obtain ⟨c, hc⟩ := Option.isSome_iff_exists.mp hc
  obtain ⟨c', hc', hg⟩ := hk.computer c hc
  rw [isRunning_of_computer? hc'] at hr
  rw [isRunning_of_computer? hc]
  exact hg.isRunning hr

theorem Keeps.stopped (hk : Keeps who h h') (hs : h.runState? who = some .stopped) :
    h'.runState? who = some .stopped := by
  obtain ⟨c, hc, hstate⟩ := Option.map_eq_some_iff.mp hs
  obtain ⟨c', hc', hg⟩ := hk.computer c hc
  rw [runState?, hc', Option.map_some, hg.stopped hstate]

theorem queue_eq_append_arrivals (hq : h.queue who <+: h'.queue who) :
    h'.queue who = h.queue who ++ h.arrivals who h' := by
  obtain ⟨events, heq⟩ := hq
  rw [arrivals, ← heq, List.drop_left]

/-- What stands still while the others act. -/
theorem Stands.of_keeps {mode : Loop.Mode} {stage : Stage} (hs : Stands who h mode stage)
    (hk : Keeps who h h') (hc : (h.computer? who).isSome = true) : Stands who h' mode stage := by
  cases hs with
  | booting todo session => exact .booting todo session
  | due session args warned => exact .due session args warned
  | running hp => exact .running hp
  | waiting session filter hd =>
    exact .waiting session filter fun hw => Nat.le_trans (hd hw) hk.clock
  | halting session hstop => exact .halting session (hk.stopped hstop)
  | halted hstop ho => exact .halted (hk.stopped hstop) ho
  | finished hn ho hrest => exact .finished hn ho fun hr => hrest (hk.isRunning hc hr)
  | betweenBoots hn hr =>
    refine .betweenBoots hn (Bool.eq_false_iff.mpr fun hr' => ?_)
    rw [hk.isRunning hc hr'] at hr
    cases hr

/-- The loop after more events have come. -/
def Loop.queue (l : Loop) (events : List Event) : Loop := ⟨l.pending ++ events, l.mode⟩

theorem matches_of_keeps (hm : Matches who l h) (hk : Keeps who h h') :
    Matches who (l.queue (h.arrivals who h')) h' := by
  obtain ⟨stage, hstage, hs⟩ := hm.stands
  refine ⟨hk.isSome hm.computer, ?_, stage, hk.stage stage hstage, hs.of_keeps hk hm.computer⟩
  rw [queue_eq_append_arrivals hk.queue, hm.pending]
  rfl

/-! ## 2. The thread itself -/

theorem Stands.mode_of_booting {mode : Loop.Mode} {todo : List BootStep} {session : Option Session}
    (hs : Stands who h mode (.booting todo session)) : mode = .due [] false := by
  cases hs with
  | booting => rfl
  | running hp => cases hp
  | halted _ ho => cases ho
  | finished _ ho => cases ho

theorem Stands.mode_of_program {mode : Loop.Mode} {stage : Stage} {warned : Bool}
    (hs : Stands who h mode stage) (hp : stage.program? = some warned) :
    mode = .running warned := by
  cases hs with
  | running hp' => rw [Option.some.inj (hp.symm.trans hp')]
  | booting | due | waiting | halting | betweenBoots => cases hp
  | halted _ ho | finished _ ho =>
    rw [Stage.program?_of_isOver ho] at hp
    cases hp

theorem Stands.mode_of_waiting {mode : Loop.Mode} {session : Session} {filter : String}
    {deadline : Nat} {warned : Bool}
    (hs : Stands who h mode (.waiting session filter deadline warned)) :
    mode = .waiting filter warned ∧ (warned = true → deadline ≤ h.clock) := by
  cases hs with
  | waiting _ _ hd => exact ⟨rfl, hd⟩
  | running hp => cases hp
  | halted _ ho => cases ho
  | finished _ ho => cases ho

theorem Stands.mode_of_resuming {mode : Loop.Mode} {session : Session} {args : List Value}
    {warned : Bool} (hs : Stands who h mode (.resuming session args warned)) :
    mode = .due args warned ∨ (mode = .halted ∧ h.runState? who = some .stopped) := by
  cases hs with
  | due => exact .inl rfl
  | halting _ hstop => exact .inr ⟨rfl, hstop⟩
  | running hp => cases hp
  | halted _ ho => cases ho
  | finished _ ho => cases ho

theorem Stands.mode_of_over {mode : Loop.Mode} {stage : Stage} (hs : Stands who h mode stage)
    (ho : stage.isOver = true) :
    (mode = .halted ∧ h.runState? who = some .stopped) ∨
      (mode ≠ .halted ∧
        (h.isRunning who = true → mode = .due [] false ∨ ∃ warned, mode = .running warned)) := by
  cases hs with
  | halted hstop => exact .inl ⟨rfl, hstop⟩
  | finished hn _ hrest => exact .inr ⟨hn, hrest⟩
  | running hp =>
    rw [Stage.program?_of_isOver ho] at hp
    cases hp
  | booting | due | waiting | halting | betweenBoots => cases ho

theorem isRunning_eq (h : Host) (who : Handle) :
    h.isRunning who = (h.runState? who == some .running) := by
  unfold isRunning runState?
  cases h.computer? who <;> rfl

theorem not_running_of_runState? {state : RunState} (hs : h.runState? who = some state)
    (hne : state ≠ .running) : h.isRunning who = false := by
  rw [isRunning_eq, hs]
  exact beq_eq_false_iff_ne.mpr fun heq => hne (Option.some.inj heq)

/-- A deed that leaves the queue alone, then what comes from elsewhere during the move, then a new
stage. -/
theorem mimics_setStage {deeds : List Happening} {mode : Loop.Mode} {stage : Stage}
    (hm : Matches who l h) (hk : Keeps who h h')
    (hd : h.deeds who (h'.setStage who stage) = deeds)
    (ht : Loop.Trace l deeds ⟨l.pending, mode⟩) (hs : Stands who h' mode stage) :
    Mimics who l (h.happenings who (some who) (h'.setStage who stage)) (h'.setStage who stage) := by
  obtain ⟨old, hold, -⟩ := hm.stands
  have hstage := stage?_setStage_self (hk.stage old hold) stage
  rw [happenings, if_pos rfl, hd]
  refine ⟨_, ht.append (Loop.trace_pushes _ _ mode), hk.isSome hm.computer, ?_, stage, hstage, ?_⟩
  · rw [← hm.pending]
    exact queue_eq_append_arrivals hk.queue
  · -- `Stands` looks at the computer and the clock, which a new stage leaves alone
    cases hs with
    | booting todo session => exact .booting todo session
    | due session args warned => exact .due session args warned
    | running hp => exact .running hp
    | waiting session filter hdeadline => exact .waiting session filter hdeadline
    | halting session hstop => exact .halting session hstop
    | halted hstop ho => exact .halted hstop ho
    | finished hn ho hrest => exact .finished hn ho hrest
    | betweenBoots hn hr => exact .betweenBoots hn hr

theorem computer?_setQueue (hc : (h.computer? who).isSome = true) (events : List Event) :
    ∃ c, h.computer? who = some c ∧
      (h.setQueue who events).computer? who = some { c with events := ⟨events⟩ } := by
  obtain ⟨c, hc⟩ := Option.isSome_iff_exists.mp hc
  exact ⟨c, hc, computer?_modify_self hc (fun c => { c with events := ⟨events⟩ }) fun _ => rfl⟩

theorem queue_setQueue (hc : (h.computer? who).isSome = true) (events : List Event) :
    (h.setQueue who events).queue who = events := by
  obtain ⟨c, -, hc'⟩ := computer?_setQueue hc events
  exact queue_of_computer? hc'

theorem runState?_setQueue (hc : (h.computer? who).isSome = true) (events : List Event) :
    (h.setQueue who events).runState? who = h.runState? who := by
  obtain ⟨c, hc, hc'⟩ := computer?_setQueue hc events
  rw [runState?, runState?, hc, hc']
  rfl

theorem isSome_setQueue (hc : (h.computer? who).isSome = true) (events : List Event) :
    ((h.setQueue who events).computer? who).isSome = true := by
  obtain ⟨c, -, hc'⟩ := computer?_setQueue hc events
  rw [hc', Option.isSome_some]

theorem arrivals_of_taken {e : Event} {rest : List Event} (hq : h.queue who = e :: rest)
    (hq' : h'.queue who = rest) : h.arrivals who h' = [] := by
  rw [arrivals, hq', hq, List.drop_eq_nil_iff, List.length_cons]
  exact Nat.le_succ _

theorem deeds_of_isOver {stage : Stage} (hs : h.stage? who = some stage)
    (ho : stage.isOver = true) : h.deeds who h' = [] := by
  cases stage with
  | leaving | ended | stopping | tearingDown | gone => simp only [deeds, hs]
  | betweenBoots | booting | resuming | executing | held | suspended | waiting => cases ho

theorem deeds_of_booting {todo : List BootStep} {session : Option Session}
    (hs : h.stage? who = some (.booting todo session)) (hb : .booted ∉ h.deeds who h') :
    h.deeds who h' = [] := by
  cases todo with
  | nil => simp only [deeds, hs]
  | cons step todo =>
    by_cases hclear : ∃ s, step = .clearEvents ∧ session = some s
    · obtain ⟨s, rfl, rfl⟩ := hclear
      simp [deeds, hs] at hb
    · unfold deeds
      rw [hs]
      split <;> simp_all

theorem stands_of_follows {mode : Loop.Mode} {stage : Stage} {warned : Bool}
    (hmode : mode = .running warned) (hf : stage.Follows warned) : Stands who h mode stage := by
  subst hmode
  rcases hf with hp | ⟨session, ending, rfl⟩
  · exact .running hp
  · exact .finished nofun rfl fun _ => .inr ⟨warned, rfl⟩

theorem deeds_of_timeOut {session : Session} {filter : String} {deadline : Nat} {warned : Bool}
    (hs : h.stage? who = some (.waiting session filter deadline warned)) (hq : h.queue who = []) :
    h.deeds who (h.timeOut who session warned) = [if warned then .stopped else .timedOut] := by
  obtain ⟨args, hs'⟩ : ∃ args,
      (h.timeOut who session warned).stage? who = some (.resuming session args true) := by
    cases warned with
    | false => exact ⟨_, stage?_setStage_self hs _⟩
    | true => exact ⟨_, stage?_setStage_self (h := h.modify who Computer.shutdown) hs _⟩
  simp only [deeds, hs, hq, hs']

theorem mimics_of_booting {todo : List BootStep} {session : Option Session} {stage : Stage}
    (hm : Matches who l h) (hs : h.stage? who = some (.booting todo session))
    (hk : Keeps who h h') (hp : stage.Prepared)
    (hb : .booted ∉ h.deeds who (h'.setStage who stage)) :
    Mimics who l (h.happenings who (some who) (h'.setStage who stage)) (h'.setStage who stage) := by
  have hmode := (hm.stands_at hs).mode_of_booting
  refine mimics_setStage hm hk (deeds_of_booting hs hb) (.nil l) ?_
  rw [hmode]
  cases hp with
  | booting todo session => exact .booting todo session
  | resuming session => exact .due session [] false
  | leaving session ending => exact .finished nofun rfl fun _ => .inl rfl

theorem mimics_of_resumed {session : Session} {args : List Value} {warned : Bool} {stage : Stage}
    (hm : Matches who l h) (hs : h.stage? who = some (.resuming session args warned))
    (hr : h.isRunning who = true) (hk : Keeps who h h') (hf : stage.Follows warned) :
    Mimics who l (h.happenings who (some who) (h'.setStage who stage)) (h'.setStage who stage) := by
  have hmode : l.mode = .due args warned := by
    rcases (hm.stands_at hs).mode_of_resuming with hmode | ⟨-, hstop⟩
    · exact hmode
    · rw [not_running_of_runState? hstop nofun] at hr
      cases hr
  have hd : h.deeds who (h'.setStage who stage) = [.resumed args] := by
    simp only [deeds, hs, hr, if_true]
  refine mimics_setStage hm hk hd ?_ (stands_of_follows rfl hf)
  obtain ⟨pending, mode⟩ := l
  subst hmode
  exact (Loop.Goes.resumed pending args warned).trace

theorem mimics_of_declined {session : Session} {args : List Value} {warned : Bool}
    (hm : Matches who l h) (hs : h.stage? who = some (.resuming session args warned))
    (hr : h.isRunning who = false) :
    Mimics who l (h.happenings who (some who) (h.setStage who (.leaving session .ordinary)))
      (h.setStage who (.leaving session .ordinary)) := by
  have hd : h.deeds who (h.setStage who (.leaving session .ordinary)) = [] := by
    simp only [deeds, hs, hr, Bool.false_eq_true, if_false]
  refine mimics_setStage hm (.refl who h) hd (.nil l) ?_
  rcases (hm.stands_at hs).mode_of_resuming with hmode | ⟨hmode, hstop⟩
  · rw [hmode]
    exact .finished nofun rfl fun hr' => absurd (hr.symm.trans hr') nofun
  · rw [hmode]
    exact .halted hstop rfl

/-- A move that the program is not told of and that leaves it in control, or ends it. -/
theorem mimics_of_program {stage stage' : Stage} {warned : Bool} (hm : Matches who l h)
    (hs : h.stage? who = some stage) (hp : stage.program? = some warned) (hk : Keeps who h h')
    (hd : h.deeds who (h'.setStage who stage') = []) (hf : stage'.Follows warned) :
    Mimics who l (h.happenings who (some who) (h'.setStage who stage'))
      (h'.setStage who stage') :=
  mimics_setStage hm hk hd (.nil l) (stands_of_follows ((hm.stands_at hs).mode_of_program hp) hf)

theorem mimics_of_suspended {session : Session} {values : List Value} {deadline : Nat}
    {warned : Bool} (hm : Matches who l h)
    (hs : h.stage? who = some (.suspended session values warned)) (hr : h.isRunning who = true)
    (hdeadline : warned = true → deadline ≤ h.clock) :
    let h' := h.setStage who (.waiting session (filterOf values) deadline warned)
    Mimics who l (h.happenings who (some who) h') h' := by
  intro h'
  have hmode := (hm.stands_at hs).mode_of_program rfl
  have hd : h.deeds who h' = [.suspended (filterOf values)] := by
    simp only [deeds, hs, hr, if_true]
  refine mimics_setStage hm (.refl who h) hd ?_ (.waiting session (filterOf values) hdeadline)
  obtain ⟨pending, mode⟩ := l
  subst hmode
  exact (Loop.Goes.suspended pending (filterOf values) warned).trace

section
variable {session : Session} {filter : String} {deadline : Nat} {warned : Bool}

/-- The wait takes an event from the queue, for the program or to drop it. -/
theorem mimics_of_taken {e : Event} {rest : List Event} {deed : Happening} {mode : Loop.Mode}
    {stage : Stage} (hm : Matches who l h) (hq : h.queue who = e :: rest)
    (hd : h.deeds who h' = [deed]) (hg : Loop.Goes ⟨e :: rest, l.mode⟩ deed ⟨rest, mode⟩)
    (hc : (h'.computer? who).isSome = true) (hq' : h'.queue who = rest)
    (hs : h'.stage? who = some stage) (hst : Stands who h' mode stage) :
    Mimics who l (h.happenings who (some who) h') h' := by
  rw [happenings, if_pos rfl, hd, arrivals_of_taken hq hq']
  refine ⟨⟨rest, mode⟩, ?_, hc, hq', stage, hs, hst⟩
  rw [← hq, hm.pending] at hg
  exact hg.trace

theorem mimics_of_delivered {e : Event} {rest : List Event} (hm : Matches who l h)
    (hs : h.stage? who = some (.waiting session filter deadline warned))
    (hq : h.queue who = e :: rest) (hp : e.passes filter = true) :
    let h' := (h.setQueue who rest).setStage who (.resuming session e.values false)
    Mimics who l (h.happenings who (some who) h') h' := by
  intro h'
  have hd : h.deeds who h' = [.delivered e] := by simp only [deeds, hs, hq, hp, if_true]
  have hs' := stage?_setStage_self (h := h.setQueue who rest) hs (.resuming session e.values false)
  refine mimics_of_taken hm hq hd ?_ (isSome_setQueue hm.computer rest)
    (queue_setQueue hm.computer rest) hs' (.due session e.values false)
  rw [(hm.stands_at hs).mode_of_waiting.1]
  exact .delivered rest warned hp

theorem mimics_of_dropped {e : Event} {rest : List Event} (hm : Matches who l h)
    (hs : h.stage? who = some (.waiting session filter deadline warned))
    (hq : h.queue who = e :: rest) (hp : e.passes filter = false) :
    Mimics who l (h.happenings who (some who) (h.setQueue who rest)) (h.setQueue who rest) := by
  obtain ⟨hmode, hdeadline⟩ := (hm.stands_at hs).mode_of_waiting
  have hd : h.deeds who (h.setQueue who rest) = [.dropped e] := by
    simp only [deeds, hs, hq, hp, Bool.false_eq_true, if_false]
  refine mimics_of_taken hm hq hd ?_ (isSome_setQueue hm.computer rest)
    (queue_setQueue hm.computer rest) hs (.waiting session filter hdeadline)
  rw [hmode]
  exact .dropped rest warned hp

/-- A timeout warns the program, or stops it. -/
theorem mimics_of_timeOut (hm : Matches who l h)
    (hs : h.stage? who = some (.waiting session filter deadline warned))
    (hq : h.queue who = []) :
    Mimics who l (h.happenings who (some who) (h.timeOut who session warned))
      (h.timeOut who session warned) := by
  have hmode := (hm.stands_at hs).mode_of_waiting.1
  have hl : l = ⟨[], .waiting filter warned⟩ := by
    obtain ⟨pending, mode⟩ := l
    rw [← hmode, ← hq, hm.pending]
  have hd := deeds_of_timeOut hs hq
  cases warned with
  | false =>
    refine mimics_setStage hm (.refl who h) hd ?_ (.due session _ true)
    rw [hl]
    exact (Loop.Goes.timedOut filter).trace
  | true =>
    have hk : Keeps who h (h.modify who Computer.shutdown) :=
      keeps_modify Computer.grows_shutdown h who
    have hstop : (h.modify who Computer.shutdown).runState? who = some .stopped := by
      obtain ⟨c, hc⟩ := Option.isSome_iff_exists.mp hm.computer
      rw [runState?_shutdown, hc, Option.map_some]
    refine mimics_setStage hm hk hd ?_ (.halting session hstop)
    rw [hl]
    exact (Loop.Goes.stopped filter).trace

theorem mimics_of_interrupted (hm : Matches who l h)
    (hs : h.stage? who = some (.waiting session filter deadline warned))
    (hq : h.queue who = []) (hr : h.isRunning who = false) :
    Mimics who l (h.happenings who (some who) (h.setStage who (.leaving session .ordinary)))
      (h.setStage who (.leaving session .ordinary)) := by
  have hs' := stage?_setStage_self hs (.leaving session .ordinary)
  have hd : h.deeds who (h.setStage who (.leaving session .ordinary)) = [] := by
    simp only [deeds, hs, hq, hs']
  refine mimics_setStage hm (.refl who h) hd (.nil l) ?_
  rw [(hm.stands_at hs).mode_of_waiting.1]
  exact .finished nofun rfl fun hr' => absurd (hr.symm.trans hr') nofun

end

theorem mimics_of_over {stage stage' : Stage} (hm : Matches who l h)
    (hs : h.stage? who = some stage) (ho : stage.isOver = true) (hk : Keeps who h h')
    (hnew : stage'.isOver = true ∨
      (stage' = .betweenBoots ∧ h.runState? who = some .rebooting)) :
    Mimics who l (h.happenings who (some who) (h'.setStage who stage'))
      (h'.setStage who stage') := by
  refine mimics_setStage hm hk (deeds_of_isOver hs ho) (.nil l) ?_
  rcases (hm.stands_at hs).mode_of_over ho with ⟨hmode, hstop⟩ | ⟨hn, hrest⟩
  · rw [hmode]
    rcases hnew with ho' | ⟨-, hreboot⟩
    · exact .halted (hk.stopped hstop) ho'
    · rw [hstop] at hreboot
      cases hreboot
  · have hr' (hr : h'.isRunning who = true) : h.isRunning who = true := hk.isRunning hm.computer hr
    rcases hnew with ho' | ⟨rfl, hreboot⟩
    · exact .finished hn ho' fun hr => hrest (hr' hr)
    · refine .betweenBoots hn (Bool.eq_false_iff.mpr fun hr => ?_)
      have hrunning := hr' hr
      rw [not_running_of_runState? hreboot nofun] at hrunning
      cases hrunning

/-- What a move of a thread does to its program could happen to the loop. -/
theorem mimics_of_turns (hm : Matches who l h) (ht : Turns who h h')
    (hb : .booted ∉ h.deeds who h') :
    Mimics who l (h.happenings who (some who) h') h' := by
  cases ht with
  | boots hs => simp [deeds, hs] at hb
  | clears hs => simp [deeds, hs] at hb
  | prepares hs hk hp => exact mimics_of_booting hm hs (hk who) hp hb
  | resumes hs hr hk hf => exact mimics_of_resumed hm hs hr (hk who) hf
  | declines hs hr => exact mimics_of_declined hm hs hr
  | executes hs hk hf =>
    exact mimics_of_program hm hs rfl (hk who) (by simp only [deeds, hs]) hf
  | letGo hs hk hf => exact mimics_of_program hm hs rfl (hk who) (by simp only [deeds, hs]) hf
  | suspends hs hr =>
    refine mimics_of_suspended hm hs hr fun hw => ?_
    rw [if_pos hw]
    exact Nat.le_refl _
  | quits hs hr =>
    refine mimics_of_program hm hs rfl (.refl who h) ?_ (.inr ⟨_, _, rfl⟩)
    simp only [deeds, hs, hr, Bool.false_eq_true, if_false]
  | takes hs hq hp => exact mimics_of_delivered hm hs hq hp
  | drops hs hq hp => exact mimics_of_dropped hm hs hq hp
  | interrupted hs hq hr => exact mimics_of_interrupted hm hs hq hr
  | timesOut hs _ hq => exact mimics_of_timeOut hm hs hq
  | winds hs ho hk hnew => exact mimics_of_over hm hs ho (hk who) hnew

theorem mimics_of_step {mover : Option Handle} (hm : Matches who l h) (hs : Step h mover h')
    (hb : .booted ∉ h.happenings who mover h') : Mimics who l (h.happenings who mover h') h' := by
  by_cases hmover : mover = some who
  · subst hmover
    refine mimics_of_turns hm (turns_of_step hs) fun hmem => hb ?_
    rw [happenings, if_pos rfl]
    exact List.mem_append_left _ hmem
  · rw [happenings, if_neg hmover]
    exact ⟨_, Loop.trace_pushes l.pending _ l.mode, matches_of_keeps hm (keeps_of_step hs hmover)⟩

/-! ## 3. Runs -/

theorem mimics_of_run {history : List Happening} (hm : Matches who l h) (hr : Run who h history h')
    (hb : .booted ∉ history) : Mimics who l history h' := by
  induction hr with
  | refl => exact ⟨l, .nil l, hm⟩
  | snoc _ hs ih =>
    rw [List.mem_append, not_or] at hb
    obtain ⟨l', ht, hm'⟩ := ih hb.1
    obtain ⟨l'', ht', hm''⟩ := mimics_of_step hm' hs hb.2
    exact ⟨l'', ht.append ht', hm''⟩

/-- A boot has emptied the queue, and a fresh loop begins. -/
theorem matches_of_clear {todo : List BootStep} {session : Session}
    (hc : (h.computer? who).isSome = true)
    (hs : h.stage? who = some (.booting (.clearEvents :: todo) (some session)))
    (hm : h.move? who = some h') : Matches who .fresh h' := by
  cases moves_of_move? hs hm with
  | prepares hb =>
    cases hb
    exact ⟨isSome_setQueue hc [], queue_setQueue hc [], _,
      stage?_setStage_self (h := h.setQueue who []) hs _, .booting todo (some session)⟩
  | bootFails hb => cases hb

theorem mimics_of_bootRun {history : List Happening} (hr : BootRun who history h) :
    Mimics who .fresh history h := by
  obtain ⟨hc, hs, hm, hrun, hb⟩ := hr
  exact mimics_of_run (matches_of_clear hc hs hm) hrun hb

/-! ## 4. Programs that were stopped -/

theorem Matches.stopped (hm : Matches who l h) (hl : l.mode = .halted) :
    h.runState? who = some .stopped := by
  obtain ⟨stage, -, hst⟩ := hm.stands
  rw [hl] at hst
  cases hst with
  | halting _ hstop | halted hstop => exact hstop
  | finished hn | betweenBoots hn => exact absurd rfl hn

theorem Matches.deeds_of_halted (hm : Matches who l h) (hl : l.mode = .halted) :
    h.deeds who h' = [] := by
  obtain ⟨stage, hs, hst⟩ := hm.stands
  have hr := not_running_of_runState? (hm.stopped hl) nofun
  rw [hl] at hst
  cases hst with
  | halting => simp [deeds, hs, hr]
  | halted _ ho => exact deeds_of_isOver hs ho
  | finished hn | betweenBoots hn => exact absurd rfl hn

/-- Nothing but pushes happens to a program that was stopped, and its computer stays stopped. -/
theorem run_of_halted {history : List Happening} (hm : Matches who l h) (hl : l.mode = .halted)
    (hr : Run who h history h') :
    history.all Happening.isPush = true ∧ h'.runState? who = some .stopped := by
  suffices hsuff : history.all Happening.isPush = true ∧
      ∃ l', Matches who l' h' ∧ l'.mode = .halted by
    obtain ⟨hp, l', hm', hl'⟩ := hsuff
    exact ⟨hp, hm'.stopped hl'⟩
  induction hr with
  | refl => exact ⟨rfl, l, hm, hl⟩
  | @snoc h₁ h₂ history mover _ hs ih =>
    obtain ⟨hp, l', hm', hl'⟩ := ih
    have hpush : h₁.happenings who mover h₂ = (h₁.arrivals who h₂).map .pushed := by
      rw [happenings, hm'.deeds_of_halted hl', ite_self, List.nil_append]
    -- in particular no boot begins, so the step is one of the loop
    have hb : .booted ∉ h₁.happenings who mover h₂ := by
      rw [hpush]
      simp
    obtain ⟨l'', ht, hm''⟩ := mimics_of_step hm' hs hb
    have hp' : (h₁.happenings who mover h₂).all Happening.isPush = true := by
      rw [hpush]
      simp [Happening.isPush]
    refine ⟨?_, l'', hm'', (ht.mode_of_pushes hp').trans hl'⟩
    rw [List.all_append, hp, hp', Bool.and_self]

end

end ComputerHost.Host
