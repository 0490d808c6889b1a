import ComputerHost.Proofs.Host.Delivery

/-!
# The idle watchdog

A program for which nothing comes in time is told to terminate, once. When it suspends again, what is
queued for it by then takes the warning back; otherwise it is stopped for good.

Results:
1. `moveOn?_of_nothing`: what a wait after its deadline comes to if there is nothing for the program.
2. `waiting_of_quiet`: as long as a wait finds nothing, neither its deadline nor its warning changes.
3. `warned_once_then_stopped`: the watchdog in one boot.
-/

namespace ComputerHost.Host

section
variable {who : Handle} {h h' : Host} {l : Loop} {history past later : List Happening}
  {session : Session} {filter : String} {deadline : Nat} {warned : Bool}

/-! ## 1. Waits after their deadline -/

theorem queue_shutdown (h : Host) (who : Handle) :
    (h.modify who Computer.shutdown).queue who = h.queue who := by
  rw [queue, computer?_modify h who Computer.shutdown fun _ => rfl, queue]
  cases hc : h.computer? who with
  | none => rfl
  | some c =>
    rw [Option.map_some, if_pos (handle_of_computer? hc)]
    rfl

theorem moveOn?_of_nothing (hs : h.stage? who = some (.waiting session filter deadline true))
    (hc : (h.computer? who).isSome = true) (hd : deadline ≤ h.clock)
    (hr : h.isRunning who = true) (hskip : ∀ d ∈ h.queue who, d.passes filter = false) :
    ∃ h' : Host, h.moveOn? who ((h.queue who).length + 1) =
        some ((h.queue who).map .dropped ++ [.stopped], h') ∧
      h'.clock = h.clock ∧ h'.runState? who = some .stopped := by
  obtain ⟨h₁, hon, hs₁, hq₁, hc₁, hclock, hrun⟩ :=
    moveOn?_of_skipped hs hc (List.append_nil _).symm hskip 1
  have hmove := move?_of_waiting_nil hs₁ hc₁ hq₁
  have hr₁ : h₁.isRunning who = true := by rw [isRunning_eq, hrun, ← isRunning_eq, hr]
  rw [if_pos hr₁, hclock, if_pos hd] at hmove
  have harrive : h₁.arrivals who (h₁.timeOut who session true) = [] := by
    have hq' : (h₁.timeOut who session true).queue who = [] := (queue_shutdown h₁ who).trans hq₁
    rw [arrivals, hq', List.drop_nil]
  refine ⟨h₁.timeOut who session true, ?_, hclock, ?_⟩
  · rw [hon, moveOn?, hmove, Option.bind_some, happenings, if_pos rfl, deeds_of_timeOut hs₁ hq₁,
      harrive]
    rfl
  · obtain ⟨c, hc⟩ := Option.isSome_iff_exists.mp hc₁
    have hstop := runState?_shutdown h₁ who
    rw [hc] at hstop
    exact hstop

/-! ## 2. Steps during a wait -/

theorem Turns.of_suspended {values : List Value}
    (hs : h.stage? who = some (.suspended session values warned)) (ht : Turns who h h') :
    h'.stage? who = some (if h.isRunning who then
      .waiting session (filterOf values) (h.clock + if warned then 0 else h.config.idleMs) warned
      else .leaving (some session) .ordinary) := by
  cases ht with
  | suspends hs' hr =>
    cases hs.symm.trans hs'
    rw [if_pos hr]
    exact stage?_setStage_self hs _
  | quits hs' hr =>
    cases hs.symm.trans hs'
    rw [hr, if_neg Bool.false_ne_true]
    exact stage?_setStage_self hs _
  | boots hs' | clears hs' | prepares hs' | resumes hs' | declines hs' | executes hs' | letGo hs'
  | takes hs' | drops hs' | interrupted hs' | timesOut hs' => cases hs.symm.trans hs'
  | winds hs' ho =>
    cases hs.symm.trans hs'
    cases ho

/-- The thread is past the program of its boot. -/
def HasLeft (who : Handle) (h : Host) : Prop :=
  ∃ stage, h.stage? who = some stage ∧ (stage = .betweenBoots ∨ stage.isOver = true)

theorem hasLeft_of_step {mover : Option Handle} (hleft : HasLeft who h) (hs : Step h mover h')
    (hb : .booted ∉ h.happenings who mover h') : HasLeft who h' := by
  obtain ⟨stage, hstage, hover⟩ := hleft
  by_cases hmover : mover = some who
  · subst hmover
    have hb' : .booted ∉ h.deeds who h' := fun hmem =>
      hb (by rw [happenings, if_pos rfl]; exact List.mem_append_left _ hmem)
    cases turns_of_step hs with
    | boots hs' => simp [deeds, hs'] at hb' -- the only way back is told
    | winds hs' _ hk hnew =>
      exact ⟨_, stage?_setStage_self ((hk who).stage _ hs') _,
        hnew.symm.imp_left fun hnew => hnew.1⟩
    | clears hs' | prepares hs' | resumes hs' | declines hs' | executes hs' | letGo hs'
    | suspends hs' | quits hs' | takes hs' | drops hs' | interrupted hs' | timesOut hs' =>
      cases hstage.symm.trans hs'
      rcases hover with hover | hover <;> cases hover
  · exact ⟨stage, (keeps_of_step hs hmover).stage stage hstage, hover⟩

/-- A step with which a wait finds nothing leaves the stage alone, or ends the wait. -/
theorem waiting_of_step {mover : Option Handle}
    (hstage : h.stage? who = some (.waiting session filter deadline warned))
    (hs : Step h mover h') (hq : (h.happenings who mover h').all (·.isQuiet filter) = true) :
    h'.stage? who = some (.waiting session filter deadline warned) ∨ HasLeft who h' := by
  by_cases hmover : mover = some who
  · subst hmover
    have hq' : (h.deeds who h').all (·.isQuiet filter) = true := by
      rw [happenings, if_pos rfl, List.all_append, Bool.and_eq_true] at hq
      exact hq.1
    cases turns_of_step hs with
    | drops hs' =>
      cases hstage.symm.trans hs'
      exact .inl hstage
    | interrupted hs' =>
      cases hstage.symm.trans hs'
      exact .inr ⟨_, stage?_setStage_self hstage _, .inr rfl⟩
    | takes hs' hqueue hp =>
      cases hstage.symm.trans hs'
      simp [deeds, hstage, hqueue, hp, Happening.isQuiet] at hq'
    | timesOut hs' hc hqueue =>
      cases hstage.symm.trans hs'
      rw [deeds_of_timeOut hstage hqueue] at hq'
      cases warned <;> cases hq'
    | boots hs' | clears hs' | prepares hs' | resumes hs' | declines hs' | executes hs' | letGo hs'
    | suspends hs' | quits hs' => cases hstage.symm.trans hs'
    | winds hs' ho =>
      cases hstage.symm.trans hs'
      cases ho
  · exact .inl ((keeps_of_step hs hmover).stage _ hstage)

/-- As long as a wait finds nothing, it keeps its deadline and its warning. -/
theorem waiting_of_quiet (hm : Matches who l h)
    (hs : h.stage? who = some (.waiting session filter deadline warned))
    (hr : Run who h later h') (hq : later.all (·.isQuiet filter) = true) :
    h'.isRunning who = true →
      h'.stage? who = some (.waiting session filter deadline warned) := by
  have hb : .booted ∉ later := fun hmem => nomatch List.all_eq_true.mp hq _ hmem
  -- while it waits the thread stays at the stage, or leaves the boot for good
  have hstay : h'.stage? who = some (.waiting session filter deadline warned) ∨
      HasLeft who h' := by
    clear hm
    induction hr with
    | refl => exact .inl hs
    | snoc _ hstep ih =>
      rw [List.all_append, Bool.and_eq_true] at hq
      rw [List.mem_append, not_or] at hb
      rcases ih hq.1 hb.1 with hs' | hleft
      · exact waiting_of_step hs' hstep hq.2
      · exact .inr (hasLeft_of_step hleft hstep hb.2)
  intro hrun
  rcases hstay with hs' | ⟨stage, hs', hleft⟩
  · exact hs'
  · -- a computer that runs has not left a wait
    obtain ⟨l', ht, hm'⟩ := mimics_of_run hm hr hb
    have hmode := ht.mode_of_quiet (hm.stands_at hs).mode_of_waiting.1 hq
    have hst := hm'.stands_at hs'
    rw [hmode] at hst
    cases hst with
    | finished _ _ hrest => rcases hrest hrun with h | ⟨_, h⟩ <;> cases h
    | betweenBoots _ hr' =>
      rw [hr'] at hrun
      cases hrun
    | waiting => rcases hleft with h | h <;> cases h

/-- Whatever others do meanwhile, a wait takes the first event there is for the program. -/
theorem deeds_of_found {e : Event} {skipped rest : List Event} (hm : Matches who l h)
    (hs : h.stage? who = some (.waiting session filter deadline warned))
    (hq : h.queue who = skipped ++ e :: rest)
    (hskip : ∀ d ∈ skipped, d.passes filter = false) (he : e.passes filter = true)
    (hr : Run who h later h') (hb : .booted ∉ later) :
    deedsOf later <+: skipped.map .dropped ++ [.delivered e] ∨
      skipped.map .dropped ++ [.delivered e] <+: deedsOf later := by
  obtain ⟨l', ht, -⟩ := mimics_of_run hm hr hb
  have hmode := (hm.stands_at hs).mode_of_waiting.1
  obtain ⟨pending, mode⟩ := l
  subst hmode
  obtain rfl := hm.pending.symm.trans hq
  exact ht.deeds_of_found hskip he

/-! ## 3. The watchdog in one boot -/

theorem isRunning_of_resumed {args : List Value} (hd : .resumed args ∈ h.deeds who h') :
    h.isRunning who = true := by
  unfold deeds at hd
  split at hd
  · simp at hd
  · simp at hd
  · split at hd
    · assumption
    · simp at hd
  · split at hd <;> simp at hd
  · split at hd
    · split at hd <;> simp at hd
    · split at hd
      · split at hd <;> simp at hd
      · simp at hd
  · simp at hd

/-- The program is resumed with a warning exactly if its computer still runs. -/
theorem resumed_after_timeout {since : List Happening} (hm : Matches who l h)
    (ht : Loop.Trace .fresh (past ++ .timedOut :: since) l)
    (hp : since.all Happening.isPush = true) :
    h.deeds who h' = [.resumed Event.terminate.values] ↔ h.isRunning who = true := by
  constructor
  · intro hd
    have hmem : .resumed Event.terminate.values ∈ h.deeds who h' := by
      rw [hd]
      exact List.mem_cons_self
    exact isRunning_of_resumed hmem
  · intro hr
    obtain ⟨_, after, -, hg, hsince⟩ := ht.at
    have hmode : l.mode = .due Event.terminate.values true := by
      rw [hsince.mode_of_pushes hp]
      cases hg
      rfl
    have howed : Event.terminate.values ∈ l.mode.owed := by
      rw [hmode]
      exact List.mem_cons_self
    rcases hm.owed hr howed with hnil | ⟨session, warned, hs⟩
    · cases hnil
    · simp only [deeds, hs, hr, if_true]

/-- In one boot
- a wait warns the program only when it has consumed every event that was pushed, without a match, and
  only if it was not warned since its last suspension;
- the program is then resumed with `terminate`, exactly if the computer still runs;
- when it has suspended, the wait is over at once if it was warned since its last suspension, and lasts
  for the idle time otherwise; if something was asked of the computer, the boot just ends;
- a wait after a warning takes the first event there is for the program, which takes the warning back,
  and stops the computer if there is none, without time passing;
- a wait stops the computer only when there was nothing for the program, which had been warned;
- a stopped computer stays so, and its program is never resumed;
- between two warnings the program is resumed with an event;
- as long as a wait finds nothing, its deadline and its warning stay. -/
theorem warned_once_then_stopped (hr : BootRun who history h) :
    (∀ past later, history = past ++ .timedOut :: later →
      pushedOf past = consumedOf past ∧ ∃ filter before, Waits filter before past ∧
        firstFor? filter before past = none ∧ ¬Warned before) ∧
    (∀ past since h', history = past ++ .timedOut :: since → since.all Happening.isPush = true →
      Step h (some who) h' →
      (h.deeds who h' = [.resumed Event.terminate.values] ↔ h.isRunning who = true)) ∧
    (∀ session values warned h', h.stage? who = some (.suspended session values warned) →
      Step h (some who) h' →
      (warned = true ↔ Warned history) ∧
      h'.stage? who = some (if h.isRunning who then
        .waiting session (filterOf values) (h.clock + if warned then 0 else h.config.idleMs) warned
        else .leaving (some session) .ordinary)) ∧
    (∀ session filter deadline, h.stage? who = some (.waiting session filter deadline true) →
      (∀ e skipped rest, h.queue who = skipped ++ e :: rest →
        (∀ d ∈ skipped, d.passes filter = false) → e.passes filter = true →
        (∃ h' : Host,
          h.moveOn? who (skipped.length + 1) =
            some (skipped.map .dropped ++ [.delivered e], h') ∧
          h'.clock = h.clock ∧ h'.stage? who = some (.resuming session e.values false) ∧
          h'.queue who = rest) ∧
        ∀ later h', Run who h later h' → .booted ∉ later →
          deedsOf later <+: skipped.map .dropped ++ [.delivered e] ∨
            skipped.map .dropped ++ [.delivered e] <+: deedsOf later) ∧
      (h.isRunning who = true → (∀ d ∈ h.queue who, d.passes filter = false) →
        ∃ h' : Host,
          h.moveOn? who ((h.queue who).length + 1) =
            some ((h.queue who).map .dropped ++ [.stopped], h') ∧
          h'.clock = h.clock ∧ h'.runState? who = some .stopped)) ∧
    (∀ past later, history = past ++ .stopped :: later →
      pushedOf past = consumedOf past ∧ ∃ filter before, Waits filter before past ∧
        firstFor? filter before past = none ∧ Warned before) ∧
    (.stopped ∈ history → ∀ later h', Run who h later h' →
      later.all Happening.isPush = true ∧ h'.runState? who = some .stopped) ∧
    (∀ past between later, history = past ++ .timedOut :: between ++ .timedOut :: later →
      ∃ e before after, between = before ++ .delivered e :: after ∧ .resumed e.values ∈ after) ∧
    (∀ session filter deadline warned later h',
      h.stage? who = some (.waiting session filter deadline warned) → Run who h later h' →
      later.all (·.isQuiet filter) = true → h'.isRunning who = true →
      h'.stage? who = some (.waiting session filter deadline warned)) := by
  obtain ⟨l, ht, hm⟩ := mimics_of_bootRun hr
  refine ⟨?_, ?_, ?_, ?_, ?_, ?_, ?_, ?_⟩
  · rintro past later rfl
    exact ht.of_timedOut
  · rintro past since h' rfl hp -
    exact resumed_after_timeout hm ht hp
  · intro session values warned h' hs hstep
    have hmode := (hm.stands_at hs).mode_of_program rfl
    exact ⟨ht.warned_iff (by rw [hmode]; rfl), (turns_of_step hstep).of_suspended hs⟩
  · intro session filter deadline hs
    have hd := (hm.stands_at hs).mode_of_waiting.2 rfl
    refine ⟨fun e skipped rest hq hskip he => ⟨?_, fun later h' hrun hb => ?_⟩,
      moveOn?_of_nothing hs hm.computer hd⟩
    · exact moveOn?_of_found hs hm.computer hq hskip he
    · exact deeds_of_found hm hs hq hskip he hrun hb
  · rintro past later rfl
    exact ht.of_stopped
  · intro hstop later h' hrun
    obtain ⟨past, after, rfl⟩ := List.append_of_mem hstop
    obtain ⟨_, _, -, hg, hafter⟩ := ht.at
    cases hg with
    | stopped => exact run_of_halted hm (hafter.mode_of_halted rfl) hrun
  · rintro past between later rfl
    exact ht.resumed_between
  · intro session filter deadline warned later h' hs hrun hq
    exact waiting_of_quiet hm hs hrun hq

end

/-- Nothing is ever pushed for the program, and what comes too late does not resume it. -/
theorem warned_once_then_stopped_readingKeys :
    ∃ h : Host, BootRun keyReader [.resumed [], .suspended "key", .timedOut,
        .resumed Event.terminate.values, .suspended "", .stopped] h ∧
      ∀ later h', Run keyReader h later h' →
        later.all Happening.isPush = true ∧ h'.runState? keyReader = some .stopped := by
  obtain ⟨h₁, hwaits⟩ : ∃ h₁ : Host, readyForKeys.moveOn? keyReader 4 =
      some ([.resumed [], .suspended "key"], h₁) ∧ h₁.clock = 0 ∧
      ∃ h₂ : Host, moveOn? keyReader 5 { h₁ with clock := 17000 } = some ([.timedOut,
        .resumed Event.terminate.values, .suspended "", .stopped], h₂) :=
    ⟨_, rfl, rfl, _, rfl⟩
  obtain ⟨hmoves, hclock, h₂, hmoves'⟩ := hwaits
  have hpass : Run keyReader h₁ [] { h₁ with clock := 17000 } := by
    have hnothing : h₁.happenings keyReader none { h₁ with clock := 17000 } = [] :=
      congrArg (List.map Happening.pushed) List.drop_length
    rw [← hnothing]
    exact .snoc (.refl h₁) (.passes (by rw [hclock]; exact Nat.zero_le _))
  have hr := bootRun_of_readyForKeys
    ((run_of_moveOn? hmoves).trans (hpass.trans (run_of_moveOn? hmoves'))) (by simp)
  obtain ⟨-, -, -, -, -, hstopped, -⟩ := warned_once_then_stopped hr
  exact ⟨h₂, hr, hstopped (by simp)⟩

end ComputerHost.Host
