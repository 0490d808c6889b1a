import ComputerHost.Proofs.Host.TimerFate

/-!
# The marks of timers whose computer is gone

A teardown retires its computer first, takes the timers of the computer much later and marks what it has
taken after that, and a mark is used up when the owner of its timer is looked for. A timer whose owner is
looked for before the marks are made has no mark to use up; if its computer still has it the teardown marks
it all the same, and as the number of a timer is drawn once the mark stays for good (`Missed`). That happens
to timers that were dropped because their computer did not resolve any more, and to those that were taken
while they were being delivered (`Dropped`).

Results:
1. `mem_timersOf_on`, `pends_on`, `cancelled_on`, `mem_freedTimers_on`: what one change does.
2. `delivering_of_evolves`: what becomes of a timer whose owner was looked for.
3. `marking_of_evolves`: the invariant behind the marks.
4. `marks_left_behind`: the marks of timers that the service no longer knows are those of the timers that
   were missed, and without one that was missed an idle service leaves no marks.
-/

namespace ComputerHost

namespace TimerService

theorem mem_cancelled_of_select {entries : List TimerEntry} {cancelled : List TimerId} {i : TimerId}
    (hi : i ∈ (select entries cancelled).2) : i ∈ cancelled := by
  induction entries generalizing cancelled with
  | nil => exact hi
  | cons entry rest ih =>
    unfold select at hi
    split at hi
    · exact List.erase_subset (ih hi)
    · exact ih hi

/-- What is not cancelled is selected. -/
theorem mem_select {entries : List TimerEntry} {cancelled : List TimerId} {e : TimerEntry}
    (he : e ∈ entries) (hn : e.id ∉ cancelled) : e ∈ (select entries cancelled).1 := by
  induction entries generalizing cancelled with
  | nil => exact he
  | cons entry rest ih =>
    unfold select
    split
    · next hc =>
      rcases List.mem_cons.mp he with rfl | he
      · exact absurd (List.contains_iff_mem.mp hc) hn
      · exact ih he fun hm => hn (List.erase_subset hm)
    · rcases List.mem_cons.mp he with rfl | he
      · exact List.mem_cons_self
      · exact List.mem_cons_of_mem _ (ih he hn)

end TimerService

namespace Host

/-- Does the service know a timer, or has it handed the timer over? -/
def Knows (h : Host) (id : TimerId) : Prop := id ∈ h.scheduled.map (·.id)

/-- Is the owner of a timer still to be looked for? -/
def Pends (h : Host) (id : TimerId) : Prop := id ∈ (h.timers.pending ++ h.due).map (·.id)

/-- A computer waits for a timer, or its teardown has taken the timer and not marked it yet. -/
def Owns (h : Host) (who : Handle) (id : TimerId) : Prop := id ∈ h.timersOf who ∨ id ∈ h.takenTimersOf who

/-- The timer whose owner a change looks for. -/
def sought? : Host × Change → Option TimerId
  | (h, .resolve) => if h.firing.isNone then h.due.head?.map (·.id) else none
  | _ => none

/-- Does a change start a timer only if the computer has its host? -/
def startsHosted : Host × Change → Bool
  | (h, .startTimer who _) => !(h.computer? who).isSome || h.hasHost who
  | _ => true

/-- Timers are started only on computers that have their host. -/
def Hosted (trace : List (Host × Change)) : Prop := ∀ step ∈ trace, startsHosted step = true

instance (trace : List (Host × Change)) : Decidable (Hosted trace) :=
  inferInstanceAs (Decidable (∀ step ∈ trace, _))

/-- The owner of a timer was looked for, and this is what came later. -/
def Resolved (id : TimerId) (trace later : List (Host × Change)) : Prop :=
  ∃ past step, trace = past ++ step :: later ∧ sought? step = some id

/-- The owner of a timer was looked for before the teardown of `who` marked the timer. -/
def Missed (who : Handle) (id : TimerId) (trace : List (Host × Change)) : Prop :=
  ∃ later, Resolved id trace later ∧ .marked who id ∈ timerNotesOf later

/-- The delivery of a timer that `who` had could come to nothing only: when its owner was looked for `who`
was retired or had given it to its teardown, or it was taken while it was being delivered. -/
def Dropped (who : Handle) (id : TimerId) (trace : List (Host × Change)) : Prop :=
  ∃ past step later, trace = past ++ step :: later ∧
    (sought? step = some id ∧ (.retired who ∈ timerNotesOf past ∨ .taken who id ∈ timerNotesOf past) ∨
      step.1.firing.map (·.id) = some id ∧ .taken who id ∈ timerNotes step)

/-! ## 1. One change -/

section
variable {h h' : Host} {who w : Handle} {id i : TimerId} {x : Change}

theorem sought?_eq_some_iff : sought? (h, x) = some id ↔
    x = .resolve ∧ h.firing = none ∧ ∃ entry due, h.due = entry :: due ∧ entry.id = id := by
  constructor
  · intro hr
    cases x with
    | resolve =>
      obtain ⟨hfiring, hhead⟩ := Option.ite_none_right_eq_some.mp hr
      obtain ⟨entry, hfirst, hid⟩ := Option.map_eq_some_iff.mp hhead
      obtain ⟨due, hdue⟩ := List.head?_eq_some_iff.mp hfirst
      exact ⟨rfl, Option.isNone_iff_eq_none.mp hfiring, entry, due, hdue, hid⟩
    | _ => cases hr
  · rintro ⟨rfl, hfiring, entry, due, hdue, rfl⟩
    simp [sought?, hfiring, hdue]

theorem sought?_of_ne (hx : x ≠ .resolve) (h : Host) : sought? (h, x) = none :=
  Option.eq_none_iff_forall_ne_some.mpr fun _ hr => hx (sought?_eq_some_iff.mp hr).1

theorem knows_iff : h.Knows id ↔ h.Pends id ∨ h.firing.map (·.id) = some id := by
  unfold Knows Pends scheduled underway
  rw [← List.append_assoc, List.map_append, List.mem_append]
  refine or_congr_right ?_
  cases h.firing <;> simp [eq_comm]

theorem mem_timersOf_on (hi : i ∈ (x.on h).timersOf who) :
    i ∈ h.timersOf who ∨ ∃ ms, x = .startTimer who ms ∧ i = ⟨h.counters.timer⟩ ∧
      (h.computer? who).isSome = true := by
  have hd := differs_on x h
  have hsame (hx : ¬x.Touches (.timers who)) : i ∈ h.timersOf who := by
    have ha : (x.on h).timersOf who = h.timersOf who := hd.agrees (.timers who) hx
    rwa [ha] at hi
  cases x with
  | startTimer v ms =>
    change i ∈ (h.startTimer v ms).2.timersOf who at hi
    rw [timersOf_startTimer] at hi
    split at hi
    · next hc =>
      obtain ⟨rfl, hsome⟩ := hc
      rcases List.mem_append.mp hi with hi | hi
      · exact .inl hi
      · exact .inr ⟨ms, rfl, List.mem_singleton.mp hi, hsome⟩
    · exact .inl hi
  | cancelTimer v id =>
    change i ∈ (h.cancelTimer v id).2.timersOf who at hi
    rw [timersOf_cancelTimer] at hi
    split at hi
    · exact .inl (List.mem_of_mem_filter hi)
    · exact .inl hi
  | fire => exact .inl (mem_timersOf_fire hi)
  | teardown v step =>
    cases step with
    | takeTimers =>
      change i ∈ (h.teardownStep v .takeTimers).timersOf who at hi
      rw [timersOf_takeTimers] at hi
      split at hi
      · cases hi
      · exact .inl hi
    | _ => exact .inl (hsame not_false)
  | _ =>
    exact .inl (hsame (by simp [Change.Touches, Aspect.OfSpawn, Aspect.OfWiring, Aspect.OfResolution]))

theorem owns_on (hi : (x.on h).Owns who i) : h.Owns who i ∨ ∃ ms, x = .startTimer who ms ∧
    i = ⟨h.counters.timer⟩ ∧ (h.computer? who).isSome = true := by
  rcases hi with hi | hi
  · exact (mem_timersOf_on hi).imp_left .inl
  · rcases mem_takenTimersOf_on hi with hi | ⟨-, hi⟩
    · exact .inl (.inr hi)
    · exact .inl (.inl hi)

theorem mem_sweep {e : TimerEntry} (he : e ∈ h.timers.pending ++ h.due) (hn : e.id ∉ h.timers.cancelled) :
    e ∈ h.sweep.timers.pending ++ h.sweep.due := by
  rcases List.mem_append.mp he with he | he
  · rw [← List.takeWhile_append_dropWhile (p := (·.fireAt ≤ h.clock)) (l := h.timers.pending)] at he
    rcases List.mem_append.mp he with he | he
    · exact List.mem_append_right _ (List.mem_append_right _ (TimerService.mem_select he hn))
    · exact List.mem_append_left _ he
  · exact List.mem_append_right _ (List.mem_append_left _ he)

/-- A timer that waits still does when another one is given to the service. -/
theorem pends_of_place (hp : h'.timers.pending = h.timers.pending ∨
      ∃ entry, h'.timers.pending = TimerService.place entry h.timers.pending)
    (hdue : h'.due = h.due) (hk : h.Pends i) : h'.Pends i := by
  unfold Pends at hk ⊢
  rw [hdue]
  rcases hp with heq | ⟨entry, heq⟩ <;> rw [heq]
  · exact hk
  · refine ((((TimerService.perm_place entry _).append_right _).map _).symm.subset ?_)
    exact List.mem_cons_of_mem _ hk

/-- The owner of a timer is looked for unless the timer is cancelled. -/
theorem pends_on (hk : h.Pends i) (hn : i ∉ h.timers.cancelled) (hr : sought? (h, x) ≠ some i) :
    (x.on h).Pends i := by
  have hd := differs_on x h
  have hsame (hx : ¬x.Touches .service) : (x.on h).Pends i := by
    obtain ⟨htimers, hdue, -⟩ := hd.agrees .service hx
    exact pends_of_place (.inl (htimers ▸ rfl)) hdue hk
  cases x with
  | startTimer v ms => exact pends_of_place (pending_startTimer h v ms) (underway_startTimer h v ms).1 hk
  | debounce v ms e => exact pends_of_place (pending_debounce h v ms e) (underway_debounce h v ms e).1 hk
  | cancelTimer v id =>
    exact pends_of_place (.inl (pending_cancelTimer h v id)) (underway_cancelTimer h v id).1 hk
  | sweep =>
    obtain ⟨e, he, rfl⟩ := List.mem_map.mp hk
    exact List.mem_map.mpr ⟨e, mem_sweep he hn, rfl⟩
  | resolve =>
    obtain ⟨entry, due, hfiring, hdue⟩ | ⟨-, heq⟩ := h.resolve_cases
    · unfold Pends at hk ⊢
      rw [timers_resolve, due_resolve hfiring hdue]
      rw [hdue] at hk
      rcases List.mem_cons.mp ((List.perm_middle.map _).subset hk) with heq | hk
      · exact absurd (sought?_eq_some_iff.mpr ⟨rfl, hfiring, entry, due, hdue, heq.symm⟩) hr
      · exact hk
    · rwa [heq]
  | fire => exact pends_of_place (.inl (congrArg _ (timers_fire h))) (due_fire h) hk
  | teardown v step =>
    cases step with
    | cancelDebounce =>
      exact pends_of_place (.inl (pending_cancelDebounce h v)) (underway_cancelDebounce h v).1 hk
    | _ => exact hsame not_false
  | _ => exact hsame (by simp [Change.Touches, Aspect.OfSpawn, Aspect.OfWiring])

theorem pends_schedule (h : Host) (w : Handle) (id : TimerId) (fireAt : Nat) (e : Event) :
    (h.schedule w id fireAt e).Pends id := by
  have hplaced : (⟨fireAt, id, w, e⟩ : TimerEntry) ∈ (h.schedule w id fireAt e).timers.pending :=
    (TimerService.perm_place _ _).symm.subset List.mem_cons_self
  exact List.mem_map.mpr ⟨_, List.mem_append_left _ hplaced, rfl⟩

/-- A timer that is started is known to the service, if its computer has its host. -/
theorem pends_startTimer {ms : Nat} (hhost : h.hasHost w = true) :
    (h.startTimer w ms).2.Pends ⟨h.counters.timer⟩ := by
  have hhosts : ({ h with counters := h.counters.newTimer.2 }.modify w
      (·.trackTimer h.counters.newTimer.1)).hasHost w = true :=
    (congrArg (Option.getD · false) (map_computer?_modify (f := (·.trackTimer h.counters.newTimer.1))
      (g := (·.hasHost)) (fun _ => rfl) fun _ _ => rfl)).trans hhost
  unfold startTimer
  dsimp only
  rw [if_pos hhosts]
  exact pends_schedule ..

theorem knows_of_cancelled {s : TimerService} {i : TimerId} (hs : s.pending = h.timers.pending)
    (hi : i ∈ s.pending.map (·.id)) : h.Knows i := by
  rw [hs] at hi
  exact List.map_subset _ (List.subset_append_left _ _) hi

theorem mem_cancelled_cancel (hi : i ∈ (h.timers.cancel id).cancelled) :
    i ∈ h.timers.cancelled ∨ i = id ∧ h.Knows i := by
  rcases TimerService.mem_cancelled_cancel.mp hi with hi | ⟨rfl, e, he, heq⟩
  · exact .inl hi
  · exact .inr ⟨rfl, knows_of_cancelled rfl (List.mem_map.mpr ⟨e, he, heq⟩)⟩

theorem mem_cancelled_cancelTimer (hi : i ∈ (h.cancelTimer w id).2.timers.cancelled) :
    i ∈ h.timers.cancelled ∨ i = id ∧ h.Knows i ∧ i ∈ h.timersOf w := by
  have hupdate : (h.update w (·.dropTimer id) false).2.timers = h.timers :=
    congrArg (·.timers) (update_frame ..)
  unfold cancelTimer at hi
  dsimp only at hi
  split at hi
  · next hwas =>
    rw [Bool.and_eq_true] at hwas
    rw [hupdate] at hi
    rcases mem_cancelled_cancel hi with hi | ⟨rfl, hk⟩
    · exact .inl hi
    · exact .inr ⟨rfl, hk, (cancelTimer_fst h w i).mp hwas.1⟩
  · exact .inl (hupdate ▸ hi)

theorem mem_cancelled_debounce {ms : Nat} {e : Event}
    (hi : i ∈ (h.debounce w ms e).2.timers.cancelled) :
    i ∈ h.timers.cancelled ∨ h.Knows i ∧ h.debounceOf? w = some i := by
  have hupdate : (({ h with counters := h.counters.newTimer.2 } : Host).update w
      (·.armDebounce h.counters.newTimer.1) none).2.timers = h.timers :=
    congrArg (·.timers) (update_frame ..)
  have hprevious : (({ h with counters := h.counters.newTimer.2 } : Host).update w
      (·.armDebounce h.counters.newTimer.1) none).1 = h.debounceOf? w := update_fst ..
  unfold debounce at hi
  dsimp only at hi
  split at hi
  · dsimp only [schedule, TimerService.schedule] at hi
    rw [hupdate, hprevious] at hi
    split at hi
    · next old hold =>
      rcases mem_cancelled_cancel hi with hi | ⟨rfl, hk⟩
      · exact .inl hi
      · exact .inr ⟨hk, hold⟩
    · exact .inl hi
  · exact .inl (hupdate ▸ hi)

theorem mem_cancelled_cancelDebounce
    (hi : i ∈ (h.teardownStep w .cancelDebounce).timers.cancelled) :
    i ∈ h.timers.cancelled ∨ h.Knows i ∧ h.debounceOf? w = some i := by
  have hupdate : (h.update w (fun c => (c.debounce, { c with debounce := none })) none).2.timers =
      h.timers := congrArg (·.timers) (update_frame ..)
  have hprevious : (h.update w (fun c => (c.debounce, { c with debounce := none })) none).1 =
      h.debounceOf? w := update_fst ..
  unfold teardownStep at hi
  dsimp only at hi
  rw [hprevious] at hi
  split at hi
  · next old hold =>
    dsimp only at hi
    rw [hupdate] at hi
    rcases mem_cancelled_cancel hi with hi | ⟨rfl, hk⟩
    · exact .inl hi
    · exact .inr ⟨hk, hold⟩
  · exact .inl (hupdate ▸ hi)

/-- What is cancelled was started by a program or armed by the host. -/
theorem cancelled_on (hi : i ∈ (x.on h).timers.cancelled) :
    i ∈ h.timers.cancelled ∨ h.Knows i ∧
      ((∃ who, x = .cancelTimer who i ∧ i ∈ h.timersOf who) ∨ ∃ who, h.debounceOf? who = some i) := by
  have hd := differs_on x h
  have hsame (hx : ¬x.Touches .service) : i ∈ h.timers.cancelled := by
    rwa [(hd.agrees .service hx).1] at hi
  cases x with
  | startTimer v ms =>
    have hservice : (h.startTimer v ms).2.timers.cancelled = h.timers.cancelled := by
      unfold startTimer
      dsimp only
      split <;> rfl
    exact .inl (hservice ▸ hi)
  | cancelTimer v id =>
    refine (mem_cancelled_cancelTimer hi).imp_right ?_
    rintro ⟨rfl, hk, hw⟩
    exact ⟨hk, .inl ⟨v, rfl, hw⟩⟩
  | debounce v ms e => exact (mem_cancelled_debounce hi).imp_right fun hc => ⟨hc.1, .inr ⟨v, hc.2⟩⟩
  | sweep => exact .inl (TimerService.mem_cancelled_of_select hi)
  | resolve => exact .inl (timers_resolve h ▸ hi)
  | fire => exact .inl (timers_fire h ▸ hi)
  | teardown v step =>
    cases step with
    | cancelDebounce =>
      exact (mem_cancelled_cancelDebounce hi).imp_right fun hc => ⟨hc.1, .inr ⟨v, hc.2⟩⟩
    | _ => exact .inl (hsame not_false)
  | _ => exact .inl (hsame (by simp [Change.Touches, Aspect.OfSpawn, Aspect.OfWiring]))

/-- A mark is set by a teardown, and used up when the owner of its timer is looked for. -/
theorem mem_freedTimers_on :
    i ∈ (x.on h).registry.freedTimers ↔
      i ∈ h.registry.freedTimers ∧ sought? (h, x) ≠ some i ∨
        ∃ w, x = .teardown w .invalidateTimers ∧ i ∈ h.takenTimersOf w := by
  have hd := differs_on x h
  have hsame (hx : ¬x.Touches .freedTimers) (hres : x ≠ .resolve)
      (hstep : ∀ w, x ≠ .teardown w .invalidateTimers) :
      i ∈ (x.on h).registry.freedTimers ↔
        i ∈ h.registry.freedTimers ∧ sought? (h, x) ≠ some i ∨
          ∃ w, x = .teardown w .invalidateTimers ∧ i ∈ h.takenTimersOf w := by
    have hfreed : (x.on h).registry.freedTimers = h.registry.freedTimers := hd.agrees .freedTimers hx
    rw [hfreed, sought?_of_ne hres]
    simp [hstep]
  cases x with
  | resolve =>
    obtain ⟨entry, due, hfiring, hdue⟩ | ⟨hnot, heq⟩ := h.resolve_cases
    · rw [freedTimers_resolve hfiring hdue]
      simp [sought?, hfiring, hdue, and_comm, eq_comm]
    · have hnone : sought? (h, .resolve) ≠ some i := fun hr => by
        obtain ⟨-, hfiring, entry, due, hdue, -⟩ := sought?_eq_some_iff.mp hr
        exact hnot ⟨hfiring, hdue ▸ List.cons_ne_nil entry due⟩
      rw [heq]
      simp [hnone]
  | teardown v step =>
    cases step with
    | invalidateTimers =>
      refine (freedTimers_invalidateTimers (h := h) (w := v) (i := i)).trans ?_
      simp [sought?, or_comm]
    | _ => exact hsame not_false Change.noConfusion (fun w heq => by cases heq)
  | _ =>
    exact hsame (by simp [Change.Touches, Aspect.OfSpawn, Aspect.OfWiring, Aspect.OfFiring])
      Change.noConfusion fun w heq => by cases heq

theorem mem_registered_spawn (id : UInt32) (isDebugger : Bool)
    (hw : ((h.spawn id isDebugger).2.computer? w).isSome = true) :
    w ∈ (h.spawn id isDebugger).2.registry.registered ∨
      (h.computer? w).isSome = true ∧ w ∉ h.registry.registered := by
  rcases hs : h.spawn id isDebugger with ⟨made, h₁⟩
  rw [hs] at hw
  cases made with
  | ok v =>
    obtain ⟨-, -, hreg, -, terminal, mounts, config, dataDir, hcs⟩ := spawn_ok hs
    rw [computer?_of_append hcs] at hw
    have hreg' : h₁.registry.registered = h.registry.registered ++ [v] := congrArg (·.registered) hreg
    show w ∈ h₁.registry.registered ∨ _
    rw [hreg', List.mem_append, List.mem_singleton]
    by_cases hv : w = v
    · exact .inl (.inr hv)
    · have hold : (h.computer? w).isSome = true := by
        rw [if_neg fun heq => hv heq.symm, Option.or_none] at hw
        exact hw
      exact (em (w ∈ h.registry.registered)).imp .inl fun hn => ⟨hold, hn⟩
  | error e =>
    have hd := differs_of_spawn_error hs
    have hold : (h.computer? w).isSome = true := ((hd.agrees .roster nofun).2 w).symm.trans hw
    have hreg : h₁.registry.registered = h.registry.registered := (hd.agrees .registered nofun).1
    show w ∈ h₁.registry.registered ∨ _
    rw [hreg]
    exact (em (w ∈ h.registry.registered)).imp_right fun hn => ⟨hold, hn⟩

/-- Who is there after a change is registered, or was there and is not registered any more. -/
theorem mem_registered_on (hw : ((x.on h).computer? w).isSome = true) :
    w ∈ (x.on h).registry.registered ∨
      (h.computer? w).isSome = true ∧ (w ∉ h.registry.registered ∨ x = .teardown w .retire) := by
  have hd := differs_on x h
  have hsame (hroster : ¬x.Touches .roster) (hreg : ¬x.Touches .registered) :
      w ∈ (x.on h).registry.registered ∨
        (h.computer? w).isSome = true ∧ (w ∉ h.registry.registered ∨ x = .teardown w .retire) := by
    have hold : (h.computer? w).isSome = true :=
      ((hd.agrees .roster hroster).2 w).symm.trans hw
    rw [(hd.agrees .registered hreg).1]
    exact (em (w ∈ h.registry.registered)).imp_right fun hn => ⟨hold, .inl hn⟩
  cases x with
  | spawn id isDebugger =>
    exact (mem_registered_spawn id isDebugger hw).imp_right fun hold => ⟨hold.1, .inl hold.2⟩
  | turnOn link =>
    change ((h.turnOn link).computer? w).isSome = true at hw
    show w ∈ (h.turnOn link).registry.registered ∨ _
    obtain heq | ⟨l, -, heq | ⟨v, -, heq⟩⟩ := turnOn_cases h link <;> rw [heq] at hw ⊢
    · exact (em (w ∈ h.registry.registered)).imp_right fun hn => ⟨hw, .inl hn⟩
    · exact (mem_registered_spawn _ _ hw).imp_right fun hold => ⟨hold.1, .inl hold.2⟩
    · have hretarget := differs_retarget (h.spawn l.target.id false).2 link l v
      rw [(hretarget.agrees .registered (by simp)).1]
      have hthere := ((hretarget.agrees .roster (by simp)).2 w).symm.trans hw
      exact (mem_registered_spawn _ _ hthere).imp_right fun hold => ⟨hold.1, .inl hold.2⟩
  | teardown v step =>
    cases step with
    | retire =>
      show w ∈ h.registry.registered.erase v ∨ _
      by_cases hm : w ∈ h.registry.registered
      · by_cases hv : w = v
        · exact .inr ⟨hw, .inr (hv ▸ rfl)⟩
        · exact .inl ((List.mem_erase_of_ne hv).mpr hm)
      · exact .inr ⟨hw, .inl hm⟩
    | release =>
      show w ∈ h.registry.registered ∨ _
      exact (em (w ∈ h.registry.registered)).imp_right fun hn => ⟨hw, .inl hn⟩
    | _ => exact hsame not_false not_false
  | _ =>
    refine hsame ?_ ?_ <;> simp [Change.Touches, Aspect.OfWiring, Aspect.OfResolution, Aspect.OfFiring]

/-! ## 2. Deliveries -/

variable {trace later : List (Host × Change)}

theorem resolved_snoc : Resolved id (trace ++ [(h, x)]) later ↔
    later = [] ∧ sought? (h, x) = some id ∨
      ∃ later', later = later' ++ [(h, x)] ∧ Resolved id trace later' := by
  constructor
  · rintro ⟨past, step, heq, hres⟩
    obtain rfl | ⟨later', last, rfl⟩ := List.eq_nil_or_concat' later
    · obtain ⟨rfl, hlast⟩ := List.append_inj' heq rfl
      cases List.singleton_inj.mp hlast
      exact .inl ⟨rfl, hres⟩
    · rw [← List.cons_append, ← List.append_assoc] at heq
      obtain ⟨rfl, hlast⟩ := List.append_inj' heq rfl
      exact .inr ⟨later', by rw [List.singleton_inj.mp hlast], past, step, rfl, hres⟩
  · rintro (⟨rfl, hres⟩ | ⟨later', rfl, past, step, rfl, hres⟩)
    · exact ⟨trace, (h, x), rfl, hres⟩
    · exact ⟨past, step, by simp, hres⟩

theorem Resolved.snoc (hl : Resolved id trace later) (h : Host) (x : Change) :
    Resolved id (trace ++ [(h, x)]) (later ++ [(h, x)]) :=
  resolved_snoc.mpr (.inr ⟨later, rfl, hl⟩)

/-- A timer is missed when the teardown of its computer marks it after its owner was looked for. -/
theorem missed_snoc :
    Missed who id (trace ++ [(h, x)]) ↔ Missed who id trace ∨
      (∃ later, Resolved id trace later) ∧ .marked who id ∈ timerNotes (h, x) := by
  constructor
  · rintro ⟨later, hl, ht⟩
    rcases resolved_snoc.mp hl with ⟨rfl, -⟩ | ⟨later, rfl, hlate⟩
    · cases ht
    · rw [timerNotesOf_snoc] at ht
      exact (List.mem_append.mp ht).imp (⟨later, hlate, ·⟩) (⟨⟨later, hlate⟩, ·⟩)
  · rintro (⟨later, hl, ht⟩ | ⟨⟨later, hl⟩, ht⟩)
    · refine ⟨_, hl.snoc h x, ?_⟩
      rw [timerNotesOf_snoc]
      exact List.mem_append_left _ ht
    · refine ⟨_, hl.snoc h x, ?_⟩
      rw [timerNotesOf_snoc]
      exact List.mem_append_right _ ht

theorem Dropped.snoc (hd : Dropped who id trace) (h : Host) (x : Change) :
    Dropped who id (trace ++ [(h, x)]) := by
  obtain ⟨past, step, later, rfl, hcase⟩ := hd
  exact ⟨past, step, later ++ [(h, x)], by simp, hcase⟩

theorem dropped_of_resolved (hr : sought? (h, x) = some id)
    (hgone : .retired who ∈ timerNotesOf trace ∨ .taken who id ∈ timerNotesOf trace) :
    Dropped who id (trace ++ [(h, x)]) :=
  ⟨trace, (h, x), [], rfl, .inl ⟨hr, hgone⟩⟩

theorem dropped_of_taken (hf : h.firing.map (·.id) = some id) (ht : .taken who id ∈ timerNotes (h, x)) :
    Dropped who id (trace ++ [(h, x)]) :=
  ⟨trace, (h, x), [], rfl, .inr ⟨hf, ht⟩⟩

/-- What a trace says about the deliveries of timers that a computer still has. -/
structure Delivering (trace : List (Host × Change)) (h : Host) : Prop where
  /-- Who is there is registered or was retired. -/
  known : ∀ who, (h.computer? who).isSome = true →
    who ∈ h.registry.registered ∨ .retired who ∈ timerNotesOf trace
  /-- The owner of a timer is looked for once. -/
  once : ∀ id later, Resolved id trace later → id.number < h.counters.timer ∧ ¬h.Pends id
  awaited : ∀ who, ∀ id ∈ h.timersOf who, ∀ later, Resolved id trace later →
    h.firing.map (·.id) = some id ∨ Dropped who id trace
  taken : ∀ who, ∀ id ∈ h.takenTimersOf who, ∀ later, Resolved id trace later → Dropped who id trace
  missed : ∀ who id, Missed who id trace → Dropped who id trace

theorem not_resolved_nil : ¬Resolved id [] later := by
  rintro ⟨past, step, heq, -⟩
  simp at heq

theorem delivering_new (setup : HostSetup) (tree : FileTree) (store : ConfigStore) :
    Delivering [] (Host.new setup tree store) := by
  constructor
  case known => intro who hsome; simp [computer?, Host.new] at hsome
  case once => exact fun _ _ hr => absurd hr not_resolved_nil
  case awaited => exact fun _ _ _ _ hr => absurd hr not_resolved_nil
  case taken => exact fun _ _ _ _ hr => absurd hr not_resolved_nil
  case missed =>
    rintro who id ⟨later, hr, -⟩
    exact absurd hr not_resolved_nil

theorem mem_scheduled_of_pends (hp : h.Pends id) : ∃ e ∈ h.scheduled, e.id = id :=
  List.mem_map.mp (knows_iff.mpr (.inl hp))

theorem Accounts.drawn_of_knows (ha : Accounts trace h) (hk : h.Knows id) :
    id.number < h.counters.timer := by
  obtain ⟨e, he, rfl⟩ := List.mem_map.mp hk
  exact ha.entryDrawn e he

/-- What a computer has was started on it. -/
theorem Accounts.started_of_owns (ha : Accounts trace h) (hw : h.Owns w id) :
    ∃ deadline, .started w id deadline ∈ timerNotesOf trace := by
  rcases hw with hw | hw
  · exact ((ha.running w id).mp hw).1
  · exact ha.begun w id (.inr (ha.taken w id hw))

/-- What somebody waits for is not marked, nobody else waits for it and no teardown has taken it. -/
theorem Accounts.of_awaited (ha : Accounts trace h) (hi : id ∈ h.timersOf who) :
    id ∉ h.registry.freedTimers ∧ ∀ w, h.Owns w id → w = who ∧ id ∉ h.takenTimersOf w := by
  obtain ⟨⟨deadline, hs⟩, -, -, htaken⟩ := (ha.running who id).mp hi
  have honly {w : Handle} (hw : ∃ deadline', .started w id deadline' ∈ timerNotesOf trace) : w = who := by
    obtain ⟨deadline', hs'⟩ := hw
    exact (ha.unique who w id deadline deadline' hs hs').1
  refine ⟨fun hfreed => ?_, fun w hw => ?_⟩
  · obtain ⟨w, ht⟩ := ha.freed id hfreed
    obtain rfl := honly (ha.begun w id (.inr ht))
    exact htaken ht
  · obtain rfl := honly (ha.started_of_owns hw)
    exact ⟨rfl, fun ht => htaken (ha.taken w id ht)⟩

/-- A debounced event is no timer that somebody has, and it is not marked. -/
theorem Accounts.of_debounce (ha : Accounts trace h) (hd : h.debounceOf? who = some id) :
    id ∉ h.registry.freedTimers ∧ ∀ w, ¬h.Owns w id := by
  have hno := (ha.debounce who id hd).2
  refine ⟨fun hfreed => ?_, fun w hw => ?_⟩
  · obtain ⟨w, ht⟩ := ha.freed id hfreed
    obtain ⟨deadline, hs⟩ := ha.begun w id (.inr ht)
    exact hno w deadline hs
  · obtain ⟨deadline, hs⟩ := ha.started_of_owns hw
    exact hno w deadline hs

/-- The owner of a timer is to be looked for until that is done and not afterwards. -/
theorem not_pends_of_resolved (ha : Accounts trace h) (hr : sought? (h, x) = some id) :
    h.Pends id ∧ ¬(x.on h).Pends id := by
  obtain ⟨rfl, hfiring, entry, due, hdue, rfl⟩ := sought?_eq_some_iff.mp hr
  have hperm : ((h.timers.pending ++ h.due).map (·.id)).Perm
      (entry.id :: (h.timers.pending ++ due).map (·.id)) := by
    rw [hdue]
    exact List.perm_middle.map _
  have hnodup : ((h.timers.pending ++ h.due).map (·.id)).Nodup := by
    refine ha.nodup.sublist (List.Sublist.map _ ?_)
    exact (List.sublist_append_left _ _).append_left _
  unfold Pends
  rw [timers_resolve, due_resolve hfiring hdue]
  exact ⟨hperm.symm.subset List.mem_cons_self, (List.nodup_cons.mp (hperm.nodup_iff.mp hnodup)).1⟩

/-- What is to be looked for is not being delivered. -/
theorem Accounts.not_firing_of_pends (ha : Accounts trace h) (hp : h.Pends id) :
    h.firing.map (·.id) ≠ some id := by
  intro hf
  obtain ⟨entry, hfiring, rfl⟩ := Option.map_eq_some_iff.mp hf
  have hnodup := ha.nodup
  unfold Host.scheduled Host.underway at hnodup
  rw [← List.append_assoc, List.map_append, hfiring] at hnodup
  exact (List.nodup_append.mp hnodup).2.2 entry.id hp entry.id (List.mem_singleton_self _) rfl

/-- Looking for an owner is not undone. -/
theorem not_pends_on (ha : Accounts trace h) (hid : id.number < h.counters.timer) (hno : ¬h.Pends id)
    (x : Change) : ¬(x.on h).Pends id := by
  intro hp
  by_cases hf : h.firing.map (·.id) = some id
  · obtain ⟨entry, hfiring, rfl⟩ := Option.map_eq_some_iff.mp hf
    by_cases hx : x = .fire
    · subst hx
      unfold Pends at hp
      rw [timers_fire, due_fire] at hp
      exact hno hp
    · refine (accounts_on ha x).not_firing_of_pends hp ?_
      rw [firing_on_of_some hx hfiring]
      rfl
  · have hunknown : ∀ e ∈ h.scheduled, e.id ≠ id := fun e he heq =>
      (knows_iff.mp (List.mem_map.mpr ⟨e, he, heq⟩)).elim hno hf
    obtain ⟨e, he, heq⟩ := mem_scheduled_of_pends hp
    exact ((scheduled_on x h).not_scheduled hid hunknown).2 e he heq

/-- The owner of a timer is looked for when it was retired, or the timer is on its way. -/
theorem Delivering.awaited_resolve (hv : Delivering trace h) (ha : Accounts trace h) (hr : Rostered h)
    (hres : sought? (h, x) = some id) (hi : id ∈ (x.on h).timersOf who) :
    (x.on h).firing.map (·.id) = some id ∨ Dropped who id (trace ++ [(h, x)]) := by
  obtain ⟨rfl, hfiring, entry, due, hdue, rfl⟩ := sought?_eq_some_iff.mp hres
  have hwaits : entry.id ∈ h.timersOf who :=
    (mem_timersOf_on hi).resolve_right fun ⟨ms, heq, _⟩ => Change.noConfusion heq
  obtain ⟨⟨deadline, hs⟩, -⟩ := (ha.running who _).mp hwaits
  have howner : entry.owner = who := (ha.entry entry (mem_scheduled_of_due hdue) who deadline hs).1
  by_cases hreaches : h.Reaches entry
  · left
    rw [firing_resolve hfiring hdue, if_pos hreaches]
    rfl
  · right
    have hthere : (h.computer? who).isSome = true := by
      unfold timersOf at hwaits
      cases hc : h.computer? who with
      | none =>
        rw [hc] at hwaits
        cases hwaits
      | some c => rfl
    refine dropped_of_resolved hres (.inl ((hv.known who hthere).resolve_left fun hreg => hreaches ?_))
    refine ⟨(ha.of_awaited hwaits).1, ?_⟩
    rw [howner]
    simp [Registry.resolves, hreg, hr.live who hreg]

theorem Delivering.awaited_on (hv : Delivering trace h) (ha : Accounts trace h) (hr : Rostered h)
    (hi : id ∈ (x.on h).timersOf who) (hl : Resolved id (trace ++ [(h, x)]) later) :
    (x.on h).firing.map (·.id) = some id ∨ Dropped who id (trace ++ [(h, x)]) := by
  rcases resolved_snoc.mp hl with ⟨-, hres⟩ | ⟨later, -, hl⟩
  · exact hv.awaited_resolve ha hr hres hi
  rcases mem_timersOf_on hi with hold | ⟨ms, -, rfl, -⟩
  · rcases hv.awaited who id hold later hl with hf | hdropped
    · obtain ⟨entry, hfiring, rfl⟩ := Option.map_eq_some_iff.mp hf
      by_cases hx : x = .fire
      · -- Nobody waits for a timer that has fired.
        subst hx
        obtain ⟨⟨deadline, hs⟩, -⟩ := (ha.running who _).mp hold
        have howner := (ha.entry entry (mem_scheduled_of_firing hfiring) who deadline hs).1
        rw [timersOf_fire hfiring, if_pos howner.symm] at hi
        simp at hi
      · left
        rw [firing_on_of_some hx hfiring]
        rfl
    · exact .inr (hdropped.snoc h x)
  · exact absurd (hv.once _ _ hl).1 (Nat.lt_irrefl _)

theorem Delivering.taken_on (hv : Delivering trace h) (ha : Accounts trace h)
    (hi : id ∈ (x.on h).takenTimersOf who) (hl : Resolved id (trace ++ [(h, x)]) later) :
    Dropped who id (trace ++ [(h, x)]) := by
  rcases mem_takenTimersOf_on hi with hold | ⟨rfl, hwaits⟩
  · rcases resolved_snoc.mp hl with ⟨-, hres⟩ | ⟨later, -, hl⟩
    · exact dropped_of_resolved hres (.inr (ha.taken who id hold))
    · exact (hv.taken who id hold later hl).snoc h x
  · rcases resolved_snoc.mp hl with ⟨-, hres⟩ | ⟨later, -, hl⟩
    · cases (sought?_eq_some_iff.mp hres).1
    · rcases hv.awaited who id hwaits later hl with hf | hdropped
      · exact dropped_of_taken hf (List.mem_map_of_mem hwaits)
      · exact hdropped.snoc h _

theorem delivering_on (ha : Accounts trace h) (hr : Rostered h) (hv : Delivering trace h) (x : Change) :
    Delivering (trace ++ [(h, x)]) (x.on h) := by
  constructor
  case known =>
    intro who hsome
    rcases mem_registered_on hsome with hreg | ⟨hold, hcase⟩
    · exact .inl hreg
    · right
      rw [timerNotesOf_snoc, List.mem_append]
      rcases hcase with hnot | rfl
      · exact .inl ((hv.known who hold).resolve_left hnot)
      · exact .inr (by simp [timerNotes, hold])
  case once =>
    intro id later hl
    have hcounted := (scheduled_on x h).counted
    rcases resolved_snoc.mp hl with ⟨-, hres⟩ | ⟨later, -, hl⟩
    · obtain ⟨hp, hgone⟩ := not_pends_of_resolved ha hres
      exact ⟨Nat.lt_of_lt_of_le (ha.drawn_of_knows (knows_iff.mpr (.inl hp))) hcounted, hgone⟩
    · obtain ⟨hlt, hgone⟩ := hv.once id later hl
      exact ⟨Nat.lt_of_lt_of_le hlt hcounted, not_pends_on ha hlt hgone x⟩
  case awaited => exact fun who id hi later hl => hv.awaited_on ha hr hi hl
  case taken => exact fun who id hi later hl => hv.taken_on ha hi hl
  case missed =>
    intro who id hmiss
    rcases missed_snoc.mp hmiss with hold | ⟨⟨later, hl⟩, hmark⟩
    · exact (hv.missed who id hold).snoc h x
    · cases says_of_mem hmark with
      | marked hi => exact (hv.taken who id hi later hl).snoc h _

theorem delivering_of_quiet (hv : Delivering trace h) (hq : Quiet h h') : Delivering trace h' := by
  obtain ⟨htimers, hdue, hfiring⟩ := hq.agrees .service not_false
  have hpends (id : TimerId) : h'.Pends id ↔ h.Pends id := by rw [Pends, htimers, hdue, Pends]
  have hnumber : h'.counters.timer = h.counters.timer := hq.agrees .numbering not_false
  have hwaits (who : Handle) : h'.timersOf who = h.timersOf who := hq.agrees (.timers who) not_false
  have htaken (who : Handle) : h'.takenTimersOf who = h.takenTimersOf who :=
    hq.agrees (.taken who) not_false
  have hreg : h'.registry.registered = h.registry.registered := (hq.agrees .registered not_false).1
  have hthere (who : Handle) : (h'.computer? who).isSome = (h.computer? who).isSome :=
    (hq.agrees .roster not_false).2 who
  constructor
  case known => simpa only [hthere, hreg] using hv.known
  case once => simpa only [hnumber, hpends] using hv.once
  case awaited => simpa only [hwaits, hfiring] using hv.awaited
  case taken => simpa only [htaken] using hv.taken
  case missed => exact hv.missed

theorem delivering_of_evolves (setup : HostSetup) (tree : FileTree) (store : ConfigStore)
    (he : Evolves (Host.new setup tree store) trace h) : Delivering trace h := by
  induction he with
  | refl => exact delivering_new setup tree store
  | change he ih =>
    exact delivering_on (accounts_of_evolves he (accounts_new setup tree store))
      (rostered_of_evolves he (rostered_new setup tree store)) ih _
  | quiet _ hq ih => exact delivering_of_quiet ih hq

/-! ## 3. Marks -/

/-- What a trace says about the marks of the host it has led to. -/
structure Marking (trace : List (Host × Change)) (h : Host) : Prop where
  /-- The owner of a timer that a computer has is still to be looked for, or was. -/
  owned : ∀ who id, h.Owns who id → h.Pends id ∨ ∃ later, Resolved id trace later
  /-- Nobody has a timer that was cancelled, and it is not marked. -/
  cancelled : ∀ id ∈ h.timers.cancelled, id.number < h.counters.timer ∧
    id ∉ h.registry.freedTimers ∧ ∀ who, ¬h.Owns who id
  marked : ∀ id ∈ h.registry.freedTimers, h.Pends id ∨ ∃ who, Missed who id trace
  missed : ∀ who id, Missed who id trace → id ∈ h.registry.freedTimers

theorem marking_new (setup : HostSetup) (tree : FileTree) (store : ConfigStore) :
    Marking [] (Host.new setup tree store) := by
  constructor
  case owned =>
    rintro who id (hid | hid)
    · cases hid
    · cases hid
  case cancelled => intro id hid; cases hid
  case marked => exact fun id hid => absurd hid (Tombstones.not_mem_empty id)
  case missed =>
    rintro who id ⟨later, hl, -⟩
    exact absurd hl not_resolved_nil

theorem pends_or_resolved (hk : h.Pends id) (hn : id ∉ h.timers.cancelled) (x : Change) :
    (x.on h).Pends id ∨ sought? (h, x) = some id :=
  (em (sought? (h, x) = some id)).symm.imp_left (pends_on hk hn)

/-- Who has a timer after a change has one whose owner is still to be looked for, or was. -/
theorem Marking.owned_on (hm : Marking trace h) (hhost : Hosted [(h, x)]) (hi : (x.on h).Owns who id) :
    (x.on h).Pends id ∨ ∃ later, Resolved id (trace ++ [(h, x)]) later := by
  rcases owns_on hi with hold | ⟨ms, rfl, rfl, hsome⟩
  · have hn : id ∉ h.timers.cancelled := fun hc => (hm.cancelled id hc).2.2 who hold
    rcases hm.owned who id hold with hk | ⟨later, hl⟩
    · exact (pends_or_resolved hk hn x).imp_right fun hres => ⟨[], resolved_snoc.mpr (.inl ⟨rfl, hres⟩)⟩
    · exact .inr ⟨_, hl.snoc h x⟩
  · have hstarts := hhost (h, .startTimer who ms) List.mem_cons_self
    simp only [startsHosted, hsome, Bool.not_true, Bool.false_or] at hstarts
    exact .inl (pends_startTimer hstarts)

/-- A timer that is cancelled after a change is not marked, and nobody has it. -/
theorem Marking.cancelled_on (hm : Marking trace h) (ha : Accounts trace h)
    (hc : id ∈ (x.on h).timers.cancelled) : id.number < (x.on h).counters.timer ∧
      id ∉ (x.on h).registry.freedTimers ∧ ∀ who, ¬(x.on h).Owns who id := by
  -- Whoever still has it before the change waits for it and is the one who cancels it.
  have hold : id.number < h.counters.timer ∧ id ∉ h.registry.freedTimers ∧
      ∀ who, h.Owns who id → x = .cancelTimer who id ∧ id ∉ h.takenTimersOf who := by
    rcases Host.cancelled_on hc with hc | ⟨hk, ⟨who, rfl, hi⟩ | ⟨who, hd⟩⟩
    · obtain ⟨hlt, hfreed, hno⟩ := hm.cancelled id hc
      exact ⟨hlt, hfreed, fun who hi => absurd hi (hno who)⟩
    · obtain ⟨hfreed, honly⟩ := ha.of_awaited hi
      refine ⟨ha.drawn_of_knows hk, hfreed, fun w hw => ?_⟩
      obtain ⟨rfl, htaken⟩ := honly w hw
      exact ⟨rfl, htaken⟩
    · obtain ⟨hfreed, hno⟩ := ha.of_debounce hd
      exact ⟨ha.drawn_of_knows hk, hfreed, fun w hw => absurd hw (hno w)⟩
  obtain ⟨hlt, hfreed, howns⟩ := hold
  refine ⟨Nat.lt_of_lt_of_le hlt (scheduled_on x h).counted, fun hf => ?_, fun who hi => ?_⟩
  · rcases mem_freedTimers_on.mp hf with ⟨hf, -⟩ | ⟨w, rfl, hi⟩
    · exact hfreed hf
    · exact Change.noConfusion (howns w (.inr hi)).1
  · rcases owns_on hi with hold | ⟨ms, -, rfl, -⟩
    · obtain ⟨rfl, htaken⟩ := howns who hold
      rcases hi with hi | hi
      · change id ∈ (h.cancelTimer who id).2.timersOf who at hi
        rw [timersOf_cancelTimer, if_pos rfl] at hi
        simp at hi
      · exact (mem_takenTimersOf_on hi).elim htaken fun hc => Change.noConfusion hc.1
    · exact Nat.lt_irrefl _ hlt

theorem marking_on (ha : Accounts trace h) (hv : Delivering trace h) (hm : Marking trace h) (x : Change)
    (hhost : Hosted [(h, x)]) : Marking (trace ++ [(h, x)]) (x.on h) := by
  constructor
  case owned => exact fun who id hi => hm.owned_on hhost hi
  case cancelled => exact fun id hc => hm.cancelled_on ha hc
  -- A mark is made in a teardown, for timers whose owner is still to be looked for or was looked for before.
  case marked =>
    intro id hf
    rcases mem_freedTimers_on.mp hf with ⟨hf, hres⟩ | ⟨w, rfl, hi⟩
    · rcases hm.marked id hf with hk | ⟨who, hmiss⟩
      · exact .inl (pends_on hk (fun hc => (hm.cancelled id hc).2.1 hf) hres)
      · exact .inr ⟨who, missed_snoc.mpr (.inl hmiss)⟩
    · rcases hm.owned w id (.inr hi) with hk | hl
      · have hn : id ∉ h.timers.cancelled := fun hc => (hm.cancelled id hc).2.2 w (.inr hi)
        exact .inl (pends_on hk hn (by simp [sought?]))
      · exact .inr ⟨w, missed_snoc.mpr (.inr ⟨hl, List.mem_map_of_mem hi⟩)⟩
  case missed =>
    intro who id hmiss
    rcases missed_snoc.mp hmiss with hold | ⟨-, hmark⟩
    · have hfreed := hm.missed who id hold
      obtain ⟨later, hl, -⟩ := hold
      refine mem_freedTimers_on.mpr (.inl ⟨hfreed, fun hres => ?_⟩)
      exact (hv.once id later hl).2 (not_pends_of_resolved ha hres).1
    · cases says_of_mem hmark with
      | marked hi => exact mem_freedTimers_on.mpr (.inr ⟨who, rfl, hi⟩)

theorem marking_of_quiet (hm : Marking trace h) (hq : Quiet h h') : Marking trace h' := by
  obtain ⟨htimers, hdue, -⟩ := hq.agrees .service not_false
  have howns (who : Handle) (id : TimerId) : h'.Owns who id ↔ h.Owns who id := by
    rw [Owns, (hq.agrees (.timers who) not_false : h'.timersOf who = _),
      (hq.agrees (.taken who) not_false : h'.takenTimersOf who = _), Owns]
  have hpends (id : TimerId) : h'.Pends id ↔ h.Pends id := by rw [Pends, htimers, hdue, Pends]
  have hnumber : h'.counters.timer = h.counters.timer := hq.agrees .numbering not_false
  have hfreed : h'.registry.freedTimers = h.registry.freedTimers := hq.agrees .freedTimers not_false
  constructor
  case owned => simpa only [howns, hpends] using hm.owned
  case cancelled => simpa only [htimers, hnumber, hfreed, howns] using hm.cancelled
  case marked => simpa only [hfreed, hpends] using hm.marked
  case missed => simpa only [hfreed] using hm.missed

theorem marking_of_evolves (setup : HostSetup) (tree : FileTree) (store : ConfigStore)
    (he : Evolves (Host.new setup tree store) trace h) (hhost : Hosted trace) :
    Marking trace h := by
  induction he with
  | refl => exact marking_new setup tree store
  | @change trace h x he ih =>
    have hpast : Hosted trace := fun step hmem => hhost step (List.mem_append_left _ hmem)
    have hlast : Hosted [(h, x)] := fun step hmem => hhost step (List.mem_append_right _ hmem)
    exact marking_on (accounts_of_evolves he (accounts_new setup tree store))
      (delivering_of_evolves setup tree store he) (ih hpast) x hlast
  | quiet _ hq ih => exact marking_of_quiet (ih hhost) hq

/-! ## 4. What is left behind -/

/-- The marks of timers that the service neither knows nor has handed over, along any evolution of a
host: there is one for each timer whose owner was looked for before the teardown of its computer marked it
and that is over by now, and no other. Such a mark is there from the marking on, and its timer was dropped:
its computer did not resolve, or had given it away before it could fire. In particular, if there is no
such timer, a service that has nothing left to do leaves no marks. -/
theorem marks_left_behind (setup : HostSetup) (tree : FileTree) (store : ConfigStore)
    (he : Evolves (Host.new setup tree store) trace h) (hhost : Hosted trace) :
    (∀ id, (id ∈ h.registry.freedTimers ∧ ¬h.Knows id) ↔
        (∃ who, Missed who id trace) ∧ h.firing.map (·.id) ≠ some id) ∧
      (∀ who id, Missed who id trace → id ∈ h.registry.freedTimers ∧ Dropped who id trace) ∧
      ((∀ who id, ¬Missed who id trace) → h.timers.pending = [] → h.due = [] → h.firing = none →
        h.registry.freedTimers.isEmpty = true) := by
  have hv := delivering_of_evolves setup tree store he
  have hm := marking_of_evolves setup tree store he hhost
  have hiff (id : TimerId) : (id ∈ h.registry.freedTimers ∧ ¬h.Knows id) ↔
      (∃ who, Missed who id trace) ∧ h.firing.map (·.id) ≠ some id := by
    rw [knows_iff, not_or]
    refine ⟨fun ⟨hf, hno, hover⟩ => ⟨(hm.marked id hf).resolve_left hno, hover⟩, ?_⟩
    rintro ⟨⟨who, hmiss⟩, hover⟩
    have hfreed := hm.missed who id hmiss
    obtain ⟨later, hl, -⟩ := hmiss
    exact ⟨hfreed, (hv.once id later hl).2, hover⟩
  refine ⟨hiff, fun who id hmiss => ⟨hm.missed who id hmiss, hv.missed who id hmiss⟩, ?_⟩
  intro hnone hpending hdue hfiring
  refine List.isEmpty_iff.mpr (List.eq_nil_iff_forall_not_mem.mpr fun id hf => ?_)
  have hno : ¬h.Knows id := by simp [Knows, scheduled, underway, hpending, hdue, hfiring]
  obtain ⟨⟨who, hmiss⟩, -⟩ := (hiff id).mp ⟨hf, hno⟩
  exact hnone who id hmiss

end

/-- A timer that fires while its computer is being torn down: its owner is looked for, and not found,
before the teardown marks it. -/
def droppedEarly : List Change :=
  [.spawn 7 false, .startTimer alarmed 0, .teardown alarmed .retire, .sweep, .resolve,
   .teardown alarmed .takeTimers, .teardown alarmed .invalidateTimers]

/-- A timer that is taken and marked while it is being delivered. -/
def takenEarly : List Change :=
  [.spawn 7 false, .startTimer alarmed 0, .sweep, .resolve, .teardown alarmed .retire,
   .teardown alarmed .takeTimers, .teardown alarmed .invalidateTimers, .teardown alarmed .release, .fire]

/-- Both marks are left behind in an idle service. -/
theorem marks_left_behind_early :
    let left (changes : List Change) : Prop :=
      let h := changes.foldl (fun h x => x.on h) spawning
      h.timers.pending = [] ∧ h.due = [] ∧ h.firing = none ∧
        (⟨1⟩ : TimerId) ∈ h.registry.freedTimers ∧ ¬h.Knows ⟨1⟩
    left droppedEarly ∧ left takenEarly := by
  constructor
  · obtain ⟨hleft, -⟩ := marks_left_behind _ _ _ (evolves_traceOf spawning droppedEarly)
      (by decide +kernel)
    have hmissed : Missed alarmed ⟨1⟩ (spawning.traceOf droppedEarly) :=
      ⟨[_, _], ⟨[_, _, _, _], _, rfl, by decide +kernel⟩, by decide +kernel⟩
    have hmark := (hleft ⟨1⟩).mpr ⟨⟨alarmed, hmissed⟩, by decide +kernel⟩
    exact ⟨by decide +kernel, by decide +kernel, by decide +kernel, hmark⟩
  · obtain ⟨hleft, -⟩ := marks_left_behind _ _ _ (evolves_traceOf spawning takenEarly)
      (by decide +kernel)
    have hmissed : Missed alarmed ⟨1⟩ (spawning.traceOf takenEarly) :=
      ⟨[_, _, _, _, _], ⟨[_, _, _], _, rfl, by decide +kernel⟩, by decide +kernel⟩
    have hmark := (hleft ⟨1⟩).mpr ⟨⟨alarmed, hmissed⟩, by decide +kernel⟩
    exact ⟨by decide +kernel, by decide +kernel, by decide +kernel, hmark⟩

end Host

end ComputerHost
