import ComputerHost.Proofs.Host.Timers
import ComputerHost.Proofs.Since

/-!
# Debounced events

A computer waits for one debounced event at most, and for any number of timers. Their ids are drawn from
the same numbers, and a timer whose moment has come may already be on its way when it is cancelled or
replaced. So whether its event is still wanted is decided when it is delivered, by the id alone. The
histories here are therefore histories of a host in which, beside all changes, any id may be delivered to
the computer at any time and any number of times (`TimerMove.fire`).

`Parted` is the invariant: what a computer waits for as a timer was started, what it waits for as the
debounced event was armed and nothing has disarmed it since (`Disarms`), and no id was both.

Results:
1. `computer?_of_fired`, `arrivals_of_fired`: a delivery.
2. `mem_timersOf_move`, `debounceOf?_move`: what else happens.
3. `parted_of_unfolds`: the invariant, along every history.
4. `sparesDebounce_cancelTimer`, …, `timersOf_of_armed_fired`: timers and the debounced event leave each
   other alone.
5. `debounceOf?_of_debounced`, `debounced_at_most_once`: a debounced event is queued once at most, and only
   the latest one.
-/

namespace ComputerHost

/-- What may happen to the timers of a computer: any change of its host, and the delivery to it of any
timer, whether the service knows the timer or not. -/
inductive TimerMove where
  | change (x : Change)
  | fire (id : TimerId) (e : Event)

/-- The host after a move. -/
def TimerMove.on (who : Handle) : TimerMove → Host → Host
  | change x, h => x.on h
  | fire id e, h => h.modify who (·.timerFired id e)

namespace Host

/-- The timer that a move delivers to `who`, and its event. -/
def fired? (who : Handle) : Host × TimerMove → Option (TimerId × Event)
  | (_, .fire id e) => some (id, e)
  | (h, .change .fire) =>
    (h.firing.filter fun entry => entry.owner = who).map fun entry => (entry.id, entry.event)
  | _ => none

/-- The timer that a move starts on `who`. -/
def started? (who : Handle) : Host × TimerMove → Option TimerId
  | (h, .change (.startTimer w ms)) =>
    if w = who ∧ (h.computer? who).isSome then some (h.startTimer w ms).1 else none
  | _ => none

/-- The timer of the debounced event that a move arms on `who`. -/
def armed? (who : Handle) : Host × TimerMove → Option TimerId
  | (h, .change (.debounce w ms e)) =>
    if w = who ∧ (h.computer? who).isSome then some (h.debounce w ms e).1 else none
  | _ => none

/-- A move delivers this timer to `who`. -/
def Fires (who : Handle) (id : TimerId) (o : Host × TimerMove) : Prop :=
  ∃ e, fired? who o = some (id, e)

/-- After a move the debounced event of this timer is not waited for any more: another one was armed, the
teardown of `who` has taken it, or it was delivered. -/
def Disarms (who : Handle) (id : TimerId) (o : Host × TimerMove) : Prop :=
  (∃ ms e, o.2 = .change (.debounce who ms e)) ∨ o.2 = .change (.teardown who .cancelDebounce) ∨
    Fires who id o

/-- Moves one after the other, with quiet changes between them, and each of them with the host that it
found. -/
inductive Unfolds (who : Handle) (h₀ : Host) : List (Host × TimerMove) → Host → Prop
  | refl : Unfolds who h₀ [] h₀
  | move {trace : List (Host × TimerMove)} {h : Host} (m : TimerMove) :
      Unfolds who h₀ trace h → Unfolds who h₀ (trace ++ [(h, m)]) (m.on who h)
  | quiet {trace : List (Host × TimerMove)} {h h' : Host} :
      Unfolds who h₀ trace h → Quiet h h' → Unfolds who h₀ trace h'

/-- The events that were queued for `who` because this timer was delivered. -/
def queuedFor (who : Handle) (id : TimerId) (trace : List (Host × TimerMove)) : List Event :=
  trace.flatMap fun o =>
    if (fired? who o).map (·.1) = some id then o.1.arrivals who (o.2.on who o.1) else []

/-- What a history says about the timers that `who` waits for. -/
structure Parted (who : Handle) (trace : List (Host × TimerMove)) (h : Host) : Prop where
  timers : ∀ id ∈ h.timersOf who, ∃ o ∈ trace, started? who o = some id
  debounce : ∀ id, h.debounceOf? who = some id ↔
    Since (armed? who · = some id) (Disarms who id) trace
  drawn : ∀ o ∈ trace, ∀ id, started? who o = some id ∨ armed? who o = some id →
    id.number < h.counters.timer
  apart : ∀ o ∈ trace, ∀ o' ∈ trace, ∀ id, started? who o = some id → armed? who o' ≠ some id
  entries : ∀ e ∈ h.scheduled, e.id.number < h.counters.timer

/-- The debounced event that `who` waits for is waited for as before, and the service knows of it what it
knew. -/
structure SparesDebounce (who : Handle) (h h' : Host) : Prop where
  waits : h'.debounceOf? who = h.debounceOf? who
  marks : ∀ id, h.debounceOf? who = some id →
    (id ∈ h'.timers.cancelled ↔ id ∈ h.timers.cancelled)
  pending : h.timers.pending ⊆ h'.timers.pending

/-- What has become of a debounced event since it was armed, by the id of its timer. -/
structure Debounced (who : Handle) (id : TimerId) (e : Event) (later : List (Host × TimerMove))
    (h : Host) : Prop where
  once : (queuedFor who id later).length ≤ 1
  /-- A delivery queues the event, unless something has disarmed it. -/
  delivery : ∀ m e', fired? who (h, m) = some (id, e') →
    (∀ o ∈ later, ¬Disarms who id o) ∧ h.arrivals who (m.on who h) = [e'] ∨
      (∃ o ∈ later, Disarms who id o) ∧ h.arrivals who (m.on who h) = []
  /-- What the service would deliver is that event, to that computer. -/
  entry : ∀ entry ∈ h.scheduled, entry.id = id → entry.owner = who ∧ entry.event = e

section
variable {who : Handle} {h h' h₁ : Host} {id : TimerId} {e : Event} {m : TimerMove}
  {trace past later : List (Host × TimerMove)} {o : Host × TimerMove}

/-! ## 1. Deliveries -/

theorem computer?_fire (h : Host) (who : Handle) (id : TimerId) (e : Event) :
    (h.modify who (·.timerFired id e)).computer? who =
      (h.computer? who).map (·.timerFired id e) := by
  have hf (c : Computer) : (c.timerFired id e).handle = c.handle :=
    (Computer.grows_timerFired c id e).handle
  cases hc : h.computer? who with
  | none => rw [computer?_modify h who _ hf, hc, Option.map_none, Option.map_none]
  | some c => rw [computer?_modify_self hc _ hf, Option.map_some]

/-- A delivery lets the computer decide. -/
theorem computer?_of_fired (hf : fired? who (h, m) = some (id, e)) :
    (m.on who h).computer? who = (h.computer? who).map (·.timerFired id e) := by
  cases m with
  | fire i e' =>
    cases hf
    exact computer?_fire h who id e
  | change x =>
    cases x with
    | fire =>
      obtain ⟨entry, hentry, heq⟩ := Option.map_eq_some_iff.mp hf
      obtain ⟨hfiring, hwho⟩ := Option.filter_eq_some_iff.mp hentry
      obtain rfl := of_decide_eq_true hwho
      cases heq
      show (Change.fire.on h).computer? entry.owner = _
      rw [fire_of_some hfiring]
      exact computer?_fire { h with firing := none } entry.owner entry.id entry.event
    | _ => cases hf

/-- A timer that is delivered to nobody or to somebody else. -/
theorem computer?_of_elsewhere (hf : fired? who (h, .change .fire) = none) :
    (Change.fire.on h).computer? who = h.computer? who := by
  cases hfiring : h.firing with
  | none => rw [fire_of_none hfiring]
  | some entry =>
    rw [fire_of_some hfiring]
    have hne : who ≠ entry.owner := by
      rintro rfl
      simp [fired?, hfiring] at hf
    exact computer?_modify_other hne.symm
      (fun c => (Computer.grows_timerFired c entry.id entry.event).handle) _

theorem armed?_of_fired (hf : fired? who (h, m) = some (id, e)) : armed? who (h, m) = none := by
  cases m with
  | fire => rfl
  | change x =>
    cases x with
    | fire => rfl
    | _ => cases hf

theorem disarms_of_fired {i : TimerId} (hf : fired? who (h, m) = some (i, e)) :
    Disarms who id (h, m) ↔ i = id := by
  constructor
  · rintro (⟨ms, e', rfl⟩ | rfl | ⟨e', hf'⟩)
    · cases hf
    · cases hf
    · rw [hf] at hf'
      exact (Prod.mk.inj (Option.some.inj hf')).1
  · rintro rfl
    exact .inr (.inr ⟨e, hf⟩)

theorem disarms_of_unfired {x : Change} (hf : fired? who (h, .change x) = none) :
    Disarms who id (h, .change x) ↔
      (∃ ms e, x = .debounce who ms e) ∨ x = .teardown who .cancelDebounce := by
  unfold Disarms Fires
  simp [hf]

theorem timersOf_of_fired (hf : fired? who (h, m) = some (id, e)) :
    (m.on who h).timersOf who = (h.timersOf who).filter (· != id) := by
  unfold timersOf
  rw [computer?_of_fired hf]
  cases h.computer? who <;> simp [Computer.timers_timerFired]

theorem debounceOf?_of_fired (hf : fired? who (h, m) = some (id, e)) :
    (m.on who h).debounceOf? who =
      if id ∉ h.timersOf who ∧ h.debounceOf? who = some id then none else h.debounceOf? who := by
  unfold debounceOf? timersOf
  rw [computer?_of_fired hf]
  cases h.computer? who <;> simp [Computer.debounce_timerFired]

/-- The event is queued if the computer waits for the timer. -/
theorem arrivals_of_fired (hf : fired? who (h, m) = some (id, e)) :
    h.arrivals who (m.on who h) = if h.WaitsFor who id then [e] else [] := by
  have hqueue : (m.on who h).queue who = h.queue who ++ if h.WaitsFor who id then [e] else [] := by
    unfold queue
    rw [computer?_of_fired hf]
    cases hc : h.computer? who <;>
      simp [hc, WaitsFor, timersOf, debounceOf?, Computer.events_timerFired]
  unfold arrivals
  rw [hqueue, List.drop_left]

/-! ## 2. Other moves -/

theorem mem_timersOf_move (hid : id ∈ (m.on who h).timersOf who) :
    id ∈ h.timersOf who ∨ started? who (h, m) = some id := by
  cases hf : fired? who (h, m) with
  | some delivery =>
    rw [timersOf_of_fired hf] at hid
    exact .inl (List.mem_of_mem_filter hid)
  | none =>
    cases m with
    | fire => cases hf
    | change x =>
      have hsame (ht : ¬x.Touches (.timers who)) : id ∈ h.timersOf who := by
        rwa [← (differs_on x h).agrees (.timers who) ht]
      change id ∈ (x.on h).timersOf who at hid
      cases x with
      | startTimer w ms =>
        change id ∈ (h.startTimer w ms).2.timersOf who at hid
        rw [timersOf_startTimer] at hid
        split at hid
        · next hw =>
          obtain ⟨rfl, hknown⟩ := hw
          rcases List.mem_append.mp hid with hid | hid
          · exact .inl hid
          · refine .inr ((if_pos ⟨rfl, hknown⟩).trans ?_)
            rw [List.mem_singleton.mp hid]
            rfl
        · exact .inl hid
      | cancelTimer w i =>
        change id ∈ (h.cancelTimer w i).2.timersOf who at hid
        rw [timersOf_cancelTimer] at hid
        split at hid
        · exact .inl (List.mem_of_mem_filter hid)
        · exact .inl hid
      | fire =>
        unfold timersOf at hid ⊢
        rw [computer?_of_elsewhere hf] at hid
        exact .inl hid
      | teardown w step =>
        cases step with
        | takeTimers =>
          change id ∈ (h.teardownStep w .takeTimers).timersOf who at hid
          rw [timersOf_takeTimers] at hid
          split at hid
          · cases hid
          · exact .inl hid
        | _ => exact .inl (hsame not_false)
      | turnOn => exact .inl (hsame (by simp [Change.Touches, Aspect.OfSpawn]))
      | attach | detach | spawn => exact .inl (hsame not_false)
      | _ => exact .inl (hsame (by simp [Change.Touches, Aspect.OfResolution]))

/-- A move arms a debounced event, or leaves the one that is waited for unless it disarms it. -/
theorem debounceOf?_move (hapart : ∀ i ∈ h.timersOf who, h.debounceOf? who ≠ some i) :
    (m.on who h).debounceOf? who = some id ↔
      armed? who (h, m) = some id ∨ h.debounceOf? who = some id ∧ ¬Disarms who id (h, m) := by
  cases hf : fired? who (h, m) with
  | some delivery =>
    rw [debounceOf?_of_fired hf, armed?_of_fired hf, disarms_of_fired hf]
    split
    · next hc => simp [hc.2]
    · next hc =>
      simp only [reduceCtorEq, false_or, iff_self_and]
      rintro hid rfl
      exact hc ⟨fun hm => hapart _ hm hid, hid⟩
  | none =>
    cases m with
    | fire => cases hf
    | change x =>
      have hkept (heq : (x.on h).debounceOf? who = h.debounceOf? who)
          (harmed : armed? who (h, .change x) = none) (hno : ¬Disarms who id (h, .change x)) :
          (x.on h).debounceOf? who = some id ↔ armed? who (h, .change x) = some id ∨
            h.debounceOf? who = some id ∧ ¬Disarms who id (h, .change x) := by
        simp [heq, harmed, hno]
      have hother (ht : ¬x.Touches (.debounce who)) :=
        hkept ((differs_on x h).agrees (.debounce who) ht)
      change (x.on h).debounceOf? who = some id ↔ _
      rw [disarms_of_unfired hf] at hkept hother ⊢
      cases x with
      | debounce w ms e =>
        change (h.debounce w ms e).2.debounceOf? who = some id ↔ _
        rw [debounceOf?_debounce]
        by_cases hw : w = who
        · subst hw
          cases hc : h.computer? w <;> simp [armed?, hc, debounceOf?]
        · simp [armed?, hw]
      | teardown w step =>
        cases step with
        | cancelDebounce =>
          change (h.teardownStep w .cancelDebounce).debounceOf? who = some id ↔ _
          rw [debounceOf?_cancelDebounce]
          by_cases hw : who = w
          · simp [armed?, hw]
          · simp [armed?, hw, Ne.symm hw]
        | _ => exact hother not_false rfl (by simp)
      | fire =>
        refine hkept ?_ rfl (by simp)
        unfold debounceOf?
        rw [computer?_of_elsewhere hf]
      | _ =>
        exact hother (by simp [Change.Touches, Aspect.OfSpawn, Aspect.OfWiring, Aspect.OfResolution])
          rfl (by simp)

theorem onlyNew_move (m : TimerMove) (who : Handle) (h : Host) : OnlyNew h (m.on who h) := by
  cases m with
  | change x => exact scheduled_on x h
  | fire id e => exact ⟨Nat.le_refl _, fun _ he => .inl he⟩

/-- Ids are drawn from the number of the next timer. -/
theorem number_of_drawn (hd : started? who (h, m) = some id ∨ armed? who (h, m) = some id) :
    id.number = h.counters.timer ∧ (m.on who h).counters.timer = h.counters.timer + 1 := by
  cases m with
  | fire => rcases hd with hd | hd <;> cases hd
  | change x =>
    cases x with
    | startTimer w ms =>
      rcases hd with hd | hd
      · obtain ⟨-, heq⟩ := Option.ite_some_none_eq_some.mp hd
        exact ⟨congrArg TimerId.number heq.symm, counters_startTimer h w ms⟩
      · cases hd
    | debounce w ms e =>
      rcases hd with hd | hd
      · cases hd
      · obtain ⟨-, heq⟩ := Option.ite_some_none_eq_some.mp hd
        exact ⟨congrArg TimerId.number heq.symm, counters_debounce h w ms e⟩
    | _ => rcases hd with hd | hd <;> cases hd

/-- One move does not start a timer and arm a debounced event. -/
theorem not_armed_of_started (hs : started? who o = some id) : armed? who o = none := by
  obtain ⟨h, m⟩ := o
  cases m with
  | fire => rfl
  | change x =>
    cases x with
    | startTimer => rfl
    | _ => cases hs

/-! ## 3. The invariant -/

/-- What was armed is not waited for as a timer. -/
theorem Parted.not_timer (hp : Parted who trace h) (ha : ∃ o ∈ trace, armed? who o = some id) :
    id ∉ h.timersOf who := by
  intro hid
  obtain ⟨o, ho, hstarted⟩ := hp.timers id hid
  obtain ⟨o', ho', harmed⟩ := ha
  exact hp.apart o ho o' ho' id hstarted harmed

/-- What was started is not the debounced event. -/
theorem Parted.not_debounced (hp : Parted who trace h) (hs : ∃ o ∈ trace, started? who o = some id) :
    h.debounceOf? who ≠ some id := by
  intro hid
  obtain ⟨o, ho, hstarted⟩ := hs
  obtain ⟨o', ho', harmed⟩ := ((hp.debounce id).mp hid).exists_mem
  exact hp.apart o ho o' ho' id hstarted harmed

theorem Parted.disjoint (hp : Parted who trace h) (hid : id ∈ h.timersOf who) :
    h.debounceOf? who ≠ some id :=
  hp.not_debounced (hp.timers id hid)

theorem parted_new (setup : HostSetup) (tree : FileTree) (store : ConfigStore) (who : Handle) :
    Parted who [] (Host.new setup tree store) where
  timers _ hid := nomatch hid
  debounce _ := iff_of_false nofun not_since_nil
  drawn _ ho := nomatch ho
  apart _ ho := nomatch ho
  entries _ he := nomatch he

theorem parted_move (hp : Parted who trace h) (m : TimerMove) :
    Parted who (trace ++ [(h, m)]) (m.on who h) where
  timers id hid := by
    rcases mem_timersOf_move hid with hid | hstarted
    · obtain ⟨o, ho, hstarted⟩ := hp.timers id hid
      exact ⟨o, List.mem_append_left _ ho, hstarted⟩
    · exact ⟨(h, m), by simp, hstarted⟩
  debounce id := by
    rw [since_concat, ← hp.debounce, debounceOf?_move fun i hi => hp.disjoint hi]
  drawn o ho id hd := by
    have hcounted := (onlyNew_move m who h).counted
    simp only [List.mem_append, List.mem_singleton] at ho
    rcases ho with ho | rfl
    · exact Nat.lt_of_lt_of_le (hp.drawn o ho id hd) hcounted
    · obtain ⟨hnumber, hnext⟩ := number_of_drawn hd
      omega
  apart o ho o' ho' id hs ha := by
    -- Numbers are drawn once, so one id cannot stand at two places of the history.
    simp only [List.mem_append, List.mem_singleton] at ho ho'
    rcases ho with ho | rfl
    · rcases ho' with ho' | rfl
      · exact hp.apart o ho o' ho' id hs ha
      · exact Nat.ne_of_lt (hp.drawn o ho id (.inl hs)) (number_of_drawn (.inr ha)).1
    · rcases ho' with ho' | rfl
      · exact Nat.ne_of_lt (hp.drawn o' ho' id (.inr ha)) (number_of_drawn (.inl hs)).1
      · rw [not_armed_of_started hs] at ha
        cases ha
  entries e he := by
    have hcounted := (onlyNew_move m who h).counted
    rcases (onlyNew_move m who h).added e he with he | ⟨hnumber, hless⟩
    · exact Nat.lt_of_lt_of_le (hp.entries e he) hcounted
    · omega

theorem parted_quiet (hp : Parted who trace h) (hq : Quiet h h') : Parted who trace h' := by
  have htimers : h'.timersOf who = h.timersOf who := hq.agrees (.timers who) not_false
  have hdebounce : h'.debounceOf? who = h.debounceOf? who := hq.agrees (.debounce who) not_false
  have hnumber : h'.counters.timer = h.counters.timer := hq.agrees .numbering not_false
  have hscheduled := scheduled_of_differs hq not_false
  constructor
  case timers => exact htimers ▸ hp.timers
  case debounce => exact hdebounce ▸ hp.debounce
  case drawn => exact hnumber ▸ hp.drawn
  case apart => exact hp.apart
  case entries => exact hnumber ▸ hscheduled ▸ hp.entries

theorem parted_of_unfolds (hp : Parted who past h) (hu : Unfolds who h later h') :
    Parted who (past ++ later) h' := by
  induction hu with
  | refl => rwa [List.append_nil]
  | move m _ ih =>
    rw [← List.append_assoc]
    exact parted_move ih m
  | quiet _ hq ih => exact parted_quiet ih hq

/-- What is started or armed later on has a new number. -/
theorem drawn_of_unfolds (hu : Unfolds who h later h') : h.counters.timer ≤ h'.counters.timer ∧
    ∀ o ∈ later, ∀ id, started? who o = some id ∨ armed? who o = some id →
      h.counters.timer ≤ id.number := by
  induction hu with
  | refl => exact ⟨Nat.le_refl _, fun _ ho => absurd ho List.not_mem_nil⟩
  | @move trace h₁ m _ ih =>
    obtain ⟨hcounted, hdrawn⟩ := ih
    refine ⟨Nat.le_trans hcounted (onlyNew_move m who h₁).counted, ?_⟩
    rw [List.forall_mem_append, List.forall_mem_singleton]
    refine ⟨hdrawn, fun id hd => ?_⟩
    rw [(number_of_drawn hd).1]
    exact hcounted
  | quiet _ hq ih =>
    exact ⟨Nat.le_trans ih.1 (Nat.le_of_eq (hq.agrees .numbering not_false).symm), ih.2⟩

/-- A timer whose number was drawn before is known to the service only if it was then. -/
theorem scheduled_of_unfolds (hu : Unfolds who h later h') {entry : TimerEntry}
    (hold : entry.id.number < h.counters.timer) (he : entry ∈ h'.scheduled) :
    entry ∈ h.scheduled := by
  induction hu with
  | refl => exact he
  | @move trace h₁ m hu ih =>
    rcases (onlyNew_move m who h₁).added entry he with he | ⟨hnew, -⟩
    · exact ih he
    · have hcounted := (drawn_of_unfolds hu).1
      omega
  | quiet _ hq ih => exact ih (scheduled_of_differs hq not_false ▸ he)

/-! ## 4. Timers and the debounced event -/

theorem timers_startTimer (h : Host) (w : Handle) (ms : Nat) :
    (h.startTimer w ms).2.timers = h.timers ∨
      ∃ entry, (h.startTimer w ms).2.timers = h.timers.schedule entry := by
  unfold startTimer
  dsimp only
  split
  · exact .inr ⟨_, rfl⟩
  · exact .inl rfl

theorem timers_cancelTimer (h : Host) (w : Handle) (id : TimerId) :
    (h.cancelTimer w id).2.timers = h.timers ∨
      id ∈ h.timersOf w ∧ (h.cancelTimer w id).2.timers = h.timers.cancel id := by
  have hupdate : (h.update w (·.dropTimer id) false).2.timers = h.timers :=
    congrArg (·.timers) (update_frame ..)
  have hwas := cancelTimer_fst h w id
  unfold cancelTimer at hwas ⊢
  dsimp only at hwas ⊢
  split
  · next hc =>
    rw [Bool.and_eq_true] at hc
    exact .inr ⟨hwas.mp hc.1, congrArg (·.cancel id) hupdate⟩
  · exact .inl hupdate

theorem SparesDebounce.of_eq (hwaits : h'.debounceOf? who = h.debounceOf? who)
    (heq : h'.timers = h.timers) : SparesDebounce who h h' :=
  ⟨hwaits, fun _ _ => heq ▸ Iff.rfl, heq ▸ List.Subset.refl _⟩

theorem sparesDebounce_startTimer (h : Host) (who : Handle) (ms : Nat) :
    SparesDebounce who h (h.startTimer who ms).2 := by
  have hwaits := (differs_startTimer h who ms).agrees (.debounce who) (by simp)
  rcases timers_startTimer h who ms with heq | ⟨entry, heq⟩
  · exact .of_eq hwaits heq
  · refine ⟨hwaits, fun _ _ => by rw [heq]; rfl, ?_⟩
    rw [heq]
    intro e he
    exact (TimerService.perm_place entry _).symm.subset (List.mem_cons_of_mem _ he)

theorem sparesDebounce_cancelTimer (hp : Parted who trace h) (id : TimerId) :
    SparesDebounce who h (h.cancelTimer who id).2 := by
  have hwaits := (differs_cancelTimer h who id).agrees (.debounce who) (by simp)
  rcases timers_cancelTimer h who id with heq | ⟨hmem, heq⟩
  · exact .of_eq hwaits heq
  · refine ⟨hwaits, ?_, ?_⟩
    · intro i hi
      rw [heq, TimerService.mem_cancelled_cancel]
      refine or_iff_left ?_
      rintro ⟨rfl, -⟩
      exact hp.disjoint hmem hi
    · rw [heq, TimerService.pending_cancel]
      exact List.Subset.refl _

/-- The service is not asked when a timer is delivered. -/
theorem timers_of_fired (hf : fired? who (h, m) = some (id, e)) : (m.on who h).timers = h.timers := by
  cases m with
  | fire => rfl
  | change x =>
    cases x with
    | fire => exact timers_fire h
    | _ => cases hf

theorem sparesDebounce_of_fired (hp : Parted who trace h) (hs : ∃ o ∈ trace, started? who o = some id)
    (hf : fired? who (h, m) = some (id, e)) : SparesDebounce who h (m.on who h) := by
  refine .of_eq ?_ (timers_of_fired hf)
  rw [debounceOf?_of_fired hf, if_neg]
  rintro ⟨-, hid⟩
  exact hp.not_debounced hs hid

theorem timersOf_of_armed_fired (hp : Parted who trace h) (ha : ∃ o ∈ trace, armed? who o = some id)
    (hf : fired? who (h, m) = some (id, e)) : (m.on who h).timersOf who = h.timersOf who := by
  rw [timersOf_of_fired hf]
  refine List.filter_eq_self.mpr fun i hi => bne_iff_ne.mpr ?_
  rintro rfl
  exact hp.not_timer ha hi

/-! ## 5. The latest debounced event -/

theorem fires_iff : Fires who id o ↔ (fired? who o).map (·.1) = some id := by
  unfold Fires
  rw [Option.map_eq_some_iff]
  constructor
  · rintro ⟨e, hf⟩
    exact ⟨(id, e), hf, rfl⟩
  · rintro ⟨⟨i, e⟩, hf, rfl⟩
    exact ⟨e, hf⟩

theorem queuedFor_concat (who : Handle) (id : TimerId) (trace : List (Host × TimerMove))
    (h : Host) (m : TimerMove) : queuedFor who id (trace ++ [(h, m)]) = queuedFor who id trace ++
      if (fired? who (h, m)).map (·.1) = some id then h.arrivals who (m.on who h) else [] := by
  simp [queuedFor]

theorem queuedFor_of_armed (hno : ∀ o ∈ trace, ¬Disarms who id o) : queuedFor who id trace = [] := by
  unfold queuedFor
  refine List.flatMap_eq_nil_iff.mpr fun o ho => if_neg fun hf => ?_
  exact hno o ho (.inr (.inr (fires_iff.mpr hf)))

section
variable {ms : Nat} (hp : Parted who past h) (hu : Unfolds who (h.debounce who ms e).2 later h')
include hp hu

theorem parted_of_debounced :
    Parted who (past ++ [(h, .change (.debounce who ms e))] ++ later) h' :=
  parted_of_unfolds (parted_move hp (.change (.debounce who ms e))) hu

theorem entry_of_debounced {entry : TimerEntry} (he : entry ∈ h'.scheduled)
    (hid : entry.id = (h.debounce who ms e).1) : entry.owner = who ∧ entry.event = e := by
  have hnumber : entry.id.number = h.counters.timer := congrArg TimerId.number hid
  have hdrawn : entry.id.number < (h.debounce who ms e).2.counters.timer := by
    rw [hnumber, counters_debounce]
    exact Nat.lt_succ_self _
  have hbefore := scheduled_of_unfolds hu hdrawn he
  have hold : entry ∉ h.scheduled := fun he => Nat.ne_of_lt (hp.entries entry he) hnumber
  rcases scheduled_debounce h who ms e with heq | hperm
  · exact absurd (heq ▸ hbefore) hold
  · rcases List.mem_cons.mp (hperm.subset hbefore) with rfl | he
    · exact ⟨rfl, rfl⟩
    · exact absurd he hold

variable (hc : (h.computer? who).isSome = true)
include hc

theorem debounceOf?_of_debounced : h'.debounceOf? who = some (h.debounce who ms e).1 ↔
    ∀ o ∈ later, ¬Disarms who (h.debounce who ms e).1 o := by
  have harmed : armed? who (h, .change (.debounce who ms e)) = some (h.debounce who ms e).1 :=
    if_pos ⟨rfl, hc⟩
  have hnew : ¬Since (armed? who · = some (h.debounce who ms e).1)
      (Disarms who (h.debounce who ms e).1) later := by
    intro hs
    obtain ⟨o, ho, hagain⟩ := hs.exists_mem
    have hle := (drawn_of_unfolds hu).2 o ho _ (.inr hagain)
    rw [counters_debounce, debounce_fst] at hle
    exact Nat.not_succ_le_self _ hle
  rw [(parted_of_debounced hp hu).debounce, since_append, since_concat]
  simp [hnew, harmed]

/-- The timer of a debounced event fires for it. -/
theorem arrivals_of_debounced {e' : Event}
    (hf : fired? who (h', m) = some ((h.debounce who ms e).1, e')) :
    (∀ o ∈ later, ¬Disarms who (h.debounce who ms e).1 o) ∧
        h'.arrivals who (m.on who h') = [e'] ∨
      (∃ o ∈ later, Disarms who (h.debounce who ms e).1 o) ∧
        h'.arrivals who (m.on who h') = [] := by
  have hno := (parted_of_debounced hp hu).not_timer
    ⟨(h, .change (.debounce who ms e)), by simp, if_pos ⟨rfl, hc⟩⟩
  have hwaits : h'.WaitsFor who (h.debounce who ms e).1 ↔
      ∀ o ∈ later, ¬Disarms who (h.debounce who ms e).1 o :=
    (or_iff_right hno).trans (debounceOf?_of_debounced hp hu hc)
  rw [arrivals_of_fired hf]
  split
  · next hw => exact .inl ⟨hwaits.mp hw, rfl⟩
  · next hw =>
    refine .inr ⟨?_, rfl⟩
    rw [hwaits] at hw
    simpa using hw

/-- What has been queued for it disarms it. -/
theorem length_queuedFor_of_debounced : (queuedFor who (h.debounce who ms e).1 later).length ≤ 1 := by
  induction hu with
  | refl => exact Nat.zero_le _
  | @move trace h₁ m hu ih =>
    rw [queuedFor_concat]
    split
    · next hfires =>
      obtain ⟨e', hf⟩ := fires_iff.mpr hfires
      rcases arrivals_of_debounced hp hu hc hf with ⟨hno, heq⟩ | ⟨-, heq⟩
      · rw [queuedFor_of_armed hno, heq]
        exact Nat.le_refl _
      · rwa [heq, List.append_nil]
    · rwa [List.append_nil]
  | quiet _ _ ih => exact ih

end

end

/-- Whatever happens to a host, and whatever timers are delivered to a computer, however late and however
often: no id is both a timer and the debounced event that the computer waits for, and what is done to its
timers leaves that event alone; the delivery of a debounced event takes no timer away; and an event that
is debounced is queued once at most, and not after another one was debounced or it was taken. -/
theorem debounced_at_most_once (setup : HostSetup) (tree : FileTree) (store : ConfigStore)
    {who : Handle} {past : List (Host × TimerMove)} {h : Host}
    (hu : Unfolds who (Host.new setup tree store) past h) :
    (∀ id ∈ h.timersOf who, h.debounceOf? who ≠ some id) ∧
      (∀ id, SparesDebounce who h (h.cancelTimer who id).2) ∧
      (∀ ms, SparesDebounce who h (h.startTimer who ms).2) ∧
      (∀ m id e, fired? who (h, m) = some (id, e) →
        ((∃ o ∈ past, started? who o = some id) → SparesDebounce who h (m.on who h)) ∧
        ((∃ o ∈ past, armed? who o = some id) → (m.on who h).timersOf who = h.timersOf who)) ∧
      ∀ ms e later h', (h.computer? who).isSome = true →
        Unfolds who (h.debounce who ms e).2 later h' →
        Debounced who (h.debounce who ms e).1 e later h' := by
  have hp : Parted who past h := parted_of_unfolds (parted_new setup tree store who) hu
  refine ⟨fun id hid => hp.disjoint hid, sparesDebounce_cancelTimer hp,
    sparesDebounce_startTimer h who, ?_, ?_⟩
  · intro m id e hf
    exact ⟨fun hs => sparesDebounce_of_fired hp hs hf, fun ha => timersOf_of_armed_fired hp ha hf⟩
  · intro ms e later h' hc hlater
    constructor
    · exact length_queuedFor_of_debounced hp hlater hc
    · intro m e' hf
      exact arrivals_of_debounced hp hlater hc hf
    · intro entry he hid
      exact entry_of_debounced hp hlater he hid

def debouncing : Handle := ⟨7, 1⟩

/-- When a second event is debounced before the timer of the first one is delivered, only the second one
is queued. -/
theorem debounced_at_most_once_rearmed :
    let armed := ((spawning.spawn 7 false).2.debounce debouncing 5 ⟨"first", []⟩).2
    let rearmed := (armed.debounce debouncing 5 ⟨"second", []⟩).2
    rearmed.arrivals debouncing (TimerMove.on debouncing (.fire ⟨1⟩ ⟨"first", []⟩) rearmed) = [] ∧
      rearmed.arrivals debouncing (TimerMove.on debouncing (.fire ⟨2⟩ ⟨"second", []⟩) rearmed) =
        [⟨"second", []⟩] := by
  intro armed rearmed
  have hspawned : Unfolds debouncing spawning _ (spawning.spawn 7 false).2 :=
    .move (.change (.spawn 7 false)) .refl
  have harmed : Unfolds debouncing spawning _ armed :=
    .move (.change (.debounce debouncing 5 ⟨"first", []⟩)) hspawned
  have hrearmed : Unfolds debouncing armed _ rearmed :=
    .move (.change (.debounce debouncing 5 ⟨"second", []⟩)) .refl
  constructor
  · obtain ⟨-, -, -, -, hsettled⟩ := debounced_at_most_once _ _ _ hspawned
    obtain ⟨-, hdelivery, -⟩ := hsettled 5 ⟨"first", []⟩ _ rearmed (by decide +kernel) hrearmed
    rcases hdelivery (.fire ⟨1⟩ ⟨"first", []⟩) ⟨"first", []⟩ (by decide +kernel) with
      ⟨hno, -⟩ | ⟨-, heq⟩
    · exact absurd (.inl ⟨5, ⟨"second", []⟩, rfl⟩) (hno _ (List.mem_singleton_self _))
    · exact heq
  · obtain ⟨-, -, -, -, hsettled⟩ := debounced_at_most_once _ _ _ harmed
    obtain ⟨-, hdelivery, -⟩ := hsettled 5 ⟨"second", []⟩ [] rearmed (by decide +kernel) .refl
    rcases hdelivery (.fire ⟨2⟩ ⟨"second", []⟩) ⟨"second", []⟩ (by decide +kernel) with
      ⟨-, heq⟩ | ⟨⟨_, hmem, -⟩, -⟩
    · exact heq
    · cases hmem

end Host

end ComputerHost
