import Mathlib.Data.List.Nodup
import Mathlib.Data.List.Perm.Subperm
import Mathlib.Data.List.TakeWhile
import ComputerHost.Proofs.Host.Roster
import ComputerHost.Proofs.Timer.Service

/-!
# Timers

What the changes of a host do to the timers that the service knows (`scheduled`: those that wait and
those that are `underway`), and to those that a computer waits for. Taking a timer from the service
(`sweep`), looking for its owner (`resolve`) and letting the owner decide (`fire`) are three changes, and
anything may come between them.

Results:
1. `timersOf_startTimer`, `timersOf_cancelTimer`, `timersOf_takeTimers`, …: timers that are started and
   given up.
2. `subperm_sweep`, `fireAt_of_sweep`: timers that are handed over.
3. `resolve_of_cons`, `perm_resolve`: timers whose owner is looked for.
4. `fire_of_some`, `timersOf_fire`, `arrivals_fire`: timers that fire.
5. `scheduled_on`: only a timer with a new number is ever added.
-/

namespace ComputerHost

namespace Computer

theorem timers_timerFired (c : Computer) (id : TimerId) (e : Event) :
    (c.timerFired id e).timers = c.timers.filter (· != id) := by
  have hself (hn : ¬c.timers.contains id = true) : c.timers.filter (· != id) = c.timers :=
    List.filter_eq_self.mpr fun i hi => bne_iff_ne.mpr fun heq =>
      hn (List.contains_iff_mem.mpr (heq ▸ hi))
  unfold timerFired
  split
  · rfl
  · next hn =>
    rw [hself hn]
    split <;> rfl

theorem events_timerFired (c : Computer) (id : TimerId) (e : Event) :
    (c.timerFired id e).events.toList =
      c.events.toList ++ if id ∈ c.timers ∨ c.debounce = some id then [e] else [] := by
  unfold timerFired
  split
  · next hc =>
    rw [if_pos (.inl (List.contains_iff_mem.mp hc))]
    rfl
  · next hc =>
    split
    · next hd =>
      rw [if_pos (.inr hd)]
      rfl
    · next hd =>
      rw [if_neg, List.append_nil]
      rintro (hm | hm)
      · exact hc (List.contains_iff_mem.mpr hm)
      · exact hd hm

theorem debounce_timerFired (c : Computer) (id : TimerId) (e : Event) :
    (c.timerFired id e).debounce =
      if id ∉ c.timers ∧ c.debounce = some id then none else c.debounce := by
  unfold timerFired
  split
  · next hc => simp [List.contains_iff_mem.mp hc, queue, dropTimer]
  · next hc =>
    have hno : id ∉ c.timers := fun hm => hc (List.contains_iff_mem.mpr hm)
    split
    · next hd => simp [hno, hd, queue]
    · next hd => simp [hd]

end Computer

namespace Host

/-- The timers that the service has handed over and that have not come to anything yet. -/
def underway (h : Host) : List TimerEntry := h.due ++ h.firing.toList

/-- The timers that the service knows or has handed over. -/
def scheduled (h : Host) : List TimerEntry := h.timers.pending ++ h.underway

/-- Is the owner of a timer found when it is looked for? -/
def Reaches (h : Host) (entry : TimerEntry) : Prop :=
  entry.id ∉ h.registry.freedTimers ∧ h.registry.resolves entry.owner = true

instance (h : Host) (entry : TimerEntry) : Decidable (h.Reaches entry) :=
  inferInstanceAs (Decidable (_ ∧ _))

/-- Does a computer wait for a timer? -/
def WaitsFor (h : Host) (who : Handle) (id : TimerId) : Prop :=
  id ∈ h.timersOf who ∨ h.debounceOf? who = some id

instance (h : Host) (who : Handle) (id : TimerId) : Decidable (h.WaitsFor who id) :=
  inferInstanceAs (Decidable (_ ∨ _))

/-- The second host knows only timers that the first one knows, and maybe one with a new number. -/
structure OnlyNew (h h' : Host) : Prop where
  counted : h.counters.timer ≤ h'.counters.timer
  added : ∀ e ∈ h'.scheduled, e ∈ h.scheduled ∨
    e.id.number = h.counters.timer ∧ h.counters.timer < h'.counters.timer

/-! ## 1. Starting and cancelling -/

section
variable {h h' : Host} {who w : Handle} {id : TimerId}

theorem scheduled_startTimer (h : Host) (w : Handle) (ms : Nat) :
    (h.startTimer w ms).2.scheduled = h.scheduled ∨
      (h.startTimer w ms).2.scheduled.Perm
        (⟨h.clock + ms, ⟨h.counters.timer⟩, w, timerEvent ⟨h.counters.timer⟩⟩ :: h.scheduled) := by
  unfold startTimer
  dsimp only
  split
  · exact .inr ((TimerService.perm_place _ _).append_right _)
  · exact .inl rfl

theorem computer?_startTimer (h : Host) (w : Handle) (ms : Nat) (who : Handle) :
    (h.startTimer w ms).2.computer? who =
      (h.modify w (·.trackTimer ⟨h.counters.timer⟩)).computer? who := by
  unfold startTimer
  dsimp only
  split <;> rfl

theorem timersOf_startTimer (h : Host) (w : Handle) (ms : Nat) (who : Handle) :
    (h.startTimer w ms).2.timersOf who =
      if who = w ∧ (h.computer? w).isSome = true then h.timersOf who ++ [⟨h.counters.timer⟩]
      else h.timersOf who := by
  unfold timersOf
  rw [computer?_startTimer, reading_modify (·.trackTimer ⟨h.counters.timer⟩) (fun _ => rfl)]
  by_cases hw : who = w
  · subst hw
    cases hc : h.computer? who <;> simp [Computer.trackTimer]
  · simp [hw]

/-- What a debounced event does to the service. -/
theorem scheduled_debounce (h : Host) (w : Handle) (ms : Nat) (e : Event) :
    (h.debounce w ms e).2.scheduled = h.scheduled ∨
      (h.debounce w ms e).2.scheduled.Perm
        (⟨h.clock + ms, ⟨h.counters.timer⟩, w, e⟩ :: h.scheduled) := by
  have hupdate (h₁ : Host) (f : Computer → Option TimerId × Computer) :
      (h₁.update w f none).2.timers = h₁.timers ∧
        (h₁.update w f none).2.underway = h₁.underway ∧
        (h₁.update w f none).2.clock = h₁.clock := by
    rw [update_frame]
    exact ⟨rfl, rfl, rfl⟩
  obtain ⟨htimers, hunderway, hclock⟩ := hupdate { h with counters := h.counters.newTimer.2 }
    (·.armDebounce h.counters.newTimer.1)
  unfold debounce scheduled
  dsimp only
  split
  · right
    show (List.Perm (_ ++ (Host.underway (Host.update ..).2)) _)
    rw [hunderway]
    dsimp only [schedule, TimerService.schedule]
    rw [hclock, htimers]
    refine ((TimerService.perm_place _ _).append_right _).trans ?_
    split
    · rw [TimerService.pending_cancel]
      exact .refl _
    · exact .refl _
  · left
    rw [hunderway, htimers]
    rfl

theorem computer?_debounce (h : Host) (w : Handle) (ms : Nat) (e : Event) (who : Handle) :
    (h.debounce w ms e).2.computer? who =
      (h.modify w fun c => (c.armDebounce ⟨h.counters.timer⟩).2).computer? who := by
  have hupdate := computer?_update { h with counters := h.counters.newTimer.2 } w
    (·.armDebounce h.counters.newTimer.1) none (fun _ => rfl) who
  unfold debounce
  dsimp only
  split <;> exact hupdate

theorem debounce_fst (h : Host) (w : Handle) (ms : Nat) (e : Event) :
    (h.debounce w ms e).1 = ⟨h.counters.timer⟩ :=
  rfl

theorem debounceOf?_debounce (h : Host) (w : Handle) (ms : Nat) (e : Event) (who : Handle) :
    (h.debounce w ms e).2.debounceOf? who =
      if w = who ∧ (h.computer? who).isSome then some (h.debounce w ms e).1 else h.debounceOf? who := by
  unfold debounceOf?
  rw [computer?_debounce, reading_modify (fun c => (c.armDebounce ⟨h.counters.timer⟩).2)
    (fun _ => rfl)]
  split
  · next hw =>
    subst hw
    cases hc : h.computer? who with
    | none => simp
    | some c => simpa [Computer.armDebounce] using (debounce_fst h who ms e).symm
  · next hw => rw [if_neg fun hn => hw hn.1.symm]

theorem cancelTimer_fst (h : Host) (w : Handle) (id : TimerId) :
    (h.cancelTimer w id).1 = true ↔ id ∈ h.timersOf w := by
  show (h.update w (·.dropTimer id) false).1 = true ↔ _
  rw [update_fst]
  unfold timersOf
  cases h.computer? w <;> simp [Computer.dropTimer]

theorem timersOf_cancelTimer (h : Host) (w : Handle) (id : TimerId) (who : Handle) :
    (h.cancelTimer w id).2.timersOf who =
      if who = w then (h.timersOf who).filter (· != id) else h.timersOf who := by
  have hcomputer : (h.cancelTimer w id).2.computer? who =
      (h.modify w fun c => (c.dropTimer id).2).computer? who := by
    rw [← computer?_update h w (·.dropTimer id) false (fun _ => rfl)]
    unfold cancelTimer
    dsimp only
    split <;> rfl
  unfold timersOf
  rw [hcomputer, reading_modify (fun c => (c.dropTimer id).2) (fun _ => rfl)]
  by_cases hw : who = w
  · subst hw
    cases hc : h.computer? who <;> simp [Computer.dropTimer]
  · simp [hw]

theorem debounceOf?_cancelDebounce (h : Host) (w who : Handle) :
    (h.teardownStep w .cancelDebounce).debounceOf? who =
      if who = w then none else h.debounceOf? who := by
  have hcomputer : (h.teardownStep w .cancelDebounce).computer? who =
      (h.modify w fun c => { c with debounce := none }).computer? who := by
    rw [← computer?_update h w (fun c => (c.debounce, { c with debounce := none })) none
      (fun _ => rfl)]
    unfold teardownStep
    dsimp only
    split <;> rfl
  unfold debounceOf?
  rw [hcomputer, reading_modify (fun c => { c with debounce := none }) (fun _ => rfl)]
  split
  · cases h.computer? w <;> rfl
  · rfl

theorem timersOf_takeTimers (h : Host) (w who : Handle) :
    (h.teardownStep w .takeTimers).timersOf who = if who = w then [] else h.timersOf who := by
  refine (reading_modify Computer.takeTimers (fun _ => rfl) (·.timers) [] h w who).trans ?_
  split
  · cases h.computer? w <;> rfl
  · rfl

theorem takenTimersOf_takeTimers (h : Host) (w who : Handle) :
    (h.teardownStep w .takeTimers).takenTimersOf who =
      if who = w then h.takenTimersOf who ++ h.timersOf who else h.takenTimersOf who := by
  refine (reading_modify Computer.takeTimers (fun _ => rfl) (·.takenTimers) [] h w who).trans ?_
  split
  · next hw =>
    subst hw
    unfold takenTimersOf timersOf
    cases h.computer? who <;> rfl
  · rfl

theorem takenTimersOf_invalidateTimers (h : Host) (w who : Handle) :
    (h.teardownStep w .invalidateTimers).takenTimersOf who =
      if who = w then [] else h.takenTimersOf who := by
  refine (reading_update h w (fun c => (c.takenTimers, { c with takenTimers := [] })) []
    (fun _ => rfl) (·.takenTimers) [] who).trans ?_
  split
  · cases h.computer? w <;> rfl
  · rfl

theorem freedTimers_invalidateTimers {i : TimerId} :
    i ∈ (h.teardownStep w .invalidateTimers).registry.freedTimers ↔
      i ∈ h.takenTimersOf w ∨ i ∈ h.registry.freedTimers := by
  have hregistry :
      (h.update w (fun c => (c.takenTimers, { c with takenTimers := [] })) []).2.registry = h.registry :=
    congrArg (·.registry) (update_frame ..)
  show i ∈
    (h.update w (fun c => (c.takenTimers, { c with takenTimers := [] })) []).2.registry.freedTimers.addAll
      (h.update w (fun c => (c.takenTimers, { c with takenTimers := [] })) []).1 ↔ _
  rw [Tombstones.mem_addAll, hregistry, update_fst]
  rfl

theorem counters_startTimer (h : Host) (w : Handle) (ms : Nat) :
    (h.startTimer w ms).2.counters.timer = h.counters.timer + 1 := by
  unfold startTimer
  dsimp only
  split <;> rfl

theorem counters_debounce (h : Host) (w : Handle) (ms : Nat) (e : Event) :
    (h.debounce w ms e).2.counters.timer = h.counters.timer + 1 := by
  have hupdate (h₁ : Host) (f : Computer → Option TimerId × Computer) :
      (h₁.update w f none).2.counters = h₁.counters :=
    congrArg (·.counters) (update_frame ..)
  unfold debounce
  dsimp only
  split <;> exact congrArg Counters.timer (hupdate _ _)

/-- Timers that are started and cancelled leave what is underway. -/
theorem underway_startTimer (h : Host) (w : Handle) (ms : Nat) :
    (h.startTimer w ms).2.due = h.due ∧ (h.startTimer w ms).2.firing = h.firing := by
  unfold startTimer
  dsimp only
  split <;> exact ⟨rfl, rfl⟩

theorem underway_update {α : Type} (h : Host) (w : Handle) (f : Computer → α × Computer) (other : α) :
    (h.update w f other).2.due = h.due ∧ (h.update w f other).2.firing = h.firing := by
  rw [update_frame]
  exact ⟨rfl, rfl⟩

theorem underway_debounce (h : Host) (w : Handle) (ms : Nat) (e : Event) :
    (h.debounce w ms e).2.due = h.due ∧ (h.debounce w ms e).2.firing = h.firing := by
  unfold debounce
  dsimp only
  split <;> exact underway_update ..

theorem underway_cancelTimer (h : Host) (w : Handle) (id : TimerId) :
    (h.cancelTimer w id).2.due = h.due ∧ (h.cancelTimer w id).2.firing = h.firing := by
  unfold cancelTimer
  dsimp only
  split <;> exact underway_update ..

theorem underway_cancelDebounce (h : Host) (w : Handle) :
    (h.teardownStep w .cancelDebounce).due = h.due ∧
      (h.teardownStep w .cancelDebounce).firing = h.firing := by
  unfold teardownStep
  dsimp only
  split <;> exact underway_update ..

/-- What a call makes of the timers that wait. -/
theorem pending_startTimer (h : Host) (w : Handle) (ms : Nat) :
    (h.startTimer w ms).2.timers.pending = h.timers.pending ∨
      ∃ entry, (h.startTimer w ms).2.timers.pending = TimerService.place entry h.timers.pending := by
  unfold startTimer
  dsimp only
  split
  · exact .inr ⟨_, rfl⟩
  · exact .inl rfl

theorem pending_debounce (h : Host) (w : Handle) (ms : Nat) (e : Event) :
    (h.debounce w ms e).2.timers.pending = h.timers.pending ∨
      ∃ entry, (h.debounce w ms e).2.timers.pending = TimerService.place entry h.timers.pending := by
  have hupdate (h₁ : Host) (f : Computer → Option TimerId × Computer) :
      (h₁.update w f none).2.timers = h₁.timers :=
    congrArg (·.timers) (update_frame ..)
  unfold debounce
  dsimp only
  split
  · right
    rw [hupdate]
    split
    · exact ⟨_, congrArg (TimerService.place _) (TimerService.pending_cancel ..)⟩
    · exact ⟨_, rfl⟩
  · exact .inl (congrArg _ (hupdate ..))

theorem pending_cancelTimer (h : Host) (w : Handle) (id : TimerId) :
    (h.cancelTimer w id).2.timers.pending = h.timers.pending := by
  have hupdate : (h.update w (·.dropTimer id) false).2.timers = h.timers :=
    congrArg (·.timers) (update_frame ..)
  unfold cancelTimer
  dsimp only
  split
  · rw [TimerService.pending_cancel, hupdate]
  · rw [hupdate]

theorem pending_cancelDebounce (h : Host) (w : Handle) :
    (h.teardownStep w .cancelDebounce).timers.pending = h.timers.pending := by
  have hupdate : (h.update w (fun c => (c.debounce, { c with debounce := none })) none).2.timers =
      h.timers :=
    congrArg (·.timers) (update_frame ..)
  unfold teardownStep
  dsimp only
  split
  · rw [TimerService.pending_cancel, hupdate]
  · rw [hupdate]

theorem scheduled_cancelTimer (h : Host) (w : Handle) (id : TimerId) :
    (h.cancelTimer w id).2.scheduled = h.scheduled := by
  obtain ⟨hdue, hfiring⟩ := underway_cancelTimer h w id
  unfold scheduled underway
  rw [pending_cancelTimer, hdue, hfiring]

theorem scheduled_cancelDebounce (h : Host) (w : Handle) :
    (h.teardownStep w .cancelDebounce).scheduled = h.scheduled := by
  obtain ⟨hdue, hfiring⟩ := underway_cancelDebounce h w
  unfold scheduled underway
  rw [pending_cancelDebounce, hdue, hfiring]

/-! ## 2. Sweeping -/

/-- What a sweep leaves is a part of what was there. -/
theorem subperm_sweep (h : Host) : h.sweep.scheduled.Subperm h.scheduled := by
  set pending := h.timers.pending.dropWhile (·.fireAt ≤ h.clock)
  set fired := h.timers.pending.takeWhile (·.fireAt ≤ h.clock)
  have hselected := TimerService.sublist_select fired h.timers.cancelled
  have hsub : (pending ++ ((h.due ++ (TimerService.select fired h.timers.cancelled).1) ++
      h.firing.toList)).Subperm (pending ++ ((h.due ++ fired) ++ h.firing.toList)) :=
    (((hselected.append_left _).append_right _).append_left _).subperm
  refine hsub.trans (List.Perm.subperm ?_)
  have hsplit : h.scheduled = fired ++ pending ++ h.underway := by
    rw [List.takeWhile_append_dropWhile]
    rfl
  rw [hsplit]
  unfold underway
  rw [← List.append_assoc, ← List.append_assoc, ← List.append_assoc, List.append_assoc fired]
  exact List.perm_append_comm.append_right _

/-- What a sweep hands over has come to its moment. -/
theorem fireAt_of_sweep {entry : TimerEntry} (he : entry ∈ h.sweep.underway) :
    entry ∈ h.underway ∨ entry.fireAt ≤ h.clock := by
  rcases List.mem_append.mp he with he | he
  · rcases List.mem_append.mp he with he | he
    · exact .inl (List.mem_append_left _ he)
    · right
      have hmem := (TimerService.sublist_select _ _).subset he
      simpa using List.mem_takeWhile_imp hmem
  · exact .inl (List.mem_append_right _ he)

theorem mem_scheduled_of_due {entry : TimerEntry} {due : List TimerEntry} (hdue : h.due = entry :: due) :
    entry ∈ h.scheduled := by
  refine List.mem_append_right _ (List.mem_append_left _ ?_)
  rw [hdue]
  exact List.mem_cons_self

/-! ## 3. Looking for the owner

The owner of a timer is found unless the timer is marked or its owner does not resolve. In any case the
timer has no mark afterwards. -/

/-- Only one timer is on its way to its owner at a time. -/
theorem resolve_of_not (hn : ¬(h.firing = none ∧ h.due ≠ [])) : Change.resolve.on h = h := by
  cases hr : h.resolveDue? with
  | none =>
    show h.resolveDue?.getD h = h
    rw [hr]
    rfl
  | some h' =>
    obtain ⟨entry, due, hfiring, hdue, -⟩ := of_resolveDue? hr
    exact absurd ⟨hfiring, hdue ▸ List.cons_ne_nil entry due⟩ hn

/-- There is a timer whose owner is looked for, or nothing happens. -/
theorem resolve_cases (h : Host) : (∃ entry due, h.firing = none ∧ h.due = entry :: due) ∨
    ¬(h.firing = none ∧ h.due ≠ []) ∧ Change.resolve.on h = h := by
  by_cases hn : h.firing = none ∧ h.due ≠ []
  · obtain ⟨hfiring, hdue⟩ := hn
    obtain ⟨entry, due, hdue⟩ := List.exists_cons_of_ne_nil hdue
    exact .inl ⟨entry, due, hfiring, hdue⟩
  · exact .inr ⟨hn, resolve_of_not hn⟩

section
variable {entry : TimerEntry} {due : List TimerEntry} (hfiring : h.firing = none)
  (hdue : h.due = entry :: due)
include hfiring hdue

theorem resolve_of_cons : ∃ freedTimers : Tombstones TimerId,
    (∀ i, i ∈ freedTimers ↔ i ≠ entry.id ∧ i ∈ h.registry.freedTimers) ∧
      Change.resolve.on h = { h with
        due, registry := { h.registry with freedTimers },
        firing := if h.Reaches entry then some entry else none } := by
  have hresolve : Change.resolve.on h = { h with
      due, registry := (h.registry.resolveTimer entry.id entry.owner).2,
      firing := (h.registry.resolveTimer entry.id entry.owner).1.map fun _ => entry } := by
    refine on_resolve ?_
    unfold resolveDue?
    rw [hfiring, hdue]
  rw [hresolve]
  unfold Registry.resolveTimer Reaches Registry.resolve?
  dsimp only
  by_cases hmarked : entry.id ∈ h.registry.freedTimers
  · refine ⟨(h.registry.freedTimers.forget entry.id).2, fun i => Tombstones.mem_forget, ?_⟩
    have hforget := (Tombstones.forget_fst h.registry.freedTimers entry.id).mpr hmarked
    simp [hmarked, hforget]
  · have hforget : (h.registry.freedTimers.forget entry.id).1 = false :=
      Bool.eq_false_iff.mpr fun heq => hmarked ((Tombstones.forget_fst _ _).mp heq)
    refine ⟨h.registry.freedTimers, fun i => ⟨fun hi => ⟨?_, hi⟩, And.right⟩, ?_⟩
    · rintro rfl
      exact hmarked hi
    · by_cases hr : h.registry.resolves entry.owner = true <;> simp [hmarked, hforget, hr]

theorem firing_resolve :
    (Change.resolve.on h).firing = if h.Reaches entry then some entry else none := by
  obtain ⟨freedTimers, -, heq⟩ := resolve_of_cons hfiring hdue
  rw [heq]

theorem due_resolve : (Change.resolve.on h).due = due := by
  obtain ⟨freedTimers, -, heq⟩ := resolve_of_cons hfiring hdue
  rw [heq]

/-- A timer uses up its mark when its owner is looked for. -/
theorem freedTimers_resolve {i : TimerId} : i ∈ (Change.resolve.on h).registry.freedTimers ↔
    i ≠ entry.id ∧ i ∈ h.registry.freedTimers := by
  obtain ⟨freedTimers, hfreed, heq⟩ := resolve_of_cons hfiring hdue
  rw [heq]
  exact hfreed i

/-- The service no longer knows a timer whose owner was not found. -/
theorem perm_resolve : h.scheduled.Perm
    (if h.Reaches entry then (Change.resolve.on h).scheduled
      else entry :: (Change.resolve.on h).scheduled) := by
  obtain ⟨freedTimers, -, heq⟩ := resolve_of_cons hfiring hdue
  unfold scheduled underway
  rw [heq, hfiring, hdue]
  split
  · show (_ ++ (entry :: (due ++ []))).Perm (_ ++ (due ++ [entry]))
    rw [List.append_nil]
    exact (List.perm_append_singleton entry due).symm.append_left _
  · exact List.perm_middle

end

/-- No mark is made when an owner is looked for. -/
theorem mem_freedTimers_resolve {i : TimerId} (hi : i ∈ (Change.resolve.on h).registry.freedTimers) :
    i ∈ h.registry.freedTimers := by
  obtain ⟨entry, due, hfiring, hdue⟩ | ⟨-, heq⟩ := h.resolve_cases
  · exact ((freedTimers_resolve hfiring hdue).mp hi).2
  · rwa [heq] at hi

/-- The service itself is not asked. -/
theorem timers_resolve (h : Host) : (Change.resolve.on h).timers = h.timers := by
  obtain ⟨entry, due, hfiring, hdue⟩ | ⟨-, heq⟩ := h.resolve_cases
  · obtain ⟨freedTimers, -, heq⟩ := resolve_of_cons hfiring hdue
    rw [heq]
  · rw [heq]

/-- The service learns nothing when an owner is looked for. -/
theorem subperm_resolve (h : Host) : (Change.resolve.on h).scheduled.Subperm h.scheduled := by
  obtain ⟨entry, due, hfiring, hdue⟩ | ⟨-, heq⟩ := h.resolve_cases
  · have hperm := perm_resolve hfiring hdue
    split at hperm
    · exact hperm.symm.subperm
    · exact (List.sublist_cons_self _ _).subperm.trans hperm.symm.subperm
  · rw [heq]

theorem mem_underway_resolve {e : TimerEntry} (he : e ∈ (Change.resolve.on h).underway) :
    e ∈ h.underway := by
  obtain ⟨entry, due, hfiring, hdue⟩ | ⟨-, heq⟩ := h.resolve_cases
  · unfold underway at he ⊢
    rw [firing_resolve hfiring hdue, due_resolve hfiring hdue] at he
    rw [hdue]
    rcases List.mem_append.mp he with he | he
    · exact List.mem_append_left _ (List.mem_cons_of_mem _ he)
    · split at he
      · rw [List.mem_singleton.mp he]
        exact List.mem_append_left _ List.mem_cons_self
      · cases he
  · rwa [heq] at he

/-! ## 4. Firing

The computer that was found decides, by what it waits for. -/

theorem fire_of_none (hfiring : h.firing = none) : Change.fire.on h = h := by
  show h.fire?.getD h = h
  unfold fire?
  rw [hfiring]
  rfl

section
variable {entry : TimerEntry} (hfiring : h.firing = some entry)
include hfiring

theorem fire_of_some : Change.fire.on h =
    ({ h with firing := none } : Host).modify entry.owner (·.timerFired entry.id entry.event) := by
  refine on_fire ?_
  unfold fire?
  rw [hfiring]
  rfl

/-- The service no longer knows a timer that has fired. -/
theorem perm_fire : h.scheduled.Perm (entry :: (Change.fire.on h).scheduled) := by
  rw [fire_of_some hfiring]
  unfold scheduled underway
  rw [hfiring]
  show (h.timers.pending ++ (h.due ++ [entry])).Perm (entry :: (h.timers.pending ++ (h.due ++ [])))
  rw [← List.append_assoc, ← List.append_assoc]
  exact List.perm_append_comm.trans (by simp)

theorem timersOf_fire (who : Handle) : (Change.fire.on h).timersOf who =
    if who = entry.owner then (h.timersOf who).filter (· != entry.id) else h.timersOf who := by
  rw [fire_of_some hfiring]
  unfold timersOf
  rw [reading_modify (·.timerFired entry.id entry.event)
    fun c => (Computer.grows_timerFired c entry.id entry.event).handle]
  split
  · next hw =>
    subst hw
    show ((h.computer? entry.owner).map _).getD [] = _
    cases h.computer? entry.owner <;> simp [Computer.timers_timerFired]
  · rfl

/-- The event reaches the queue of the owner, if that waits for the timer. -/
theorem arrivals_fire (who : Handle) :
    h.arrivals who (Change.fire.on h) =
      if who = entry.owner ∧ h.WaitsFor who entry.id then [entry.event] else [] := by
  have hqueue : (Change.fire.on h).queue who = h.queue who ++
      if who = entry.owner ∧ h.WaitsFor who entry.id then [entry.event] else [] := by
    rw [fire_of_some hfiring]
    unfold queue
    rw [reading_modify (·.timerFired entry.id entry.event)
      fun c => (Computer.grows_timerFired c entry.id entry.event).handle]
    by_cases hw : who = entry.owner
    · subst hw
      rw [if_pos rfl]
      show ((h.computer? entry.owner).map _).getD [] = _
      cases hc : h.computer? entry.owner <;>
        simp [hc, WaitsFor, timersOf, debounceOf?, Computer.events_timerFired]
    · rw [if_neg hw, if_neg fun hn => hw hn.1, List.append_nil]
      rfl
  unfold arrivals
  rw [hqueue, List.drop_left]

end

theorem due_fire (h : Host) : (Change.fire.on h).due = h.due := by
  cases hfiring : h.firing with
  | none => rw [fire_of_none hfiring]
  | some entry =>
    rw [fire_of_some hfiring]
    rfl

theorem timers_fire (h : Host) : (Change.fire.on h).timers = h.timers := by
  cases hfiring : h.firing with
  | none => rw [fire_of_none hfiring]
  | some entry =>
    rw [fire_of_some hfiring]
    rfl

/-- Nobody waits for more because a timer fires. -/
theorem mem_timersOf_fire {i : TimerId} (hi : i ∈ (Change.fire.on h).timersOf who) :
    i ∈ h.timersOf who := by
  cases hfiring : h.firing with
  | none => rwa [fire_of_none hfiring] at hi
  | some entry =>
    rw [timersOf_fire hfiring] at hi
    split at hi
    · exact List.mem_of_mem_filter hi
    · exact hi

theorem debounceOf?_fire {i : TimerId} (hi : (Change.fire.on h).debounceOf? who = some i) :
    h.debounceOf? who = some i := by
  cases hfiring : h.firing with
  | none => rwa [fire_of_none hfiring] at hi
  | some entry =>
    rw [fire_of_some hfiring] at hi
    unfold debounceOf? at hi ⊢
    rw [reading_modify (·.timerFired entry.id entry.event)
      fun c => (Computer.grows_timerFired c entry.id entry.event).handle] at hi
    split at hi
    · next hw =>
      subst hw
      change ((h.computer? entry.owner).map _).getD none = some i at hi
      cases hc : h.computer? entry.owner with
      | none =>
        rw [hc] at hi
        cases hi
      | some c =>
        rw [hc] at hi
        change (c.timerFired entry.id entry.event).debounce = some i at hi
        rw [Computer.debounce_timerFired] at hi
        split at hi
        · cases hi
        · exact hi
    · exact hi

/-- The service learns nothing from a timer that fires. -/
theorem subperm_fire (h : Host) : (Change.fire.on h).scheduled.Subperm h.scheduled := by
  cases hfiring : h.firing with
  | none => rw [fire_of_none hfiring]
  | some entry => exact (List.sublist_cons_self _ _).subperm.trans (perm_fire hfiring).symm.subperm

/-! ## 5. All changes -/

theorem scheduled_of_differs {at₁ : Aspect → Prop} (hd : Differs at₁ h h') (hs : ¬at₁ .service) :
    h'.scheduled = h.scheduled := by
  obtain ⟨htimers, hdue, hfiring⟩ := hd.agrees .service hs
  unfold scheduled underway
  rw [htimers, hdue, hfiring]

/-- A delivery begins when its owner is looked for, and ends when the timer fires. -/
theorem firing_on {x : Change} (hr : x ≠ .resolve) (hf : x ≠ .fire) : (x.on h).firing = h.firing := by
  have hd := differs_on x h
  have hsame (ht : ¬x.Touches .service) : (x.on h).firing = h.firing := (hd.agrees .service ht).2.2
  cases x with
  | startTimer w ms => exact (underway_startTimer h w ms).2
  | debounce w ms e => exact (underway_debounce h w ms e).2
  | cancelTimer w id => exact (underway_cancelTimer h w id).2
  | sweep => rfl
  | resolve => exact absurd rfl hr
  | fire => exact absurd rfl hf
  | teardown w step =>
    cases step with
    | cancelDebounce => exact (underway_cancelDebounce h w).2
    | _ => exact hsame not_false
  | _ => exact hsame (by simp [Change.Touches, Aspect.OfSpawn, Aspect.OfWiring])

/-- Only one timer is delivered at a time. -/
theorem firing_on_of_some {x : Change} {entry : TimerEntry} (hf : x ≠ .fire)
    (hfiring : h.firing = some entry) : (x.on h).firing = some entry := by
  by_cases hr : x = .resolve
  · rw [hr, resolve_of_not fun hn => by simp [hfiring] at hn]
    exact hfiring
  · exact (firing_on hr hf).trans hfiring

theorem onlyNew_of_differs {at₁ : Aspect → Prop} (hd : Differs at₁ h h') (hs : ¬at₁ .service)
    (hn : ¬at₁ .numbering) : OnlyNew h h' where
  counted := Nat.le_of_eq (hd.agrees .numbering hn).symm
  added e he := .inl (by rwa [scheduled_of_differs hd hs] at he)

theorem onlyNew_of_subset {at₁ : Aspect → Prop} (hd : Differs at₁ h h') (hn : ¬at₁ .numbering)
    (hs : h'.scheduled ⊆ h.scheduled) : OnlyNew h h' where
  counted := Nat.le_of_eq (hd.agrees .numbering hn).symm
  added _ he := .inl (hs he)

theorem onlyNew_of_perm {entry : TimerEntry} (hn : h'.counters.timer = h.counters.timer + 1)
    (hid : entry.id.number = h.counters.timer)
    (hs : h'.scheduled = h.scheduled ∨ h'.scheduled.Perm (entry :: h.scheduled)) :
    OnlyNew h h' where
  counted := hn ▸ Nat.le_succ _
  added e he := by
    rcases hs with hs | hs
    · exact .inl (hs ▸ he)
    · rcases List.mem_cons.mp (hs.subset he) with rfl | he
      · exact .inr ⟨hid, hn ▸ Nat.lt_succ_self _⟩
      · exact .inl he

/-- A change adds no timer to the service, unless it is one with a new number. -/
theorem scheduled_on (x : Change) (h : Host) : OnlyNew h (x.on h) := by
  have hd := differs_on x h
  cases x with
  | startTimer w ms => exact onlyNew_of_perm (counters_startTimer h w ms) rfl (scheduled_startTimer ..)
  | debounce w ms e => exact onlyNew_of_perm (counters_debounce h w ms e) rfl (scheduled_debounce ..)
  | cancelTimer w id =>
    exact onlyNew_of_subset hd (by simp [Change.Touches]) fun e he => scheduled_cancelTimer h w id ▸ he
  | sweep => exact onlyNew_of_subset hd (by simp [Change.Touches]) (subperm_sweep h).subset
  | resolve => exact onlyNew_of_subset hd not_false (subperm_resolve h).subset
  | fire => exact onlyNew_of_subset hd not_false (subperm_fire h).subset
  | teardown w step =>
    cases step with
    | cancelDebounce =>
      exact onlyNew_of_subset hd not_false fun e he => scheduled_cancelDebounce h w ▸ he
    | _ => exact onlyNew_of_differs hd not_false not_false
  | _ =>
    refine onlyNew_of_differs hd ?_ ?_ <;>
      simp [Change.Touches, Aspect.OfSpawn, Aspect.OfWiring]

/-- A teardown takes the timers that its computer waits for, and only that. -/
theorem mem_takenTimersOf_on {x : Change} {i : TimerId} (hi : i ∈ (x.on h).takenTimersOf who) :
    i ∈ h.takenTimersOf who ∨ x = .teardown who .takeTimers ∧ i ∈ h.timersOf who := by
  have hsame (hx : ¬x.Touches (.taken who)) : i ∈ h.takenTimersOf who :=
    (show (x.on h).takenTimersOf who = _ from (differs_on x h).agrees (.taken who) hx) ▸ hi
  cases x with
  | teardown v step =>
    cases step with
    | takeTimers =>
      change i ∈ (h.teardownStep v .takeTimers).takenTimersOf who at hi
      rw [takenTimersOf_takeTimers] at hi
      split at hi
      · next hw =>
        subst hw
        exact (List.mem_append.mp hi).imp_right fun hi => ⟨rfl, hi⟩
      · exact .inl hi
    | invalidateTimers =>
      change i ∈ (h.teardownStep v .invalidateTimers).takenTimersOf who at hi
      rw [takenTimersOf_invalidateTimers] at hi
      split at hi
      · cases hi
      · exact .inl hi
    | _ => exact .inl (hsame not_false)
  | _ =>
    exact .inl (hsame (by simp [Change.Touches, Aspect.OfSpawn, Aspect.OfWiring, Aspect.OfResolution,
      Aspect.OfFiring]))

/-- What the service does not know and was drawn before does not come back. -/
theorem OnlyNew.not_scheduled (ho : OnlyNew h h') (hid : id.number < h.counters.timer)
    (hno : ∀ e ∈ h.scheduled, e.id ≠ id) :
    id.number < h'.counters.timer ∧ ∀ e ∈ h'.scheduled, e.id ≠ id := by
  refine ⟨Nat.lt_of_lt_of_le hid ho.counted, fun e he heq => ?_⟩
  rcases ho.added e he with he | ⟨hnew, -⟩
  · exact hno e he heq
  · rw [heq] at hnew
    exact Nat.ne_of_lt hid hnew

end

end Host

end ComputerHost
