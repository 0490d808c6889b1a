import ComputerHost.Host.Run

/-!
# Parking

How the thread of a computer sleeps until there is something for it, in steps as fine as the locks. The
events are behind one lock and the run state is behind another. The thread holds the first one while it
looks for an event and then at whether it should go on waiting, and gives it up in the same step in which
it parks. Whoever queues an event takes that lock and signals before letting it go. Whoever asks the
computer to stop or to reboot changes the run state without the lock of the events, and takes that lock
only for the signal. A signal reaches a thread that is parked, and is lost on any other.

`Step` has one constructor for each step; a `Run` is any number of them, of any number of callers.

Results:
1. `sound_step`, `sound_run`: the invariant, one case a step.
2. `run_looking`, `Alert.notices`, `Alert.run`: what a thread that has been signalled finds out by itself.
3. `move?_of_quiet`: a parked thread that nobody has news for is one that cannot move.
4. `no_wakeup_lost`: what holds of every run.
-/

namespace ComputerHost.Parking

/-- How far the thread of a computer has come in a wait. -/
inductive Place where
  /-- It does not wait. -/
  | away
  /-- It needs the lock, for a first look or, once its time is over, for a last one. -/
  | entering (expired : Bool)
  /-- It has the lock and will look for an event. -/
  | looking (expired : Bool)
  /-- It has the lock, has found no event, and will look at the run state. -/
  | checking
  /-- It has the lock and will give it up and park. -/
  | settling
  | parked
deriving DecidableEq, Repr

/-- Does a thread at this place hold the lock of the events? -/
def Place.hasLock : Place → Bool
  | .looking _ | .checking | .settling => true
  | .away | .entering _ | .parked => false

/-- A computer, its thread, and what others are about to tell the thread. -/
structure Site where
  computer : Computer
  place : Place
  /-- The signals that were sent to the parked thread and have not been received. -/
  signals : Nat
  /-- How many callers have changed the run state and not yet signalled. -/
  asking : Nat

/-- Who makes a step. -/
inductive Mover where
  | thread
  | caller
  | clock
deriving DecidableEq, Repr

namespace Site

/-- Signal to the thread. -/
def signal (s : Site) : Site :=
  if s.place = .parked then { s with signals := s.signals + 1 } else s

def events (s : Site) : List Event := s.computer.events.toList

/-- Is there an event for the thread, or has somebody asked for something? -/
def HasNews (s : Site) : Prop := s.events ≠ [] ∨ s.computer.isRunning = false

end Site

/-- One step, and the answer if a wait ends with it. -/
inductive Step (s : Site) : Mover → Option EventQueue.Wait → Site → Prop
  | queues (e : Event) : s.place.hasLock = false →
      Step s .caller none { s with computer := s.computer.queue e }.signal
  | shutsDown : Step s .caller none { s with computer := s.computer.shutdown, asking := s.asking + 1 }
  | reboots : s.computer.runState ≠ .stopped →
      Step s .caller none { s with computer := s.computer.reboot, asking := s.asking + 1 }
  | signals : 0 < s.asking → s.place.hasLock = false →
      Step s .caller none { s with asking := s.asking - 1 }.signal
  /-- Somebody signals without having changed anything. -/
  | rings : s.place.hasLock = false → Step s .caller none s.signal
  | beginsBoot : s.place = .away →
      Step s .thread none { s with computer := s.computer.beginBoot.2 }
  | finishes : s.place = .away → Step s .thread none { s with computer := s.computer.finish }
  | clears : s.place = .away →
      Step s .thread none { s with computer := { s.computer with events := EventQueue.empty } }
  | waits : s.place = .away → Step s .thread none { s with place := .entering false }
  | locks {expired : Bool} : s.place = .entering expired →
      Step s .thread none { s with place := .looking expired }
  | takes {expired : Bool} {e : Event} {rest : EventQueue} : s.place = .looking expired →
      s.computer.events.pop? = some (e, rest) →
      Step s .thread (some (.event e))
        { s with place := .away, computer := { s.computer with events := rest } }
  | findsNone : s.place = .looking false → s.computer.events.pop? = none →
      Step s .thread none { s with place := .checking }
  | timesOut : s.place = .looking true → s.computer.events.pop? = none →
      Step s .thread (some .timedOut) { s with place := .away }
  | quits : s.place = .checking → s.computer.isRunning = false →
      Step s .thread (some .interrupted) { s with place := .away }
  | goesOn : s.place = .checking → s.computer.isRunning = true →
      Step s .thread none { s with place := .settling }
  | parks : s.place = .settling → Step s .thread none { s with place := .parked, signals := 0 }
  | receives : s.place = .parked → 0 < s.signals →
      Step s .thread none { s with place := .entering false, signals := 0 }
  | expires : s.place = .parked →
      Step s .clock none { s with place := .entering true, signals := 0 }

/-- Any number of steps, and who made them. -/
inductive Run (s₀ : Site) : List Mover → Site → Prop
  | refl : Run s₀ [] s₀
  | snoc {movers : List Mover} {s s' : Site} {mover : Mover} {answer : Option EventQueue.Wait} :
      Run s₀ movers s → Step s mover answer s' → Run s₀ (movers ++ [mover]) s'

/-- What the thread can rely on at each place. That the computer runs is not among it once the thread has
looked, since the run state is behind another lock; but then its caller has not signalled yet. -/
def Sound (s : Site) : Prop :=
  match s.place with
  | .away | .entering _ | .looking _ => True
  | .checking => s.events = []
  | .settling => s.events = [] ∧ (s.computer.isRunning = false → 0 < s.asking)
  | .parked => (s.events ≠ [] → 0 < s.signals) ∧
      (s.computer.isRunning = false → 0 < s.signals ∨ 0 < s.asking)

/-- A parked thread that has news and was signalled. -/
structure Alert (s : Site) : Prop where
  parked : s.place = .parked
  signalled : 0 < s.signals
  news : s.HasNews

/-- Left to itself, the thread ends its wait, with the answer that one look at the events gives. -/
def Notices (s : Site) : Prop :=
  ∃ w rest, s.computer.events.look s.computer.isRunning false = (some w, rest) ∧
    ∃ movers s₁ s', (∀ m ∈ movers, m = .thread) ∧ Run s movers s₁ ∧ Step s₁ .thread (some w) s' ∧
      s'.computer = { s.computer with events := rest }

section
variable {s s' s₀ : Site} {movers : List Mover} {mover : Mover} {answer : Option EventQueue.Wait}

/-! ## 1. The invariant -/

@[simp] theorem place_signal (s : Site) : s.signal.place = s.place := by
  unfold Site.signal
  split <;> rfl

/-- A signal that finds the thread without the lock leaves it where nothing is missing. -/
theorem sound_signal (hlock : s.place.hasLock = false) : Sound s.signal := by
  unfold Sound
  rw [place_signal]
  cases hp : s.place with
  | away | entering => trivial
  | looking | checking | settling => simp [hp, Place.hasLock] at hlock
  | parked =>
    have hsignals : 0 < s.signal.signals := by simp [Site.signal, hp]
    exact ⟨fun _ => hsignals, fun _ => .inl hsignals⟩

/-- Whatever is made of the run state, if the one who does it has still to signal. -/
theorem sound_asking {c : Computer} (hs : Sound s) (he : c.events = s.computer.events) :
    Sound { s with computer := c, asking := s.asking + 1 } := by
  have hevents : c.events.toList = s.events := by rw [he]; rfl
  unfold Sound at hs ⊢
  dsimp only [Site.events]
  rw [hevents]
  cases hp : s.place with
  | away | entering | looking => trivial
  | checking => simpa [hp] using hs
  | settling =>
    simp only [hp] at hs
    exact ⟨hs.1, fun _ => Nat.succ_pos _⟩
  | parked =>
    simp only [hp] at hs
    exact ⟨hs.1, fun _ => .inr (Nat.succ_pos _)⟩

theorem sound_step (hs : Sound s) (ht : Step s mover answer s') : Sound s' := by
  cases ht with
  | queues e hlock => exact sound_signal hlock
  | shutsDown => exact sound_asking hs rfl
  | reboots =>
    refine sound_asking hs ?_
    unfold Computer.reboot
    split <;> rfl
  | signals _ hlock => exact sound_signal hlock
  | rings hlock => exact sound_signal hlock
  | beginsBoot hp | finishes hp | clears hp => simp [Sound, hp]
  | waits | locks | takes | timesOut | quits | receives | expires => trivial
  | findsNone _ hnone => exact (EventQueue.pop?_eq_none_iff _).mp hnone
  | goesOn hp hrun =>
    simp only [Sound, hp] at hs
    exact ⟨hs, fun hstop => Bool.noConfusion (hrun.symm.trans hstop)⟩
  | parks hp =>
    -- What happened since the look at the run state was done by somebody who still waits for the lock.
    simp only [Sound, hp] at hs
    exact ⟨fun hne => absurd hs.1 hne, fun hstop => .inr (hs.2 hstop)⟩

theorem sound_run (hs : Sound s₀) (hr : Run s₀ movers s) : Sound s := by
  induction hr with
  | refl => exact hs
  | snoc _ ht ih => exact sound_step ih ht

/-! ## 2. Threads that have been signalled -/

theorem Run.trans {later : List Mover} (hr : Run s₀ movers s) (hr' : Run s later s') :
    Run s₀ (movers ++ later) s' := by
  induction hr' with
  | refl => rwa [List.append_nil]
  | snoc _ ht ih =>
    rw [← List.append_assoc]
    exact .snoc ih ht

theorem Step.run (ht : Step s mover answer s') : Run s [mover] s' := .snoc .refl ht

/-- Left to itself, a thread with the lock comes to the answer that one look at the events gives. -/
theorem run_looking {w : EventQueue.Wait} {rest : EventQueue} (hp : s.place = .looking false)
    (hlook : s.computer.events.look s.computer.isRunning false = (some w, rest)) :
    ∃ movers s₁ s', (∀ m ∈ movers, m = .thread) ∧ Run s movers s₁ ∧
      Step s₁ .thread (some w) s' ∧ s'.computer = { s.computer with events := rest } := by
  unfold EventQueue.look at hlook
  cases hpop : s.computer.events.pop? with
  | some found =>
    simp only [hpop] at hlook
    cases hlook
    exact ⟨[], s, _, by simp, .refl, .takes hp hpop, rfl⟩
  | none =>
    cases hrun : s.computer.isRunning with
    | true => simp [hpop, hrun] at hlook
    | false =>
      simp only [hpop, hrun, Bool.not_false, if_true] at hlook
      cases hlook
      exact ⟨_, _, _, by simp, (Step.findsNone hp hpop).run, .quits rfl hrun, rfl⟩

/-- If there is news, one look at the events finds it. -/
theorem look_of_hasNews (hn : s.HasNews) : ∃ w rest,
    s.computer.events.look s.computer.isRunning false = (some w, rest) := by
  unfold EventQueue.look
  cases hpop : s.computer.events.pop? with
  | some found => exact ⟨_, _, rfl⟩
  | none =>
    rcases hn with hne | hstop
    · exact absurd ((EventQueue.pop?_eq_none_iff _).mp hpop) hne
    · exact ⟨_, _, by simp only [hstop, Bool.not_false, if_true]; rfl⟩

theorem Alert.notices (ha : Alert s) : Notices s := by
  obtain ⟨w, rest, hlook⟩ := look_of_hasNews ha.news
  have hwakes : Step s .thread none _ := .receives ha.parked ha.signalled
  have hlocks : Step _ .thread none _ :=
    .locks (s := { s with place := .entering false, signals := 0 }) rfl
  obtain ⟨movers, s₁, s', hmovers, hr, ht, hc⟩ :=
    run_looking (s := { s with place := .looking false, signals := 0 }) rfl hlook
  refine ⟨w, rest, hlook, _, s₁, s', ?_, (hwakes.run.trans hlocks.run).trans hr, ht, hc⟩
  simpa using hmovers

theorem hasNews_signal : s.signal.HasNews ↔ s.HasNews := by
  unfold Site.signal
  split <;> rfl

theorem signals_le_signal (s : Site) : s.signals ≤ s.signal.signals := by
  unfold Site.signal
  split
  · exact Nat.le_succ _
  · exact Nat.le_refl _

theorem Alert.signal (ha : Alert s) : Alert s.signal :=
  ⟨(place_signal s).trans ha.parked, Nat.lt_of_lt_of_le ha.signalled (signals_le_signal s),
    hasNews_signal.mpr ha.news⟩

/-- Callers add to the news, and no signal is taken back. -/
theorem Alert.step (ha : Alert s) (ht : Step s .caller answer s') : Alert s' := by
  obtain ⟨hp, hsignals, hn⟩ := ha
  cases ht with
  | queues e => exact Alert.signal ⟨hp, hsignals, .inl (by simp [Site.events, Computer.queue])⟩
  | shutsDown => exact ⟨hp, hsignals, .inr rfl⟩
  | reboots hstopped => exact ⟨hp, hsignals, .inr (by simp [Computer.reboot, hstopped, Computer.isRunning])⟩
  | signals => exact Alert.signal ⟨hp, hsignals, hn⟩
  | rings => exact Alert.signal ⟨hp, hsignals, hn⟩

theorem Alert.run (ha : Alert s) (hr : Run s movers s') (hmovers : ∀ m ∈ movers, m = .caller) :
    Alert s' := by
  induction hr with
  | refl => exact ha
  | @snoc _ _ _ mover _ _ ht ih =>
    rw [List.forall_mem_append, List.forall_mem_singleton] at hmovers
    obtain ⟨hmovers, rfl⟩ := hmovers
    exact (ih hmovers).step ht

/-! ## 3. The host -/

/-- A parked thread that nobody has news for is, in a host, one that cannot move before its deadline. -/
theorem move?_of_quiet {h : Host} {who : Handle} {session : Session} {filter : String} {deadline : Nat}
    {warned : Bool} (hcomputer : h.computer? who = some s.computer)
    (hstage : h.stage? who = some (.waiting session filter deadline warned)) :
    h.move? who = none ↔ ¬s.HasNews ∧ h.clock < deadline := by
  have hmove : h.move? who = none ↔
      (s.computer.events.look s.computer.isRunning (decide (deadline ≤ h.clock))).1 = none := by
    simp only [Host.move?, hstage, Host.await, hcomputer]
    rcases s.computer.events.look s.computer.isRunning (decide (deadline ≤ h.clock)) with
      ⟨_ | _ | _ | _, rest⟩ <;> simp
  rw [hmove]
  unfold EventQueue.look Site.HasNews Site.events
  cases hpop : s.computer.events.pop? with
  | some found =>
    obtain ⟨e, rest⟩ := found
    simp [EventQueue.toList_of_pop? hpop]
  | none =>
    rw [(EventQueue.pop?_eq_none_iff _).mp hpop]
    cases s.computer.isRunning with
    | false => simp
    | true => by_cases hlt : deadline ≤ h.clock <;> simp [hlt, Nat.not_le.mp]

/-! ## 4. Every run -/

/-- No wake-up is lost. If the thread is parked, no signal is on its way to it and no caller stands between
a change of the run state and its signal, then there is no news. Otherwise such a caller can signal; and
once nobody stands in between, the thread notices whatever news there is, without the help of the clock
and whatever callers do before it wakes up. A wait is interrupted only if there is no event and the
computer does not run, and the event that it answers is the first one. -/
theorem no_wakeup_lost (haway : s₀.place = .away) (hr : Run s₀ movers s) :
    (s.place = .parked → s.signals = 0 → s.asking = 0 →
      s.events = [] ∧ s.computer.runState = .running) ∧
    (s.place = .parked → 0 < s.asking → ∃ s', Step s .caller none s' ∧ s'.place = .parked ∧
      s'.computer = s.computer ∧ s'.asking + 1 = s.asking ∧ 0 < s'.signals) ∧
    (s.place = .parked → s.asking = 0 → s.HasNews →
      ∀ callers s₁, Run s callers s₁ → (∀ m ∈ callers, m = .caller) → Notices s₁) ∧
    ∀ mover w s', Step s mover (some w) s' →
      (w = .interrupted → s.events = [] ∧ s.computer.runState ≠ .running) ∧
      (∀ e, w = .event e → s.events = e :: s'.events) ∧ (w = .timedOut → s.events = []) := by
  have hsound : Sound s := sound_run (by simp [Sound, haway]) hr
  refine ⟨fun hp hsignals hasking => ?_, fun hp hasking => ?_, fun hp hasking hn callers s₁ hr₁ hall => ?_,
    fun mover w s' ht => ?_⟩
  · simp only [Sound, hp, hsignals, hasking, Nat.lt_irrefl, or_self, imp_false] at hsound
    exact ⟨Decidable.not_not.mp hsound.1, by simpa [Computer.isRunning] using hsound.2⟩
  · refine ⟨_, .signals hasking (by rw [hp]; rfl), ?_, ?_, ?_, ?_⟩ <;> simp [Site.signal, hp]
    exact Nat.sub_add_cancel hasking
  · simp only [Sound, hp, hasking, Nat.lt_irrefl, or_false] at hsound
    have halert : Alert s := ⟨hp, hn.elim hsound.1 hsound.2, hn⟩
    exact (halert.run hr₁ hall).notices
  · cases ht with
    | takes _ hpop =>
      refine ⟨nofun, fun e he => ?_, nofun⟩
      cases he
      exact EventQueue.toList_of_pop? hpop
    | timesOut _ hpop => exact ⟨nofun, nofun, fun _ => (EventQueue.pop?_eq_none_iff _).mp hpop⟩
    | quits hp hstop =>
      simp only [Sound, hp] at hsound
      exact ⟨fun _ => ⟨hsound, by simpa [Computer.isRunning] using hstop⟩, nofun, nofun⟩

end

/-- A computer whose thread is about to wait. -/
def idle : Site := ⟨Computer.new ⟨1, 1⟩ false none MountTable.empty .default "", .away, 0, 0⟩

/-- Somebody asks for a reboot after the thread has found that the computer runs and before it parks, and
signals when it has parked. An event is queued before the thread wakes up, and it is the event that it
notices. -/
theorem no_wakeup_lost_rebooting : ∃ movers s, Run idle movers s ∧ s.place = .parked ∧
    s.computer.runState = .rebooting ∧ s.asking = 0 ∧
    ∃ s₁, Run s [.caller] s₁ ∧ s₁.events = [⟨"key", []⟩] ∧ Notices s₁ := by
  have hwaits : Run idle _ _ := (Step.waits rfl).run
  have hlocks := hwaits.snoc (Step.locks rfl)
  have hfinds := hlocks.snoc (Step.findsNone rfl rfl)
  have hgoesOn := hfinds.snoc (Step.goesOn rfl rfl)
  have hreboots := hgoesOn.snoc (Step.reboots (by decide))
  have hparks := hreboots.snoc (Step.parks rfl)
  have hsignals := hparks.snoc (Step.signals (by decide) rfl)
  have hlost := no_wakeup_lost rfl hsignals
  refine ⟨_, _, hsignals, rfl, rfl, rfl, _, (Step.queues ⟨"key", []⟩ rfl).run, rfl, ?_⟩
  exact hlost.2.2.1 rfl rfl (.inr rfl) _ _ (Step.queues ⟨"key", []⟩ rfl).run (by simp)

end ComputerHost.Parking
