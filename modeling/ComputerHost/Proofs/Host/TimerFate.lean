import ComputerHost.Proofs.Host.Timers

/-!
# The fate of timers

The fate of a timer is decided in four places: the waiting timers of the service and its cancelled ids,
the marks of timers whose computer is gone, the registry, and the timers that a computer waits for. Here
it is read off a trace of changes: what was started, cancelled, taken and marked (`timerNotesOf`), and what
was queued because a timer fired (`firingsOf`).

`Accounts` is the invariant: the timers that a computer waits for are those that were started on it and
have come to nothing yet, and the service knows a timer at most once.

Results:
1. `accounts_startTimer`, `accounts_cancelTimer`, `accounts_fire`, …: the invariant, for each change of
   timers.
2. `accounts_of_evolves`, `firingsOf_of_not_scheduled`: every evolution of a host, in which what the service
   has handed over does not come back.
3. `timer_fires_once`: a timer fires at most once, only for the computer that it was started on, and
   never after it was cancelled.
-/

namespace ComputerHost

/-- Something that matters to the fate of timers. -/
inductive TimerNote where
  | started (who : Handle) (id : TimerId) (deadline : Nat)
  /-- A cancel has answered that the timer was running. -/
  | cancelled (who : Handle) (id : TimerId)
  /-- The teardown of its computer has taken the timer. -/
  | taken (who : Handle) (id : TimerId)
  /-- The teardown of its computer has marked the timer. -/
  | marked (who : Handle) (id : TimerId)
  | retired (who : Handle)
deriving DecidableEq

/-- Does a note say what has become of a timer? -/
def TimerNote.isFate : TimerNote → Bool
  | started .. | cancelled .. | taken .. => true
  | marked .. | retired _ => false

/-- What matters to the fate of timers. -/
def Aspect.OfTimers : Aspect → Prop
  | service | numbering | freedTimers | timers _ | taken _ | debounce _ => True
  | _ => False

namespace Host

/-- What a change means to timers. -/
def timerNotes : Host × Change → List TimerNote
  | (h, .startTimer who ms) =>
    if (h.computer? who).isSome then [.started who (h.startTimer who ms).1 (h.clock + ms)] else []
  | (h, .cancelTimer who id) => if (h.cancelTimer who id).1 then [.cancelled who id] else []
  | (h, .teardown who .takeTimers) => (h.timersOf who).map (.taken who)
  | (h, .teardown who .invalidateTimers) => (h.takenTimersOf who).map (.marked who)
  | (h, .teardown who .retire) => if (h.computer? who).isSome then [.retired who] else []
  | _ => []

/-- The events that a change queues for `who` because a timer fires, and when. -/
def firings (who : Handle) (id : TimerId) : Host × Change → List (Nat × Event)
  | (h, .fire) =>
    if h.firing.map (·.id) = some id then (h.arrivals who (Change.fire.on h)).map (h.clock, ·) else []
  | _ => []

def timerNotesOf (trace : List (Host × Change)) : List TimerNote := trace.flatMap timerNotes

/-- The events that were queued for `who` because a timer fired, and when. -/
def firingsOf (who : Handle) (id : TimerId) (trace : List (Host × Change)) : List (Nat × Event) :=
  trace.flatMap (firings who id)

/-- What a trace says about the timers of the host it has led to. -/
structure Accounts (trace : List (Host × Change)) (h : Host) : Prop where
  /-- A computer waits for what was started on it and has come to nothing yet. -/
  running : ∀ who id, id ∈ h.timersOf who ↔
    (∃ deadline, .started who id deadline ∈ timerNotesOf trace) ∧ firingsOf who id trace = [] ∧
      .cancelled who id ∉ timerNotesOf trace ∧ .taken who id ∉ timerNotesOf trace
  drawn : ∀ who id deadline, .started who id deadline ∈ timerNotesOf trace →
    id.number < h.counters.timer
  unique : ∀ who who' id deadline deadline', .started who id deadline ∈ timerNotesOf trace →
    .started who' id deadline' ∈ timerNotesOf trace → who' = who ∧ deadline' = deadline
  /-- Only what was started can be cancelled or taken. -/
  begun : ∀ who id, .cancelled who id ∈ timerNotesOf trace ∨ .taken who id ∈ timerNotesOf trace →
    ∃ deadline, .started who id deadline ∈ timerNotesOf trace
  cancelled : ∀ who id, .cancelled who id ∈ timerNotesOf trace → firingsOf who id trace = []
  entryDrawn : ∀ e ∈ h.scheduled, e.id.number < h.counters.timer
  nodup : (h.scheduled.map (·.id)).Nodup
  entry : ∀ e ∈ h.scheduled, ∀ who deadline, .started who e.id deadline ∈ timerNotesOf trace →
    e.owner = who ∧ e.event = timerEvent e.id ∧ deadline ≤ e.fireAt
  underway : ∀ e ∈ h.underway, e.fireAt ≤ h.clock
  /-- A debounced event is not a timer that was started. -/
  debounce : ∀ who id, h.debounceOf? who = some id → id.number < h.counters.timer ∧
    ∀ who' deadline, .started who' id deadline ∉ timerNotesOf trace
  firedDrawn : ∀ who id, firingsOf who id trace ≠ [] → id.number < h.counters.timer
  fired : ∀ who id deadline, .started who id deadline ∈ timerNotesOf trace →
    ∀ w t e, (t, e) ∈ firingsOf w id trace → w = who ∧ e = timerEvent id ∧ deadline ≤ t
  once : ∀ who id, (firingsOf who id trace).length ≤ 1
  /-- The service no longer knows what has fired. -/
  spent : ∀ who id, firingsOf who id trace ≠ [] → ∀ e ∈ h.scheduled, e.id ≠ id
  /-- What is to be marked, or is marked, was taken. -/
  taken : ∀ who, ∀ id ∈ h.takenTimersOf who, .taken who id ∈ timerNotesOf trace
  freed : ∀ id ∈ h.registry.freedTimers, ∃ who, .taken who id ∈ timerNotesOf trace

/-- What a change says about timers, by its kind. -/
inductive Says (h : Host) : Change → TimerNote → Prop
  | started {who : Handle} {ms : Nat} : (h.computer? who).isSome = true →
      Says h (.startTimer who ms) (.started who ⟨h.counters.timer⟩ (h.clock + ms))
  | cancelled {who : Handle} {id : TimerId} : id ∈ h.timersOf who →
      Says h (.cancelTimer who id) (.cancelled who id)
  | taken {who : Handle} {id : TimerId} : id ∈ h.timersOf who →
      Says h (.teardown who .takeTimers) (.taken who id)
  | marked {who : Handle} {id : TimerId} : id ∈ h.takenTimersOf who →
      Says h (.teardown who .invalidateTimers) (.marked who id)
  | retired {who : Handle} : (h.computer? who).isSome = true →
      Says h (.teardown who .retire) (.retired who)

/-! ## 1. The invariant -/

section
variable {h h' : Host} {trace trace' : List (Host × Change)} {who w : Handle} {id : TimerId}

theorem timerNotesOf_snoc (trace : List (Host × Change)) (h : Host) (x : Change) :
    timerNotesOf (trace ++ [(h, x)]) = timerNotesOf trace ++ timerNotes (h, x) := by
  simp [timerNotesOf]

theorem firingsOf_snoc (who : Handle) (id : TimerId) (trace : List (Host × Change)) (h : Host)
    (x : Change) : firingsOf who id (trace ++ [(h, x)]) = firingsOf who id trace ++
      firings who id (h, x) := by
  simp [firingsOf]

/-- The notes of a change are of its kind. -/
theorem says_of_mem {x : Change} {note : TimerNote} (hn : note ∈ timerNotes (h, x)) : Says h x note := by
  have hsingle {p : Prop} [Decidable p] {note' : TimerNote} (hm : note ∈ if p then [note'] else []) :
      p ∧ note = note' := by
    split at hm
    · next hp => exact ⟨hp, List.mem_singleton.mp hm⟩
    · cases hm
  cases x with
  | startTimer v ms =>
    obtain ⟨hc, rfl⟩ := hsingle hn
    exact .started hc
  | cancelTimer v i =>
    obtain ⟨hwas, rfl⟩ := hsingle hn
    exact .cancelled ((cancelTimer_fst h v i).mp hwas)
  | teardown v step =>
    cases step with
    | takeTimers =>
      obtain ⟨i, hi, rfl⟩ := List.mem_map.mp hn
      exact .taken hi
    | invalidateTimers =>
      obtain ⟨i, hi, rfl⟩ := List.mem_map.mp hn
      exact .marked hi
    | retire =>
      obtain ⟨hc, rfl⟩ := hsingle hn
      exact .retired hc
    | _ => cases hn
  | _ => cases hn

theorem firings_of_ne {x : Change} (hx : x ≠ .fire) (who : Handle) (id : TimerId) :
    firings who id (h, x) = [] := by
  cases x <;> first | rfl | exact absurd rfl hx

theorem firingsOf_snoc_of_ne {x : Change} (hx : x ≠ .fire) (who : Handle) (id : TimerId) :
    firingsOf who id (trace ++ [(h, x)]) = firingsOf who id trace := by
  rw [firingsOf_snoc, firings_of_ne hx, List.append_nil]

theorem accounts_new (setup : HostSetup) (tree : FileTree) (store : ConfigStore) :
    Accounts [] (Host.new setup tree store) := by
  have htimers (who : Handle) : (Host.new setup tree store).timersOf who = [] := rfl
  constructor
  case running => simp [htimers, timerNotesOf]
  case freed => exact fun id hid => absurd hid (Tombstones.not_mem_empty id)
  case taken => intro who id hid; cases hid
  case debounce => intro who id hid; cases hid
  case entryDrawn | entry | underway => intro e he; cases he
  case nodup => exact List.nodup_nil
  all_goals simp [timerNotesOf, firingsOf]

/-- The number of the next timer has left no traces. -/
theorem Accounts.fresh (ha : Accounts trace h) (hid : id.number = h.counters.timer) :
    (∀ who deadline, .started who id deadline ∉ timerNotesOf trace) ∧
      (∀ who, .cancelled who id ∉ timerNotesOf trace ∧ .taken who id ∉ timerNotesOf trace) ∧
      (∀ who, firingsOf who id trace = []) ∧ ∀ e ∈ h.scheduled, e.id ≠ id := by
  have hstarted (who : Handle) (deadline : Nat) : .started who id deadline ∉ timerNotesOf trace :=
    fun hm => Nat.ne_of_lt (ha.drawn who id deadline hm) hid
  have hbegun (who : Handle) :
      ¬(.cancelled who id ∈ timerNotesOf trace ∨ .taken who id ∈ timerNotesOf trace) := fun hm => by
    obtain ⟨deadline, hs⟩ := ha.begun who id hm
    exact hstarted who deadline hs
  refine ⟨hstarted, fun who => not_or.mp (hbegun who), fun who => ?_, fun e he heq => ?_⟩
  · by_contra hne
    exact Nat.ne_of_lt (ha.firedDrawn who id hne) hid
  · have hlt := ha.entryDrawn e he
    rw [heq] at hlt
    exact Nat.ne_of_lt hlt hid

/-- Do two traces say the same about what has become of timers? -/
structure SameNotes (trace trace' : List (Host × Change)) : Prop where
  started : ∀ who id deadline,
    .started who id deadline ∈ timerNotesOf trace' ↔ .started who id deadline ∈ timerNotesOf trace
  cancelled : ∀ who id, .cancelled who id ∈ timerNotesOf trace' ↔ .cancelled who id ∈ timerNotesOf trace
  taken : ∀ who id, .taken who id ∈ timerNotesOf trace' ↔ .taken who id ∈ timerNotesOf trace
  firings : ∀ who id, firingsOf who id trace' = firingsOf who id trace

theorem SameNotes.refl (trace : List (Host × Change)) : SameNotes trace trace :=
  ⟨fun _ _ _ => .rfl, fun _ _ => .rfl, fun _ _ => .rfl, fun _ _ => rfl⟩

theorem sameNotes_snoc {x : Change} (hx : x ≠ .fire)
    (hn : ∀ note ∈ timerNotes (h, x), note.isFate = false) :
    SameNotes trace (trace ++ [(h, x)]) := by
  have hmem (note : TimerNote) (hfate : note.isFate = true) :
      note ∈ timerNotesOf (trace ++ [(h, x)]) ↔ note ∈ timerNotesOf trace := by
    rw [timerNotesOf_snoc, List.mem_append, or_iff_left fun hm => ?_]
    exact Bool.false_ne_true ((hn note hm).symm.trans hfate)
  exact ⟨fun _ _ _ => hmem _ rfl, fun _ _ => hmem _ rfl, fun _ _ => hmem _ rfl, firingsOf_snoc_of_ne hx⟩

/-- Changes that are not noted and leave what computers wait for. What was taken may be marked. -/
theorem accounts_of_sameNotes (ha : Accounts trace h) (hn : SameNotes trace trace')
    (htimers : ∀ who, h'.timersOf who = h.timersOf who)
    (htaken : ∀ who, ∀ id ∈ h'.takenTimersOf who, id ∈ h.takenTimersOf who)
    (hfreed : ∀ id ∈ h'.registry.freedTimers,
      id ∈ h.registry.freedTimers ∨ ∃ who, id ∈ h.takenTimersOf who)
    (hnew : OnlyNew h h') (hnodup : (h'.scheduled.map (·.id)).Nodup)
    (hunderway : ∀ e ∈ h'.underway, e.fireAt ≤ h'.clock)
    (hdebounce : ∀ who id, h'.debounceOf? who = some id → h.debounceOf? who = some id ∨
      id.number = h.counters.timer ∧ h.counters.timer < h'.counters.timer) :
    Accounts trace' h' := by
  -- Numbers only grow, and what the service learns has a new one.
  have hlater (n : Nat) (hlt : n < h.counters.timer) : n < h'.counters.timer :=
    Nat.lt_of_lt_of_le hlt hnew.counted
  constructor
  case nodup => exact hnodup
  case underway => exact hunderway
  case entryDrawn =>
    intro e he
    rcases hnew.added e he with he | ⟨hid, hlt⟩
    · exact hlater _ (ha.entryDrawn e he)
    · exact hid ▸ hlt
  all_goals simp only [hn.started, hn.cancelled, hn.taken, hn.firings, htimers]
  case running => exact ha.running
  case drawn => exact fun who id deadline hs => hlater _ (ha.drawn who id deadline hs)
  case unique => exact ha.unique
  case begun => exact ha.begun
  case cancelled => exact ha.cancelled
  case entry =>
    intro e he who deadline hs
    rcases hnew.added e he with he | ⟨hid, -⟩
    · exact ha.entry e he who deadline hs
    · exact absurd hs ((ha.fresh hid).1 who deadline)
  case debounce =>
    intro who id hd
    rcases hdebounce who id hd with hd | ⟨hid, hlt⟩
    · exact ⟨hlater _ (ha.debounce who id hd).1, (ha.debounce who id hd).2⟩
    · exact ⟨hid ▸ hlt, (ha.fresh hid).1⟩
  case firedDrawn => exact fun who id hf => hlater _ (ha.firedDrawn who id hf)
  case fired => exact ha.fired
  case once => exact ha.once
  case spent =>
    intro who id hf e he
    rcases hnew.added e he with he | ⟨hid, -⟩
    · exact ha.spent who id hf e he
    · rintro rfl
      exact hf ((ha.fresh hid).2.2.1 who)
  case taken => exact fun who id hid => ha.taken who id (htaken who id hid)
  case freed =>
    intro id hid
    rcases hfreed id hid with hid | ⟨who, hid⟩
    · exact ha.freed id hid
    · exact ⟨who, ha.taken who id hid⟩

/-- What is underway has come to its moment, and that does not pass. -/
theorem Accounts.later {at₁ : Aspect → Prop} (ha : Accounts trace h) (hd : Differs at₁ h h')
    (hsame : h'.due = h.due ∧ h'.firing = h.firing) : ∀ e ∈ h'.underway, e.fireAt ≤ h'.clock := by
  intro e he
  unfold Host.underway at he
  rw [hsame.1, hsame.2] at he
  exact Nat.le_trans (ha.underway e he) hd.clock

/-- Changes that leave timers alone. -/
theorem accounts_of_differs (ha : Accounts trace h) (hd : Differs (fun x => ¬x.OfTimers) h h')
    (hn : SameNotes trace trace') : Accounts trace' h' := by
  have hnot {x : Aspect} (hx : x.OfTimers) : ¬¬x.OfTimers := fun hn => hn hx
  have hscheduled : h'.scheduled = h.scheduled := scheduled_of_differs hd (hnot trivial)
  have htaken (who : Handle) : h'.takenTimersOf who = h.takenTimersOf who :=
    hd.agrees (.taken who) (hnot trivial)
  have hfreed : h'.registry.freedTimers = h.registry.freedTimers := hd.agrees .freedTimers (hnot trivial)
  refine accounts_of_sameNotes ha hn (fun who => hd.agrees (.timers who) (hnot trivial))
    (fun who id hid => htaken who ▸ hid) (fun id hid => .inl (hfreed ▸ hid))
    (onlyNew_of_differs hd (hnot trivial) (hnot trivial)) (hscheduled ▸ ha.nodup)
    (ha.later hd (hd.agrees .service (hnot trivial)).2) fun who id hid => .inl ?_
  have hdebounce : h'.debounceOf? who = h.debounceOf? who :=
    hd.agrees (.debounce who) (hnot trivial)
  rwa [hdebounce] at hid

theorem perm_nodup_of_new {entry : TimerEntry} (ha : Accounts trace h)
    (hid : entry.id.number = h.counters.timer)
    (hs : h'.scheduled = h.scheduled ∨ h'.scheduled.Perm (entry :: h.scheduled)) :
    (h'.scheduled.map (·.id)).Nodup := by
  rcases hs with hs | hs
  · exact hs ▸ ha.nodup
  · refine (hs.map (·.id)).nodup_iff.mpr (List.nodup_cons.mpr ⟨fun hm => ?_, ha.nodup⟩)
    obtain ⟨e, he, heq⟩ := List.mem_map.mp hm
    exact (ha.fresh hid).2.2.2 e he heq

theorem accounts_debounce (ha : Accounts trace h) (w : Handle) (ms : Nat) (e : Event) :
    Accounts (trace ++ [(h, .debounce w ms e)]) (h.debounce w ms e).2 := by
  have hd : Differs (Change.debounce w ms e).Touches h (h.debounce w ms e).2 :=
    differs_on (.debounce w ms e) h
  have hcount := counters_debounce h w ms e
  have hfreed : (h.debounce w ms e).2.registry.freedTimers = h.registry.freedTimers :=
    hd.agrees .freedTimers (by simp [Change.Touches])
  have htaken (who : Handle) : (h.debounce w ms e).2.takenTimersOf who = h.takenTimersOf who :=
    hd.agrees (.taken who) (by simp [Change.Touches])
  refine accounts_of_sameNotes ha (sameNotes_snoc Change.noConfusion fun _ hn => by cases hn)
    (fun who => hd.agrees (.timers who) (by simp [Change.Touches]))
    (fun who id hid => htaken who ▸ hid) (fun id hid => .inl (hfreed ▸ hid))
    (scheduled_on (.debounce w ms e) h) (perm_nodup_of_new ha rfl (scheduled_debounce ..))
    (ha.later hd (underway_debounce ..)) fun who id hid => ?_
  rw [debounceOf?_debounce] at hid
  split at hid
  · cases hid
    exact .inr ⟨rfl, hcount ▸ Nat.lt_succ_self _⟩
  · exact .inl hid

theorem accounts_cancelDebounce (ha : Accounts trace h) (w : Handle) :
    Accounts (trace ++ [(h, .teardown w .cancelDebounce)]) (h.teardownStep w .cancelDebounce) := by
  have hd : Differs (Change.teardown w .cancelDebounce).Touches h (h.teardownStep w .cancelDebounce) :=
    differs_on (.teardown w .cancelDebounce) h
  have hfreed : (h.teardownStep w .cancelDebounce).registry.freedTimers = h.registry.freedTimers :=
    hd.agrees .freedTimers not_false
  have htaken (who : Handle) :
      (h.teardownStep w .cancelDebounce).takenTimersOf who = h.takenTimersOf who :=
    hd.agrees (.taken who) not_false
  refine accounts_of_sameNotes ha (sameNotes_snoc Change.noConfusion fun _ hn => by cases hn)
    (fun who => hd.agrees (.timers who) not_false) (fun who id hid => htaken who ▸ hid)
    (fun id hid => .inl (hfreed ▸ hid)) (scheduled_on (.teardown w .cancelDebounce) h)
    (scheduled_cancelDebounce h w ▸ ha.nodup) (ha.later hd (underway_cancelDebounce ..)) fun who id hid => ?_
  rw [debounceOf?_cancelDebounce] at hid
  split at hid
  · cases hid
  · exact .inl hid

/-- What the service has handed over, all of it or a part, is still each timer once. -/
theorem Accounts.nodup_of_subperm (ha : Accounts trace h) (hs : h'.scheduled.Subperm h.scheduled) :
    (h'.scheduled.map (·.id)).Nodup := by
  obtain ⟨rest, hperm, hsub⟩ := hs
  exact (hperm.map _).nodup_iff.mp (ha.nodup.sublist (hsub.map _))

theorem accounts_sweep (ha : Accounts trace h) : Accounts (trace ++ [(h, .sweep)]) h.sweep := by
  refine accounts_of_sameNotes ha (sameNotes_snoc Change.noConfusion fun _ hn => by cases hn)
    (fun _ => rfl) (fun _ _ hid => hid) (fun _ hid => .inl hid) (scheduled_on .sweep h)
    (ha.nodup_of_subperm (subperm_sweep h)) (fun e he => ?_) fun _ _ hid => .inl hid
  exact (fireAt_of_sweep he).elim (ha.underway e) id

theorem accounts_resolve (ha : Accounts trace h) :
    Accounts (trace ++ [(h, .resolve)]) (Change.resolve.on h) := by
  have hd : Differs Change.resolve.Touches h (Change.resolve.on h) := differs_on .resolve h
  have htaken (who : Handle) : (Change.resolve.on h).takenTimersOf who = h.takenTimersOf who :=
    hd.agrees (.taken who) not_false
  have hdebounce (who : Handle) : (Change.resolve.on h).debounceOf? who = h.debounceOf? who :=
    hd.agrees (.debounce who) not_false
  refine accounts_of_sameNotes ha (sameNotes_snoc Change.noConfusion fun _ hn => by cases hn)
    (fun who => hd.agrees (.timers who) not_false) (fun who id hid => htaken who ▸ hid)
    (fun id hid => .inl (mem_freedTimers_resolve hid)) (scheduled_on .resolve h)
    (ha.nodup_of_subperm (subperm_resolve h))
    (fun e he => Nat.le_trans (ha.underway e (mem_underway_resolve he)) hd.clock)
    fun who id hid => .inl (hdebounce who ▸ hid)

/-- Timers that were taken are marked. -/
theorem accounts_invalidateTimers (ha : Accounts trace h) (w : Handle) :
    Accounts (trace ++ [(h, .teardown w .invalidateTimers)]) (h.teardownStep w .invalidateTimers) := by
  have hd : Differs (Change.teardown w .invalidateTimers).Touches h
      (h.teardownStep w .invalidateTimers) := differs_on (.teardown w .invalidateTimers) h
  have hdebounce (who : Handle) :
      (h.teardownStep w .invalidateTimers).debounceOf? who = h.debounceOf? who :=
    hd.agrees (.debounce who) not_false
  refine accounts_of_sameNotes ha (sameNotes_snoc Change.noConfusion fun note hn => ?_)
    (fun who => hd.agrees (.timers who) not_false) (fun who id hid => ?_) (fun id hid => ?_)
    (onlyNew_of_differs hd not_false not_false) (scheduled_of_differs hd not_false ▸ ha.nodup)
    (ha.later hd (hd.agrees .service not_false).2) fun who id hid => .inl (hdebounce who ▸ hid)
  · cases says_of_mem hn
    rfl
  · rw [takenTimersOf_invalidateTimers] at hid
    split at hid
    · cases hid
    · exact hid
  · exact (freedTimers_invalidateTimers.mp hid).symm.imp_right fun hid => ⟨w, hid⟩

theorem mem_timerNotesOf_startTimer (trace : List (Host × Change))
    (hc : (h.computer? w).isSome = true) (ms : Nat) (note : TimerNote) :
    note ∈ timerNotesOf (trace ++ [(h, .startTimer w ms)]) ↔
      note ∈ timerNotesOf trace ∨ note = .started w ⟨h.counters.timer⟩ (h.clock + ms) := by
  have hnote : timerNotes (h, .startTimer w ms) = [.started w ⟨h.counters.timer⟩ (h.clock + ms)] :=
    if_pos hc
  rw [timerNotesOf_snoc, hnote, List.mem_append, List.mem_singleton]

/-- The new timer is waited for by the computer that it was started on, and no other timer is new. -/
theorem Accounts.running_startTimer (ha : Accounts trace h) (hc : (h.computer? w).isSome = true)
    (ms : Nat) (who : Handle) (id : TimerId) : id ∈ (h.startTimer w ms).2.timersOf who ↔
      (∃ deadline, .started who id deadline ∈ timerNotesOf (trace ++ [(h, .startTimer w ms)])) ∧
        firingsOf who id trace = [] ∧
        .cancelled who id ∉ timerNotesOf (trace ++ [(h, .startTimer w ms)]) ∧
        .taken who id ∉ timerNotesOf (trace ++ [(h, .startTimer w ms)]) := by
  simp only [mem_timerNotesOf_startTimer trace hc]
  -- Nothing has been noted about the new number, so only the start counts.
  by_cases hid : id = ⟨h.counters.timer⟩
  · obtain ⟨hstarted, hbegun, hfired, -⟩ := ha.fresh (congrArg TimerId.number hid)
    subst hid
    by_cases hw : who = w
    · subst hw
      rw [timersOf_startTimer, if_pos ⟨rfl, hc⟩]
      refine iff_of_true (List.mem_append_right _ (List.mem_singleton_self _))
        ⟨⟨_, .inr rfl⟩, hfired who, ?_, ?_⟩
      · simp [(hbegun who).1]
      · simp [(hbegun who).2]
    · rw [timersOf_startTimer, if_neg fun hn => hw hn.1]
      refine iff_of_false (fun hm => ?_) fun hr => ?_
      · obtain ⟨⟨deadline, hs⟩, -⟩ := (ha.running who _).mp hm
        exact hstarted who deadline hs
      · obtain ⟨⟨deadline, hs | heq⟩, -⟩ := hr
        · exact hstarted who deadline hs
        · exact hw (TimerNote.started.inj heq).1
  · have hold : id ∈ (h.startTimer w ms).2.timersOf who ↔ id ∈ h.timersOf who := by
      rw [timersOf_startTimer]
      split <;> simp [hid]
    rw [hold, ha.running who id]
    simp [hid]

/-- The service knows a new timer by what it was started with. -/
theorem Accounts.entry_startTimer (ha : Accounts trace h) {ms deadline : Nat} {e : TimerEntry}
    (he : e ∈ (h.startTimer w ms).2.scheduled)
    (hs : .started who e.id deadline ∈ timerNotesOf trace ∨
      TimerNote.started who e.id deadline = .started w ⟨h.counters.timer⟩ (h.clock + ms)) :
    e.owner = who ∧ e.event = timerEvent e.id ∧ deadline ≤ e.fireAt := by
  obtain ⟨hstarted, -, -, hgone⟩ :=
    ha.fresh (show (⟨h.counters.timer⟩ : TimerId).number = h.counters.timer from rfl)
  have hold (he : e ∈ h.scheduled) :
      e.owner = who ∧ e.event = timerEvent e.id ∧ deadline ≤ e.fireAt :=
    ha.entry e he who deadline (hs.resolve_right fun heq => hgone e he (TimerNote.started.inj heq).2.1)
  rcases scheduled_startTimer h w ms with hsched | hsched
  · exact hold (hsched ▸ he)
  · rcases List.mem_cons.mp (hsched.subset he) with rfl | he
    · rcases hs with hs | heq
      · exact absurd hs (hstarted who deadline)
      · obtain ⟨rfl, -, rfl⟩ := TimerNote.started.inj heq
        exact ⟨rfl, rfl, Nat.le_refl _⟩
    · exact hold he

/-- A started timer has a new number. -/
theorem accounts_startTimer (ha : Accounts trace h) (w : Handle) (ms : Nat) :
    Accounts (trace ++ [(h, .startTimer w ms)]) (h.startTimer w ms).2 := by
  have hd : Differs (Change.startTimer w ms).Touches h (h.startTimer w ms).2 :=
    differs_on (.startTimer w ms) h
  have hnew := scheduled_on (.startTimer w ms) h
  have hnodup := perm_nodup_of_new ha rfl (scheduled_startTimer h w ms)
  have hunderway := ha.later hd (underway_startTimer ..)
  have hdebounce (who : Handle) : (h.startTimer w ms).2.debounceOf? who = h.debounceOf? who :=
    hd.agrees (.debounce who) (by simp [Change.Touches])
  have hfreed : (h.startTimer w ms).2.registry.freedTimers = h.registry.freedTimers :=
    hd.agrees .freedTimers (by simp [Change.Touches])
  have htaken (who : Handle) : (h.startTimer w ms).2.takenTimersOf who = h.takenTimersOf who :=
    hd.agrees (.taken who) (by simp [Change.Touches])
  cases hc : (h.computer? w).isSome with
  | false =>
    refine accounts_of_sameNotes ha (sameNotes_snoc Change.noConfusion fun note hn => ?_)
      (fun who => ?_) (fun who id hid => htaken who ▸ hid) (fun id hid => .inl (hfreed ▸ hid)) hnew hnodup
      hunderway fun who id hid => .inl (hdebounce who ▸ hid)
    · simp [timerNotes, hc] at hn
    · rw [timersOf_startTimer, if_neg fun hn => Bool.false_ne_true (hc.symm.trans hn.2)]
  | true =>
    have hmem := mem_timerNotesOf_startTimer trace hc ms
    have hfirings (who : Handle) (id : TimerId) :
        firingsOf who id (trace ++ [(h, .startTimer w ms)]) = firingsOf who id trace :=
      firingsOf_snoc_of_ne Change.noConfusion who id
    obtain ⟨hstarted, -, hfired, -⟩ :=
      ha.fresh (show (⟨h.counters.timer⟩ : TimerId).number = h.counters.timer from rfl)
    have hlater (n : Nat) (hlt : n < h.counters.timer) :
        n < (h.startTimer w ms).2.counters.timer := Nat.lt_of_lt_of_le hlt hnew.counted
    constructor
    case nodup => exact hnodup
    case underway => exact hunderway
    case entryDrawn =>
      intro e he
      rcases hnew.added e he with he | ⟨hid, hlt⟩
      · exact hlater _ (ha.entryDrawn e he)
      · exact hid ▸ hlt
    case running => exact fun who id => hfirings who id ▸ ha.running_startTimer hc ms who id
    all_goals simp only [hmem, hfirings, hfreed, htaken, hdebounce]
    case drawn =>
      rintro who id deadline (hs | heq)
      · exact hlater _ (ha.drawn who id deadline hs)
      · obtain ⟨-, rfl, -⟩ := TimerNote.started.inj heq
        exact counters_startTimer h w ms ▸ Nat.lt_succ_self _
    case unique =>
      rintro who who' id deadline deadline' (hs | heq) (hs' | heq')
      · exact ha.unique who who' id deadline deadline' hs hs'
      · obtain ⟨-, rfl, -⟩ := TimerNote.started.inj heq'
        exact absurd hs (hstarted who deadline)
      · obtain ⟨-, rfl, -⟩ := TimerNote.started.inj heq
        exact absurd hs' (hstarted who' deadline')
      · obtain ⟨rfl, -, rfl⟩ := TimerNote.started.inj heq
        obtain ⟨rfl, -, rfl⟩ := TimerNote.started.inj heq'
        exact ⟨rfl, rfl⟩
    case begun =>
      intro who id hb
      obtain ⟨deadline, hs⟩ := ha.begun who id (by simpa using hb)
      exact ⟨deadline, .inl hs⟩
    case cancelled => simpa using ha.cancelled
    case entry => exact fun e he who deadline hs => ha.entry_startTimer he hs
    case debounce =>
      intro who id hd
      obtain ⟨hlt, hno⟩ := ha.debounce who id hd
      refine ⟨hlater _ hlt, fun who' deadline => not_or.mpr ⟨hno who' deadline, fun heq => ?_⟩⟩
      obtain ⟨-, rfl, -⟩ := TimerNote.started.inj heq
      exact Nat.lt_irrefl _ hlt
    case firedDrawn => exact fun who id hf => hlater _ (ha.firedDrawn who id hf)
    case fired =>
      rintro who id deadline (hs | heq)
      · exact ha.fired who id deadline hs
      · intro v t e hm
        obtain ⟨-, rfl, -⟩ := TimerNote.started.inj heq
        rw [hfired v] at hm
        cases hm
    case once => exact ha.once
    case spent =>
      intro who id hf e he
      rcases hnew.added e he with he | ⟨hid, -⟩
      · exact ha.spent who id hf e he
      · rintro rfl
        exact hf ((ha.fresh hid).2.2.1 who)
    case taken => simpa using ha.taken
    case freed => simpa using ha.freed

/-- Some of the timers that `w` waits for are given up, by a cancel or by the teardown of `w`. -/
theorem accounts_of_given_up {p : TimerId → Prop} {mark : TimerId → TimerNote}
    (ha : Accounts trace h) (hmark : mark = .cancelled w ∨ mark = .taken w)
    (hgiven : ∀ id, p id → id ∈ h.timersOf w)
    (hmem : ∀ note, note ∈ timerNotesOf trace' ↔
      note ∈ timerNotesOf trace ∨ ∃ id, p id ∧ note = mark id)
    (hfirings : ∀ who id, firingsOf who id trace' = firingsOf who id trace)
    (htimers : ∀ who id, id ∈ h'.timersOf who ↔ id ∈ h.timersOf who ∧ ¬(who = w ∧ p id))
    (htaken : ∀ who, ∀ id ∈ h'.takenTimersOf who,
      id ∈ h.takenTimersOf who ∨ (who = w ∧ p id) ∧ mark = .taken w)
    (hfreed : h'.registry.freedTimers = h.registry.freedTimers)
    (hdebounce : ∀ who, h'.debounceOf? who = h.debounceOf? who)
    (hnumber : h'.counters.timer = h.counters.timer) (hscheduled : h'.scheduled = h.scheduled)
    (hunderway : ∀ e ∈ h'.underway, e.fireAt ≤ h'.clock) : Accounts trace' h' := by
  have hstarted (who : Handle) (id : TimerId) (deadline : Nat) :
      .started who id deadline ∈ timerNotesOf trace' ↔ .started who id deadline ∈ timerNotesOf trace := by
    rw [hmem]
    rcases hmark with rfl | rfl <;> simp
  -- A cancel and a taking do the same to what is waited for.
  have hnot (who : Handle) (id : TimerId) :
      (.cancelled who id ∉ timerNotesOf trace' ∧ .taken who id ∉ timerNotesOf trace') ↔
        (.cancelled who id ∉ timerNotesOf trace ∧ .taken who id ∉ timerNotesOf trace) ∧
          ¬(who = w ∧ p id) := by
    rw [hmem, hmem]
    rcases hmark with rfl | rfl <;> simp <;> tauto
  have hrunning (id : TimerId) (hg : p id) := (ha.running w id).mp (hgiven id hg)
  constructor
  case underway => exact hunderway
  case taken =>
    intro who id hid
    rcases htaken who id hid with hid | ⟨⟨rfl, hg⟩, rfl⟩
    · exact (hmem _).mpr (.inl (ha.taken who id hid))
    · exact (hmem _).mpr (.inr ⟨id, hg, rfl⟩)
  case freed =>
    intro id hid
    obtain ⟨who, ht⟩ := ha.freed id (hfreed ▸ hid)
    exact ⟨who, (hmem _).mpr (.inl ht)⟩
  all_goals simp only [hstarted, hfirings, hdebounce, hnumber, hscheduled]
  case running =>
    intro who id
    rw [htimers, ha.running, hnot, and_assoc, and_assoc]
  case drawn => exact ha.drawn
  case unique => exact ha.unique
  case begun =>
    intro who id hb
    have hcase : (.cancelled who id ∈ timerNotesOf trace ∨ .taken who id ∈ timerNotesOf trace) ∨
        (who = w ∧ p id) := by
      have hiff := hnot who id
      tauto
    rcases hcase with hb | ⟨rfl, hg⟩
    · exact ha.begun who id hb
    · exact (hrunning id hg).1
  case cancelled =>
    intro who id hc
    rcases (hmem _).mp hc with hc | ⟨i, hg, heq⟩
    · exact ha.cancelled who id hc
    · rcases hmark with rfl | rfl
      · obtain ⟨rfl, rfl⟩ := TimerNote.cancelled.inj heq
        exact (hrunning _ hg).2.1
      · cases heq
  case entryDrawn => exact ha.entryDrawn
  case nodup => exact ha.nodup
  case entry => exact ha.entry
  case debounce => exact ha.debounce
  case firedDrawn => exact ha.firedDrawn
  case fired => exact ha.fired
  case once => exact ha.once
  case spent => exact ha.spent

theorem accounts_cancelTimer (ha : Accounts trace h) (w : Handle) (id : TimerId) :
    Accounts (trace ++ [(h, .cancelTimer w id)]) (h.cancelTimer w id).2 := by
  have hd : Differs (Change.cancelTimer w id).Touches h (h.cancelTimer w id).2 :=
    differs_on (.cancelTimer w id) h
  have hfreed : (h.cancelTimer w id).2.registry.freedTimers = h.registry.freedTimers :=
    hd.agrees .freedTimers (by simp [Change.Touches])
  have htaken (who : Handle) : (h.cancelTimer w id).2.takenTimersOf who = h.takenTimersOf who :=
    hd.agrees (.taken who) (by simp [Change.Touches])
  have hgiven (i : TimerId) (hg : i = id ∧ id ∈ h.timersOf w) : i ∈ h.timersOf w := hg.1 ▸ hg.2
  refine accounts_of_given_up ha (.inl rfl) hgiven (fun note => ?_) (fun who i => ?_) (fun who i => ?_)
    (fun who i hi => .inl (htaken who ▸ hi)) hfreed
    (fun who => hd.agrees (.debounce who) (by simp [Change.Touches]))
    (hd.agrees .numbering (by simp [Change.Touches])) (scheduled_cancelTimer ..)
    (ha.later hd (underway_cancelTimer ..))
  · rw [timerNotesOf_snoc, List.mem_append]
    refine or_congr_right ?_
    by_cases hm : id ∈ h.timersOf w
    · simp [timerNotes, (cancelTimer_fst h w id).mpr hm, hm]
    · simp [timerNotes, Bool.eq_false_iff.mpr fun heq => hm ((cancelTimer_fst h w id).mp heq), hm]
  · exact firingsOf_snoc_of_ne Change.noConfusion who i
  · rw [timersOf_cancelTimer]
    by_cases hw : who = w
    · subst hw
      by_cases hi : i = id <;> simp [hi]
    · simp [hw]

theorem accounts_takeTimers (ha : Accounts trace h) (w : Handle) :
    Accounts (trace ++ [(h, .teardown w .takeTimers)]) (h.teardownStep w .takeTimers) := by
  have hd : Differs (Change.teardown w .takeTimers).Touches h (h.teardownStep w .takeTimers) :=
    differs_on (.teardown w .takeTimers) h
  have hgiven (i : TimerId) (hg : i ∈ h.timersOf w) : i ∈ h.timersOf w := hg
  refine accounts_of_given_up ha (.inr rfl) hgiven (fun note => ?_) (fun who i => ?_) (fun who i => ?_)
    (fun who i hi => ?_) (hd.agrees .freedTimers not_false)
    (fun who => hd.agrees (.debounce who) not_false) (hd.agrees .numbering not_false)
    (scheduled_of_differs hd not_false) (ha.later hd (hd.agrees .service not_false).2)
  · rw [timerNotesOf_snoc, List.mem_append]
    simp [timerNotes, eq_comm]
  · exact firingsOf_snoc_of_ne Change.noConfusion who i
  · rw [timersOf_takeTimers]
    by_cases hw : who = w
    · subst hw
      simp
    · simp [hw]
  · rw [takenTimersOf_takeTimers] at hi
    split at hi
    · next hw => exact (List.mem_append.mp hi).imp_right fun hi => ⟨⟨hw, hw ▸ hi⟩, rfl⟩
    · exact .inl hi

section
variable {entry : TimerEntry} (hfiring : h.firing = some entry)
include hfiring

/-- What is queued when a timer fires. -/
theorem firings_fire (who : Handle) (id : TimerId) : firings who id (h, .fire) =
    if entry.id = id ∧ who = entry.owner ∧ h.WaitsFor who entry.id then [(h.clock, entry.event)]
    else [] := by
  show (if h.firing.map (·.id) = some id then
    (h.arrivals who (Change.fire.on h)).map (h.clock, ·) else []) = _
  rw [hfiring, arrivals_fire hfiring]
  simp only [Option.map_some, Option.some.injEq]
  by_cases hid : entry.id = id
  · rw [if_pos hid]
    split
    · next hc => rw [if_pos ⟨hid, hc⟩]; rfl
    · next hc => rw [if_neg fun hn => hc hn.2]; rfl
  · rw [if_neg hid, if_neg fun hn => hid hn.1]

theorem mem_underway_of_firing : entry ∈ h.underway :=
  List.mem_append_right _ (hfiring ▸ List.mem_singleton_self entry)

theorem mem_scheduled_of_firing : entry ∈ h.scheduled :=
  List.mem_append_right _ (mem_underway_of_firing hfiring)

variable (ha : Accounts trace h)
include ha

/-- At most the timer that is being delivered fires, and it has not fired before. -/
theorem Accounts.of_fires (hf : firings who id (h, .fire) ≠ []) :
    entry.id = id ∧ who = entry.owner ∧ h.WaitsFor who id ∧ firingsOf who id trace = [] ∧
      firings who id (h, .fire) = [(h.clock, entry.event)] := by
  rw [firings_fire hfiring] at hf ⊢
  split at hf
  · next hc =>
    obtain ⟨rfl, hw, hwait⟩ := hc
    refine ⟨rfl, hw, hwait, by_contra fun hne => ?_, if_pos ⟨rfl, hw, hwait⟩⟩
    exact ha.spent who _ hne entry (mem_scheduled_of_firing hfiring) rfl
  · exact absurd rfl hf

theorem Accounts.fired_before (hf : firingsOf who id trace ++ firings who id (h, .fire) ≠ []) :
    firingsOf who id trace ≠ [] ∨ id = entry.id := by
  by_cases hold : firingsOf who id trace = []
  · rw [hold, List.nil_append] at hf
    exact .inr (ha.of_fires hfiring hf).1.symm
  · exact .inl hold

/-- A computer waits for a timer that runs, or for its debounced event, and neither was cancelled. -/
theorem Accounts.not_fires_of_cancelled (hc : .cancelled who id ∈ timerNotesOf trace) :
    firings who id (h, .fire) = [] := by
  by_contra hf
  obtain ⟨rfl, -, hwait, -⟩ := ha.of_fires hfiring hf
  rcases hwait with hm | hdeb
  · exact ((ha.running who _).mp hm).2.2.1 hc
  · obtain ⟨deadline, hs⟩ := ha.begun who _ (.inl hc)
    exact (ha.debounce who _ hdeb).2 who deadline hs

/-- A timer that fires is not waited for any more, and any other still is. -/
theorem Accounts.running_fire (who : Handle) (id : TimerId) :
    id ∈ (Change.fire.on h).timersOf who ↔
      (∃ deadline, .started who id deadline ∈ timerNotesOf trace) ∧
        (firingsOf who id trace = [] ∧ firings who id (h, .fire) = []) ∧
        .cancelled who id ∉ timerNotesOf trace ∧ .taken who id ∉ timerNotesOf trace := by
  have hfires := firings_fire hfiring who id
  rw [timersOf_fire hfiring]
  by_cases hown : id = entry.id ∧ who = entry.owner
  · obtain ⟨rfl, hw⟩ := hown
    rw [if_pos hw]
    refine iff_of_false (fun hm => by simp at hm) fun hr => ?_
    obtain ⟨hs, ⟨hold, hnew⟩, hno⟩ := hr
    rw [hfires, if_pos ⟨rfl, hw, .inl ((ha.running who _).mpr ⟨hs, hold, hno⟩)⟩] at hnew
    cases hnew
  · have hnone : firings who id (h, .fire) = [] := by
      rw [hfires, if_neg fun hn => hown ⟨hn.1.symm, hn.2.1⟩]
    have hkept : (id ∈ if who = entry.owner then
        (h.timersOf who).filter (· != entry.id) else h.timersOf who) ↔ id ∈ h.timersOf who := by
      split
      · next hw =>
        have hid : id ≠ entry.id := fun heq => hown ⟨heq, hw⟩
        simp [hid]
      · rfl
    rw [hkept, ha.running, hnone]
    simp

end

theorem accounts_fire (ha : Accounts trace h) :
    Accounts (trace ++ [(h, .fire)]) (Change.fire.on h) := by
  have hd : Differs Change.fire.Touches h (Change.fire.on h) := differs_on .fire h
  have hnotes : timerNotesOf (trace ++ [(h, .fire)]) = timerNotesOf trace := by
    rw [timerNotesOf_snoc]
    exact List.append_nil _
  cases hfiring : h.firing with
  | none =>
    have hsame : SameNotes trace (trace ++ [(h, .fire)]) := by
      refine ⟨fun _ _ _ => hnotes ▸ .rfl, fun _ _ => hnotes ▸ .rfl, fun _ _ => hnotes ▸ .rfl,
        fun who id => ?_⟩
      rw [firingsOf_snoc]
      simp [firings, hfiring]
    rw [fire_of_none hfiring]
    exact accounts_of_differs ha (.refl _ h) hsame
  | some entry =>
    have hentry := mem_scheduled_of_firing hfiring
    have hperm := perm_fire hfiring
    have hsub {e : TimerEntry} (he : e ∈ (Change.fire.on h).scheduled) : e ∈ h.scheduled :=
      hperm.symm.subset (List.mem_cons_of_mem _ he)
    obtain ⟨hgone, hnodup⟩ := List.nodup_cons.mp ((hperm.map (·.id)).nodup_iff.mp ha.nodup)
    have hnumber : (Change.fire.on h).counters.timer = h.counters.timer :=
      hd.agrees .numbering not_false
    have htaken (who : Handle) : (Change.fire.on h).takenTimersOf who = h.takenTimersOf who :=
      hd.agrees (.taken who) not_false
    have hfreed : (Change.fire.on h).registry.freedTimers = h.registry.freedTimers :=
      hd.agrees .freedTimers not_false
    constructor
    case underway =>
      intro e he
      rw [fire_of_some hfiring] at he
      have hdue : e ∈ h.due ++ [] := he
      rw [List.append_nil] at hdue
      exact Nat.le_trans (ha.underway e (List.mem_append_left _ hdue)) hd.clock
    case entryDrawn => exact fun e he => hnumber ▸ ha.entryDrawn e (hsub he)
    case nodup => exact hnodup
    all_goals simp only [hnotes, hnumber, htaken, hfreed, firingsOf_snoc]
    case running =>
      intro who id
      rw [List.append_eq_nil_iff]
      exact ha.running_fire hfiring who id
    case drawn => exact ha.drawn
    case unique => exact ha.unique
    case begun => exact ha.begun
    case cancelled =>
      intro who id hc
      rw [ha.cancelled who id hc, List.nil_append]
      exact ha.not_fires_of_cancelled hfiring hc
    case entry => exact fun e he => ha.entry e (hsub he)
    case debounce => exact fun who id hdeb => ha.debounce who id (debounceOf?_fire hdeb)
    case firedDrawn =>
      intro who id hf
      obtain hold | rfl := ha.fired_before hfiring hf
      · exact ha.firedDrawn who id hold
      · exact ha.entryDrawn entry hentry
    case fired =>
      intro who id deadline hs v t e hm
      rcases List.mem_append.mp hm with hm | hm
      · exact ha.fired who id deadline hs v t e hm
      · obtain ⟨rfl, hw, -, -, heq⟩ := ha.of_fires hfiring (List.ne_nil_of_mem hm)
        rw [heq, List.mem_singleton] at hm
        cases hm
        obtain ⟨howner, hevent, hat⟩ := ha.entry entry hentry who deadline hs
        have hcame := ha.underway entry (mem_underway_of_firing hfiring)
        exact ⟨hw.trans howner, hevent, Nat.le_trans hat hcame⟩
    case once =>
      intro who id
      by_cases hf : firings who id (h, .fire) = []
      · rw [hf, List.append_nil]
        exact ha.once who id
      · obtain ⟨-, -, -, hold, heq⟩ := ha.of_fires hfiring hf
        rw [hold, heq]
        exact Nat.le_refl 1
    case spent =>
      intro who id hf e he
      obtain hold | rfl := ha.fired_before hfiring hf
      · exact ha.spent who id hold e (hsub he)
      · exact fun heq => hgone (List.mem_map.mpr ⟨e, he, heq⟩)
    case taken => exact ha.taken
    case freed => exact ha.freed

/-! ## 2. Evolutions -/

theorem accounts_on (ha : Accounts trace h) (x : Change) : Accounts (trace ++ [(h, x)]) (x.on h) := by
  have hd := differs_on x h
  have hother (hx : x ≠ .fire) (hn : ∀ note ∈ timerNotes (h, x), note.isFate = false)
      (ht : ∀ y, x.Touches y → ¬y.OfTimers) : Accounts (trace ++ [(h, x)]) (x.on h) :=
    accounts_of_differs ha (hd.mono ht) (sameNotes_snoc hx hn)
  cases x with
  | startTimer w ms => exact accounts_startTimer ha w ms
  | cancelTimer w id => exact accounts_cancelTimer ha w id
  | debounce w ms e => exact accounts_debounce ha w ms e
  | sweep => exact accounts_sweep ha
  | resolve => exact accounts_resolve ha
  | fire => exact accounts_fire ha
  | teardown w step =>
    cases step with
    | takeTimers => exact accounts_takeTimers ha w
    | invalidateTimers => exact accounts_invalidateTimers ha w
    | cancelDebounce => exact accounts_cancelDebounce ha w
    | retire =>
      refine hother Change.noConfusion (fun note hn => ?_) fun y hy => ?_
      · cases says_of_mem hn
        rfl
      · cases y <;> first | exact id | exact hy.elim
    | _ =>
      refine hother Change.noConfusion (fun _ hn => by cases hn) fun y hy => ?_
      cases y <;> first | exact id | exact hy.elim
  | spawn | attach | detach =>
    refine hother Change.noConfusion (fun _ hn => by cases hn) fun y hy => ?_
    cases y <;> first | exact id | exact hy.elim
  | turnOn link =>
    refine hother Change.noConfusion (fun _ hn => by cases hn) fun y hy => ?_
    rcases hy with hy | rfl | rfl
    · cases y <;> first | exact id | exact hy.elim
    · exact id
    · exact id
  | disconnect | disconnectAll =>
    refine hother Change.noConfusion (fun _ hn => by cases hn) fun y hy => ?_
    rcases hy with rfl | rfl <;> exact id
  | queue | setQueue | shutdown | reboot | beginBoot | finish | setLabel | supply | connect
  | addFinalizer =>
    refine hother Change.noConfusion (fun _ hn => by cases hn) fun y hy => ?_
    cases hy
    exact id

theorem accounts_of_evolves {h₀ : Host} (he : Evolves h₀ trace h) (ha : Accounts [] h₀) :
    Accounts trace h := by
  induction he with
  | refl => exact ha
  | change _ ih => exact accounts_on ih _
  | quiet _ hq ih => exact accounts_of_differs ih (hq.mono fun _ hf => hf.elim) (.refl _)

/-- What the service no longer knows does not fire. -/
theorem firingsOf_of_not_scheduled {h₀ : Host} (he : Evolves h₀ trace h)
    (hid : id.number < h₀.counters.timer) (hno : ∀ e ∈ h₀.scheduled, e.id ≠ id) (who : Handle) :
    firingsOf who id trace = [] := by
  suffices hall : firingsOf who id trace = [] ∧ id.number < h.counters.timer ∧
      ∀ e ∈ h.scheduled, e.id ≠ id from hall.1
  induction he with
  | refl => exact ⟨rfl, hid, hno⟩
  | @change trace h x _ ih =>
    obtain ⟨hnone, hlt, hgone⟩ := ih
    refine ⟨?_, (scheduled_on x h).not_scheduled hlt hgone⟩
    rw [firingsOf_snoc, hnone, List.nil_append]
    by_cases hx : x = .fire
    · subst hx
      cases hfiring : h.firing with
      | none => simp [firings, hfiring]
      | some entry =>
        refine (firings_fire hfiring who id).trans (if_neg fun hc => ?_)
        exact hgone entry (mem_scheduled_of_firing hfiring) hc.1
    · exact firings_of_ne hx who id
  | quiet _ hq ih =>
    obtain ⟨hnone, hlt, hgone⟩ := ih
    exact ⟨hnone, (onlyNew_of_differs hq not_false not_false).not_scheduled hlt hgone⟩

/-- A timer that is started has a number that was not drawn before. -/
theorem number_of_started {h₀ : Host} (he : Evolves h₀ trace h) {deadline : Nat}
    (hs : .started who id deadline ∈ timerNotesOf trace) : h₀.counters.timer ≤ id.number := by
  suffices hall : h₀.counters.timer ≤ h.counters.timer ∧ ∀ who id deadline,
      .started who id deadline ∈ timerNotesOf trace → h₀.counters.timer ≤ id.number from
    hall.2 who id deadline hs
  clear hs
  induction he with
  | refl => exact ⟨Nat.le_refl _, fun _ _ _ hs => by cases hs⟩
  | @change trace h x _ ih =>
    refine ⟨Nat.le_trans ih.1 (scheduled_on x h).counted, fun who id deadline hs => ?_⟩
    rw [timerNotesOf_snoc] at hs
    rcases List.mem_append.mp hs with hs | hs
    · exact ih.2 who id deadline hs
    · cases says_of_mem hs
      exact ih.1
  | quiet _ hq ih =>
    exact ⟨Nat.le_trans ih.1 (onlyNew_of_differs hq not_false not_false).counted, ih.2⟩

/-- A computer that was retired is never registered again. -/
theorem not_registered_of_retired {h₀ : Host} (he : Evolves h₀ trace h) (hr : Rostered h₀)
    (hw : .retired w ∈ timerNotesOf trace) : w ∉ h.registry.registered := by
  suffices hall : (h.computer? w).isSome = true ∧ w ∉ h.registry.registered from hall.2
  induction he with
  | refl => cases hw
  | @change trace h x he ih =>
    rw [timerNotesOf_snoc] at hw
    rcases List.mem_append.mp hw with hw | hw
    · obtain ⟨hsome, hnot⟩ := ih hw
      exact not_registered_of_evolves (.change .refl) (rostered_of_evolves he hr) hsome hnot
    · cases says_of_mem hw with
      | retired hsome => exact ⟨hsome, (rostered_of_evolves he hr).nodup.not_mem_erase⟩
  | quiet _ hq ih =>
    obtain ⟨hsome, hnot⟩ := ih hw
    exact ⟨hq.known w hsome, fun hmem => hnot ((hq.agrees .registered not_false).1 ▸ hmem)⟩

/-- A delivery that has begun goes on until the timer fires. -/
theorem firing_of_evolves {h₀ : Host} {entry : TimerEntry} (he : Evolves h₀ trace h)
    (hfiring : h₀.firing = some entry) (hno : ∀ step ∈ trace, step.2 ≠ .fire) :
    h.firing = some entry := by
  induction he with
  | refl => exact hfiring
  | @change trace h x _ ih =>
    rw [List.forall_mem_append, List.forall_mem_singleton] at hno
    exact firing_on_of_some hno.2 (ih hno.1)
  | quiet _ hq ih => exact (hq.agrees .service not_false).2.2.trans (ih hno)

/-! ## 3. Timers fire once -/

section
variable {entry : TimerEntry} {due : List TimerEntry} {deadline : Nat} (ha : Accounts trace h)
include ha

/-- The owner of a timer that was not taken is found if it is registered. -/
theorem Accounts.reaches (hr : Rostered h) (hentry : entry ∈ h.scheduled)
    (hs : .started who entry.id deadline ∈ timerNotesOf trace) (hw : who ∈ h.registry.registered)
    (htaken : .taken who entry.id ∉ timerNotesOf trace) : h.Reaches entry := by
  refine ⟨fun hfreed => ?_, ?_⟩
  · obtain ⟨v, ht⟩ := ha.freed _ hfreed
    obtain ⟨deadline', hs'⟩ := ha.begun v _ (.inr ht)
    obtain ⟨rfl, -⟩ := ha.unique who v _ deadline deadline' hs hs'
    exact htaken ht
  · rw [(ha.entry entry hentry who deadline hs).1]
    simp [Registry.resolves, hw, hr.live who hw]

/-- A timer fires if it was neither cancelled nor taken. -/
theorem Accounts.firings_of_running (hfiring : h.firing = some entry)
    (hs : .started who entry.id deadline ∈ timerNotesOf trace)
    (hcancelled : .cancelled who entry.id ∉ timerNotesOf trace)
    (htaken : .taken who entry.id ∉ timerNotesOf trace) :
    firings who entry.id (h, .fire) = [(h.clock, entry.event)] := by
  have hentry := mem_scheduled_of_firing hfiring
  have hunfired : firingsOf who entry.id trace = [] :=
    by_contra fun hne => ha.spent who _ hne entry hentry rfl
  have hwaits : h.WaitsFor who entry.id :=
    .inl ((ha.running who _).mpr ⟨⟨deadline, hs⟩, hunfired, hcancelled, htaken⟩)
  rw [firings_fire hfiring]
  exact if_pos ⟨rfl, (ha.entry entry hentry who deadline hs).1.symm, hwaits⟩

end

/-- A timer whose owner is looked for after it was retired: neither it nor anything else has come of the
timer. -/
theorem firingsOf_of_retired {h₀ h₁ : Host} {past later : List (Host × Change)}
    (he : Evolves h₀ (past ++ (h₁, .resolve) :: later) h) (ha : Accounts past h₁) (hr : Rostered h₀)
    {entry : TimerEntry} {due : List TimerEntry} (hfiring : h₁.firing = none)
    (hdue : h₁.due = entry :: due) (howner : entry.owner = who)
    (hretired : .retired who ∈ timerNotesOf past) :
    firingsOf who entry.id (past ++ (h₁, .resolve) :: later) = [] := by
  obtain ⟨hpast, hlater⟩ := he.split
  have hentry := mem_scheduled_of_due hdue
  have hunfired : firingsOf who entry.id past = [] :=
    by_contra fun hne => ha.spent who _ hne entry hentry rfl
  have hmissed : ¬h₁.Reaches entry := by
    rintro ⟨-, hresolves⟩
    rw [howner] at hresolves
    exact not_registered_of_retired hpast hr hretired
      (by simpa [Registry.resolves] using hresolves : _ ∧ _).2
  have hperm := perm_resolve hfiring hdue
  rw [if_neg hmissed] at hperm
  have hgone : ∀ e ∈ (Change.resolve.on h₁).scheduled, e.id ≠ entry.id := fun e hmem heq =>
    (List.nodup_cons.mp ((hperm.map (·.id)).nodup_iff.mp ha.nodup)).1
      (List.mem_map.mpr ⟨e, hmem, heq⟩)
  have hnone : firingsOf who entry.id later = [] :=
    firingsOf_of_not_scheduled hlater
      (Nat.lt_of_lt_of_le (ha.entryDrawn entry hentry) (scheduled_on .resolve h₁).counted) hgone who
  unfold firingsOf at hunfired hnone ⊢
  rw [List.flatMap_append, List.flatMap_cons, hunfired, hnone]
  rfl

/-- A timer whose owner was found and that was neither cancelled nor taken until it fires. -/
theorem length_firingsOf_of_delivered {h₀ h₁ h₂ : Host} {past mid rest : List (Host × Change)}
    (hnew : Accounts [] h₀) (hr : Rostered h₀)
    (he : Evolves h₀ (past ++ (h₁, .resolve) :: (mid ++ (h₂, .fire) :: rest)) h)
    (hno : ∀ step ∈ mid, step.2 ≠ .fire) {entry : TimerEntry} {due : List TimerEntry} {deadline : Nat}
    (hfiring : h₁.firing = none) (hdue : h₁.due = entry :: due)
    (hs : .started who entry.id deadline ∈ timerNotesOf past) (hw : who ∈ h₁.registry.registered)
    (hcancelled : .cancelled who entry.id ∉ timerNotesOf (past ++ (h₁, .resolve) :: mid))
    (htaken : .taken who entry.id ∉ timerNotesOf (past ++ (h₁, .resolve) :: mid)) :
    1 ≤ (firingsOf who entry.id (past ++ (h₁, .resolve) :: (mid ++ (h₂, .fire) :: rest))).length := by
  obtain ⟨hpast, hlater⟩ := he.split
  obtain ⟨hmid, -⟩ := hlater.split
  have hbefore {note : TimerNote} (hm : note ∈ timerNotesOf past) :
      note ∈ timerNotesOf (past ++ (h₁, .resolve) :: mid) := by
    unfold timerNotesOf
    rw [List.flatMap_append]
    exact List.mem_append_left _ hm
  have hreaches := (accounts_of_evolves hpast hnew).reaches (rostered_of_evolves hpast hr)
    (mem_scheduled_of_due hdue) hs hw fun hm => htaken (hbefore hm)
  -- The owner was found, so the timer is on its way until it fires.
  have hfound : (Change.resolve.on h₁).firing = some entry :=
    (firing_resolve hfiring hdue).trans (if_pos hreaches)
  have hstill := firing_of_evolves hmid hfound hno
  have hevolved : Evolves h₀ (past ++ (h₁, .resolve) :: mid) h₂ := by
    have hresolved : Evolves h₀ (past ++ [(h₁, .resolve)]) (Change.resolve.on h₁) := .change hpast
    simpa using hresolved.trans hmid
  have hone := (accounts_of_evolves hevolved hnew).firings_of_running hstill (hbefore hs) hcancelled htaken
  simp only [firingsOf, List.flatMap_append, List.flatMap_cons, hone, List.length_append,
    List.length_singleton]
  omega

/-- Timers, along any evolution of a host. A timer that was started on `c` fires once at most, on `c`
alone, and no sooner than it should; not at all, if a cancel has answered that it was running or if
`c` was retired before its delivery began; and once, if its delivery begins while `c` is registered and it
was neither cancelled nor taken until it fires. A cancel answers that a timer was running if it was started
on that computer, and neither has fired nor was cancelled or taken. -/
theorem timer_fires_once (setup : HostSetup) (tree : FileTree) (store : ConfigStore)
    (he : Evolves (Host.new setup tree store) trace h) :
    (∀ (c : Handle) (id : TimerId) (deadline : Nat), .started c id deadline ∈ timerNotesOf trace →
      (firingsOf c id trace).length ≤ 1 ∧
      (∀ w, w ≠ c → firingsOf w id trace = []) ∧
      (∀ t e, (t, e) ∈ firingsOf c id trace → e = timerEvent id ∧ deadline ≤ t) ∧
      (.cancelled c id ∈ timerNotesOf trace → firingsOf c id trace = []) ∧
      ∀ past h₁ later, trace = past ++ (h₁, .resolve) :: later → h₁.firing = none →
        h₁.due.head?.map (·.id) = some id →
        (.retired c ∈ timerNotesOf past → firingsOf c id trace = []) ∧
        ∀ mid h₂ rest, later = mid ++ (h₂, .fire) :: rest → (∀ step ∈ mid, step.2 ≠ .fire) →
          c ∈ h₁.registry.registered →
          .cancelled c id ∉ timerNotesOf (past ++ (h₁, .resolve) :: mid) →
          .taken c id ∉ timerNotesOf (past ++ (h₁, .resolve) :: mid) →
          (firingsOf c id trace).length = 1) ∧
    ∀ (c : Handle) (id : TimerId), (h.cancelTimer c id).1 = true ↔
      (∃ deadline, .started c id deadline ∈ timerNotesOf trace) ∧ firingsOf c id trace = [] ∧
        .cancelled c id ∉ timerNotesOf trace ∧ .taken c id ∉ timerNotesOf trace := by
  have hnew := accounts_new setup tree store
  have hrost := rostered_new setup tree store
  have ha := accounts_of_evolves he hnew
  refine ⟨fun c id deadline hs => ⟨ha.once c id, fun w hw => ?_, fun t e hm => ?_, ha.cancelled c id,
    fun past h₁ later htrace hfiring hhead => ?_⟩,
    fun c id => (cancelTimer_fst h c id).trans (ha.running c id)⟩
  · refine List.eq_nil_iff_forall_not_mem.mpr fun (t, e) hm => ?_
    exact hw (ha.fired c id deadline hs w t e hm).1
  · exact (ha.fired c id deadline hs c t e hm).2
  · subst htrace
    obtain ⟨hpast, hlater⟩ := he.split
    have ha₁ := accounts_of_evolves hpast hnew
    obtain ⟨entry, hfirst, rfl⟩ := Option.map_eq_some_iff.mp hhead
    obtain ⟨due, hdue⟩ := List.head?_eq_some_iff.mp hfirst
    have hentry := mem_scheduled_of_due hdue
    have hdrawn := ha₁.entryDrawn entry hentry
    have hs₁ : .started c entry.id deadline ∈ timerNotesOf past := by
      unfold timerNotesOf at hs
      rw [List.flatMap_append, List.flatMap_cons] at hs
      rcases List.mem_append.mp hs with hs | hs
      · exact hs
      · -- A timer that is started later has another number.
        have hle := number_of_started hlater hs
        exact absurd hle (Nat.not_le_of_lt
          (Nat.lt_of_lt_of_le hdrawn (scheduled_on .resolve h₁).counted))
    refine ⟨firingsOf_of_retired he ha₁ hrost hfiring hdue (ha₁.entry entry hentry c deadline hs₁).1, ?_⟩
    rintro mid h₂ rest rfl hno hw hcancelled htaken
    exact Nat.le_antisymm (ha.once c _)
      (length_firingsOf_of_delivered hnew hrost he hno hfiring hdue hs₁ hw hcancelled htaken)

end

def alarmed : Handle := ⟨7, 1⟩

/-- A timer fires once, also if its computer is retired while it is being delivered, and not at all if its
computer has been followed by another one of the same id before that. -/
theorem timer_fires_once_spawning :
    (firingsOf alarmed ⟨1⟩ (spawning.traceOf [.spawn 7 false, .startTimer alarmed 0, .sweep, .resolve,
      .teardown alarmed .retire, .fire])).length = 1 ∧
    firingsOf alarmed ⟨1⟩ (spawning.traceOf [.spawn 7 false, .startTimer alarmed 0, .sweep,
      .teardown alarmed .retire, .spawn 7 false, .resolve, .fire]) = [] := by
  constructor
  · obtain ⟨hfate, -⟩ := timer_fires_once _ _ _ (evolves_traceOf spawning
      [.spawn 7 false, .startTimer alarmed 0, .sweep, .resolve, .teardown alarmed .retire, .fire])
    obtain ⟨-, -, -, -, hdelivered⟩ := hfate alarmed ⟨1⟩ 0 (by decide +kernel)
    obtain ⟨-, hfires⟩ := hdelivered [_, _, _] _ [_, _] rfl rfl (by decide +kernel)
    refine hfires [_] _ [] rfl ?_ (by decide +kernel) (by decide +kernel) (by decide +kernel)
    exact List.forall_mem_singleton.mpr Change.noConfusion
  · obtain ⟨hfate, -⟩ := timer_fires_once _ _ _ (evolves_traceOf spawning
      [.spawn 7 false, .startTimer alarmed 0, .sweep, .teardown alarmed .retire, .spawn 7 false,
        .resolve, .fire])
    obtain ⟨-, -, -, -, hdelivered⟩ := hfate alarmed ⟨1⟩ 0 (by decide +kernel)
    exact (hdelivered [_, _, _, _, _] _ [_] rfl rfl (by decide +kernel)).1 (by decide +kernel)

end Host

end ComputerHost
