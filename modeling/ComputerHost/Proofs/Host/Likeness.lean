import ComputerHost.Host.Clock
import ComputerHost.Proofs.Script.Heedless

/-!
# The same but for the numbers of timers

All computers draw the numbers of their timers from one counter, so what a computer does besides shows in
the numbers that the timers of the others get. A renaming of timers says which timer stands for which; it
keeps their order. Under a renaming two computers, two stages of a thread or two transcripts may be alike:
the same, but that a timer, its event or a line about either may be replaced by its counterpart.

Results:
1. `Increasing.inj`, `increasing_drawn`: renamings.
2. `alike_take`, `alike_load`: sessions.
3. `Computer.Alike.timerFired`, `alike_look`: computers.
4. `Computer.Alike.mono`, `Stage.Alike.mono`: a renaming may grow.
-/

namespace ComputerHost

/-- Which timer stands for which. -/
abbrev Renaming := TimerId → TimerId → Prop

namespace Renaming

/-- Timers keep their order. -/
def Increasing (ρ : Renaming) : Prop :=
  ∀ i i' j j', ρ i i' → ρ j j' → (i.number < j.number ↔ i'.number < j'.number)

/-- A renaming with one more pair. -/
def drawn (ρ : Renaming) (i i' : TimerId) : Renaming := fun j j' => ρ j j' ∨ j = i ∧ j' = i'

end Renaming

/-- An event, or the event of a timer and that of its counterpart. -/
inductive Event.Alike (ρ : Renaming) : Event → Event → Prop
  | same (e : Event) : Alike ρ e e
  | timer {i i' : TimerId} : ρ i i' → Alike ρ (Host.timerEvent i) (Host.timerEvent i')

/-- Values to resume a program with: any, or those of the event of a timer and of its counterpart. -/
inductive ValuesAlike (ρ : Renaming) : List Value → List Value → Prop
  | same (values : List Value) : ValuesAlike ρ values values
  | timer {i i' : TimerId} : ρ i i' →
      ValuesAlike ρ (Host.timerEvent i).values (Host.timerEvent i').values

/-- A line of a transcript: any, or one about a timer that was started or whose event was received, and
the one about its counterpart. -/
inductive LineAlike (ρ : Renaming) : String → String → Prop
  | same (line : String) : LineAlike ρ line line
  | started {i j : TimerId} : ρ i j → LineAlike ρ s!"timer {i.number}" s!"timer {j.number}"
  | received {i i' : TimerId} : ρ i i' →
      LineAlike ρ ("event " ++ Value.displayAll (Host.timerEvent i).values)
        ("event " ++ Value.displayAll (Host.timerEvent i').values)

/-- A timer in the service and its counterpart. -/
inductive TimerEntry.Alike (ρ : Renaming) (entry : TimerEntry) : TimerEntry → Prop
  | mk {id : TimerId} {event : Event} : ρ entry.id id → Event.Alike ρ entry.event event →
      Alike ρ entry { entry with id, event }

/-- The same computer, but for the numbers of its timers. What is attached to it is from a pool. -/
inductive Computer.Alike (pool : String → Prop) (ρ : Renaming) (c : Computer) : Computer → Prop
  | mk {events : List Event} {timers takenTimers : List TimerId} {debounce : Option TimerId} :
      List.Forall₂ (Event.Alike ρ) c.events.toList events → List.Forall₂ ρ c.timers timers →
      List.Forall₂ ρ c.takenTimers takenTimers → Option.Rel ρ c.debounce debounce →
      (∀ p ∈ c.peripherals, pool p.2) →
      Alike pool ρ c { c with events := ⟨events⟩, timers, takenTimers, debounce }

/-- The same session, but for the number of its state and the values that are under way in loads. -/
inductive Session.Alike (session : Session) : Session → Prop
  | mk {ordinal : Nat} {coroutines : List (Option Script.Program)} :
      List.Forall₂ (Option.Rel Script.Program.Alike) session.interpreter.coroutines coroutines →
      Alike session
        { session with ordinal, interpreter := { session.interpreter with coroutines } }

/-- The same stage of a thread, but for the numbers of timers. A device that holds the program is from a
pool. -/
inductive Stage.Alike (pool : String → Prop) (ρ : Renaming) : Stage → Stage → Prop
  | betweenBoots : Alike pool ρ .betweenBoots .betweenBoots
  | booting (todo : List BootStep) {session session' : Option Session} :
      Option.Rel Session.Alike session session' →
      Alike pool ρ (.booting todo session) (.booting todo session')
  | resuming {session session' : Session} {args args' : List Value} (warned : Bool) :
      session.Alike session' → ValuesAlike ρ args args' →
      Alike pool ρ (.resuming session args warned) (.resuming session' args' warned)
  | executing {session session' : Session} {program program' : Script.Program} (warned : Bool) :
      session.Alike session' → program.Alike program' →
      Alike pool ρ (.executing session program warned) (.executing session' program' warned)
  | held {session session' : Session} {program program' : Script.Program} {device : String}
      (request : Script.Request) (warned : Bool) :
      session.Alike session' → program.Alike program' → pool device →
      Alike pool ρ (.held session program request device warned)
        (.held session' program' request device warned)
  | suspended {session session' : Session} (values : List Value) (warned : Bool) :
      session.Alike session' →
      Alike pool ρ (.suspended session values warned) (.suspended session' values warned)
  | waiting {session session' : Session} (filter : String) (deadline : Nat) (warned : Bool) :
      session.Alike session' →
      Alike pool ρ (.waiting session filter deadline warned) (.waiting session' filter deadline warned)
  | leaving {session session' : Option Session} (ending : Ending) :
      Option.Rel Session.Alike session session' →
      Alike pool ρ (.leaving session ending) (.leaving session' ending)
  | ended (ending : Ending) : Alike pool ρ (.ended ending) (.ended ending)
  | stopping : Alike pool ρ .stopping .stopping
  | tearingDown (todo : List TeardownStep) : Alike pool ρ (.tearingDown todo) (.tearingDown todo)
  | gone : Alike pool ρ .gone .gone

/-- Looks at two queues that find events that are alike, or end in the same way. -/
inductive LooksAlike (ρ : Renaming) : Option EventQueue.Wait × EventQueue →
    Option EventQueue.Wait × EventQueue → Prop
  | event {e e' : Event} {rest rest' : List Event} : Event.Alike ρ e e' →
      List.Forall₂ (Event.Alike ρ) rest rest' →
      LooksAlike ρ (some (.event e), ⟨rest⟩) (some (.event e'), ⟨rest'⟩)
  | interrupted {q q' : EventQueue} : LooksAlike ρ (some .interrupted, q) (some .interrupted, q')
  | timedOut {q q' : EventQueue} : LooksAlike ρ (some .timedOut, q) (some .timedOut, q')
  | none {q q' : EventQueue} : LooksAlike ρ (none, q) (none, q')

/-- The same error, or results that are alike. -/
inductive ResultAlike {ε α β : Type} (r : α → β → Prop) : Except ε α → Except ε β → Prop
  | error (e : ε) : ResultAlike r (.error e) (.error e)
  | ok {x : α} {y : β} : r x y → ResultAlike r (.ok x) (.ok y)

section
variable {ρ ρ' : Renaming} {i i' j j' : TimerId} {pool : String → Prop} {session session' : Session}

/-! ## 1. Renamings -/

namespace Renaming

theorem Increasing.inj (hi : ρ.Increasing) (hij : ρ i i') (hjj : ρ j j') : i = j ↔ i' = j' := by
  have hlt := hi i i' j j' hij hjj
  have hgt := hi j j' i i' hjj hij
  obtain ⟨i⟩ := i
  obtain ⟨i'⟩ := i'
  obtain ⟨j⟩ := j
  obtain ⟨j'⟩ := j'
  simp only [TimerId.mk.injEq] at *
  omega

/-- Numbers that are larger than all before may stand for each other. -/
theorem increasing_drawn (hi : ρ.Increasing)
    (hnew : ∀ j j', ρ j j' → j.number < i.number ∧ j'.number < i'.number) :
    (ρ.drawn i i').Increasing := by
  rintro a a' b b' (ha | ⟨rfl, rfl⟩) (hb | ⟨rfl, rfl⟩)
  · exact hi a a' b b' ha hb
  · have := hnew a a' ha
    omega
  · have := hnew b b' hb
    omega
  · omega

theorem Increasing.mem_iff {ids ids' : List TimerId} (hi : ρ.Increasing)
    (hids : List.Forall₂ ρ ids ids') (hρ : ρ i i') : i' ∈ ids' ↔ i ∈ ids := by
  induction hids with
  | nil => simp
  | cons hfirst _ ih => rw [List.mem_cons, List.mem_cons, ih, hi.inj hρ hfirst]

theorem Increasing.without {ids ids' : List TimerId} (hi : ρ.Increasing)
    (hids : List.Forall₂ ρ ids ids') (hρ : ρ i i') :
    List.Forall₂ ρ (ids.filter (· != i)) (ids'.filter (· != i')) := by
  refine List.rel_filter (fun j j' hj => ?_) hids
  show (j != i) = true ↔ (j' != i') = true
  rw [bne_iff_ne, bne_iff_ne, Ne, Ne, hi.inj hj hρ]

end Renaming

/-! ## 2. Sessions -/

theorem programs_refl (programs : List (Option Script.Program)) :
    List.Forall₂ (Option.Rel Script.Program.Alike) programs programs :=
  List.forall₂_same.mpr fun program _ => by
    cases program with
    | none => exact .none
    | some p => exact .some (.refl p)

theorem Session.Alike.refl (session : Session) : session.Alike session :=
  ⟨programs_refl session.interpreter.coroutines⟩

/-- Changing the states alike, but for the coroutines. -/
theorem Session.Alike.map (hs : session.Alike session') (f : Script.Interpreter → Script.Interpreter)
    (hf : ∀ (st : Script.Interpreter) (coroutines : List (Option Script.Program)),
      f { st with coroutines } = { f st with coroutines }) :
    Session.Alike { session with interpreter := f session.interpreter }
      { session' with interpreter := f session'.interpreter } := by
  obtain @⟨ordinal, coroutines, hprograms⟩ := hs
  have hsame : (f session.interpreter).coroutines = session.interpreter.coroutines :=
    congrArg (·.coroutines) (hf session.interpreter session.interpreter.coroutines)
  dsimp only
  rw [hf session.interpreter coroutines]
  exact @Session.Alike.mk { session with interpreter := f session.interpreter } ordinal coroutines
    (hsame ▸ hprograms)

theorem forall₂_set {α β : Type} {r : α → β → Prop} {xs : List α} {ys : List β} {x : α} {y : β}
    (hxs : List.Forall₂ r xs ys) (hx : r x y) (n : Nat) :
    List.Forall₂ r (xs.set n x) (ys.set n y) := by
  induction hxs generalizing n with
  | nil => exact .nil
  | cons hfirst hrest ih =>
    cases n with
    | zero => exact .cons hx hrest
    | succ n => exact .cons hfirst (ih n)

theorem forall₂_getElem? {α β : Type} {r : α → β → Prop} {xs : List α} {ys : List β}
    (hxs : List.Forall₂ r xs ys) (n : Nat) : Option.Rel r xs[n]? ys[n]? := by
  induction hxs generalizing n with
  | nil => exact .none
  | cons hfirst hrest ih =>
    cases n with
    | zero => exact .some hfirst
    | succ n => exact ih n

theorem alike_take (hs : session.Alike session') :
    ResultAlike (fun x y : Script.Program × Script.Interpreter => x.1.Alike y.1 ∧
        Session.Alike { session with interpreter := x.2 } { session' with interpreter := y.2 })
      (session.interpreter.take session.main) (session'.interpreter.take session'.main) := by
  obtain @⟨ordinal, coroutines, hprograms⟩ := hs
  have hget := forall₂_getElem? hprograms session.main
  unfold Script.Interpreter.take
  dsimp only
  generalize session.interpreter.coroutines[session.main]? = found at hget ⊢
  generalize coroutines[session.main]? = found' at hget ⊢
  cases hget with
  | none => exact .error _
  | some hprogram =>
    cases hprogram with
    | none => exact .error _
    | some hprogram =>
      have hset := forall₂_set hprograms (Option.Rel.none (r := Script.Program.Alike)) session.main
      exact .ok ⟨hprogram, .mk hset⟩

theorem alike_put (hs : session.Alike session') {program program' : Script.Program}
    (hp : program.Alike program') :
    Session.Alike { session with interpreter := session.interpreter.put session.main program }
      { session' with interpreter := session'.interpreter.put session'.main program' } := by
  obtain ⟨hprograms⟩ := hs
  have hset := forall₂_set hprograms (Option.Rel.some hp) session.main
  exact .mk hset

theorem alike_createCoroutine (hs : session.Alike session') :
    Session.Alike
      { session with main := session.interpreter.createCoroutine.1,
                     interpreter := session.interpreter.createCoroutine.2 }
      { session' with main := session'.interpreter.createCoroutine.1,
                      interpreter := session'.interpreter.createCoroutine.2 } := by
  obtain @⟨ordinal, coroutines, hprograms⟩ := hs
  unfold Script.Interpreter.createCoroutine
  dsimp only
  rw [← hprograms.length_eq]
  exact .mk (List.rel_append hprograms (.cons .none .nil))

theorem alike_load (hs : session.Alike session') (source : ByteArray) (chunk : String) :
    ResultAlike (fun x y : Script.Interpreter =>
        Session.Alike { session with interpreter := x } { session' with interpreter := y })
      (session.interpreter.load session.main source chunk)
      (session'.interpreter.load session'.main source chunk) := by
  obtain @⟨ordinal, coroutines, hprograms⟩ := hs
  unfold Script.Interpreter.load
  cases Script.Program.read source chunk with
  | error e => exact .error e
  | ok program =>
    simp only [bind, Except.bind, ← hprograms.length_eq]
    split
    · have hset := forall₂_set hprograms (Option.Rel.some (Script.Program.Alike.refl program)) session.main
      exact .ok (.mk hset)
    · exact .error _

/-! ## 3. Computers -/

theorem Computer.Alike.timerFired {c c' : Computer} {e e' : Event} (hi : ρ.Increasing)
    (ha : c.Alike pool ρ c') (hid : ρ i i') (he : Event.Alike ρ e e') :
    (c.timerFired i e).Alike pool ρ (c'.timerFired i' e') := by
  obtain @⟨events, timers, takenTimers, debounce, hevents, htimers, htaken, hdebounce, hsides⟩ := ha
  have hqueue : List.Forall₂ (Event.Alike ρ) (c.events.push e).toList (events ++ [e']) :=
    List.rel_append hevents (.cons he .nil)
  have hcontains : timers.contains i' = c.timers.contains i := by
    rw [Bool.eq_iff_iff, List.contains_iff_mem, List.contains_iff_mem]
    exact hi.mem_iff htimers hid
  have hwaits : debounce = some i' ↔ c.debounce = some i := by
    generalize c.debounce = found at hdebounce
    cases hdebounce with
    | none => simp
    | some hρ => simp [hi.inj hρ hid]
  unfold Computer.timerFired
  dsimp only
  rw [hcontains]
  simp only [hwaits]
  split
  · exact ⟨hqueue, hi.without htimers hid, htaken, hdebounce, hsides⟩
  · split
    · exact ⟨hqueue, htimers, htaken, .none, hsides⟩
    · exact ⟨hevents, htimers, htaken, hdebounce, hsides⟩

theorem Event.Alike.values {e e' : Event} (he : Event.Alike ρ e e') : ValuesAlike ρ e.values e'.values := by
  cases he with
  | same => exact .same _
  | timer hi => exact .timer hi

theorem Event.Alike.passes {e e' : Event} (he : Event.Alike ρ e e') (filter : String) :
    e'.passes filter = e.passes filter := by
  cases he <;> rfl

/-- What the waiting loops of two computers find. -/
theorem alike_look {c c' : Computer} (ha : c.Alike pool ρ c') (expired : Bool) :
    LooksAlike ρ (c.events.look c.isRunning expired) (c'.events.look c'.isRunning expired) := by
  obtain @⟨events, timers, takenTimers, debounce, hevents, -⟩ := ha
  have hrunning : ({ c with events := ⟨events⟩, timers, takenTimers, debounce } : Computer).isRunning =
      c.isRunning := rfl
  rw [hrunning]
  dsimp only
  generalize c.events = queue at hevents ⊢
  obtain ⟨queued⟩ := queue
  cases hevents with
  | nil =>
    generalize c.isRunning = running
    cases running with
    | false => exact .interrupted
    | true =>
      cases expired with
      | false => exact .none
      | true => exact .timedOut
  | cons he hrest => exact .event he hrest

/-! ## 4. Growing -/

variable (hsub : ∀ i i', ρ i i' → ρ' i i')

include hsub in
theorem Event.Alike.mono {e e' : Event} (ha : Event.Alike ρ e e') : Event.Alike ρ' e e' := by
  cases ha with
  | same => exact .same e
  | timer hi => exact .timer (hsub _ _ hi)

include hsub in
theorem ValuesAlike.mono {values values' : List Value} (ha : ValuesAlike ρ values values') :
    ValuesAlike ρ' values values' := by
  cases ha with
  | same => exact .same values
  | timer hi => exact .timer (hsub _ _ hi)

include hsub in
theorem LineAlike.mono {line line' : String} (ha : LineAlike ρ line line') : LineAlike ρ' line line' := by
  cases ha with
  | same => exact .same line
  | started hi => exact .started (hsub _ _ hi)
  | received hi => exact .received (hsub _ _ hi)

include hsub in
theorem TimerEntry.Alike.mono {entry entry' : TimerEntry} (ha : entry.Alike ρ entry') :
    entry.Alike ρ' entry' := by
  obtain ⟨hid, hevent⟩ := ha
  exact ⟨hsub _ _ hid, hevent.mono hsub⟩

theorem optionRel_imp {α β : Type} {r r' : α → β → Prop} {x : Option α} {y : Option β}
    (hr : ∀ a b, r a b → r' a b) (ha : Option.Rel r x y) : Option.Rel r' x y := by
  cases ha with
  | none => exact .none
  | some ha => exact .some (hr _ _ ha)

include hsub in
theorem Computer.Alike.mono {c c' : Computer} (ha : c.Alike pool ρ c') : c.Alike pool ρ' c' := by
  obtain ⟨hevents, htimers, htaken, hdebounce, hsides⟩ := ha
  exact ⟨hevents.imp fun _ _ he => he.mono hsub, htimers.imp fun _ _ => hsub _ _,
    htaken.imp fun _ _ => hsub _ _, optionRel_imp hsub hdebounce, hsides⟩

include hsub in
theorem Stage.Alike.mono {stage stage' : Stage} (ha : stage.Alike pool ρ stage') :
    stage.Alike pool ρ' stage' := by
  cases ha with
  | resuming warned hs hv => exact .resuming warned hs (hv.mono hsub)
  | betweenBoots => exact .betweenBoots
  | booting todo hs => exact .booting todo hs
  | executing warned hs hp => exact .executing warned hs hp
  | held request warned hs hp hd => exact .held request warned hs hp hd
  | suspended values warned hs => exact .suspended values warned hs
  | waiting filter deadline warned hs => exact .waiting filter deadline warned hs
  | leaving ending hs => exact .leaving ending hs
  | ended ending => exact .ended ending
  | stopping => exact .stopping
  | tearingDown todo => exact .tearingDown todo
  | gone => exact .gone

end

end ComputerHost
