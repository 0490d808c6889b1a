import ComputerHost.Proofs.Host.Turn

/-!
# What happens to a program

A host goes on in steps: a thread moves, time passes, or something comes from outside. In a step of its
own thread a program may be any program at all (`Acts`): it asks its computer for what it likes, and
suspends with what it likes, whatever it has received before. `move?` is the case of a program that is
read from a chunk.

`Run` is any number of steps, with the history of one computer: what was pushed for it, what its loop took
from the queue, and what its program was resumed with.

Results:
1. `turns_of_step`, `keeps_of_step`: steps of a computer's own thread and of everybody else.
2. `Run.trans`, `run_of_moveOn?`: histories.
-/

namespace ComputerHost.Host

/-- One move of a program that has control. -/
inductive Acts (who : Handle) (warned : Bool) (h : Host) : Host → Prop
  | turns (session : Session) (program : Script.Program) (turn : Script.Turn) :
      Acts who warned h (h.afterTurn who session program warned turn)
  | asks {request : Script.Request} {reply : Script.Reply} {h₁ : Host} (session : Session)
      (program : Script.Program) (turn : Script.Turn) :
      h.serve who request = (.replied reply, h₁) →
      Acts who warned h (h₁.afterTurn who session program warned turn)
  | isHeld {request : Script.Request} {device : String} {h₁ : Host} (session : Session)
      (program : Script.Program) :
      h.serve who request = (.held device, h₁) →
      Acts who warned h (h₁.setStage who (.held session program request device warned))

/-- One step of a host, and the thread that moves if there is one. -/
inductive Step : Host → Option Handle → Host → Prop
  | moves {who : Handle} {h h' : Host} : h.move? who = some h' → Step h (some who) h'
  | enters {who : Handle} {h h' : Host} {session : Session} {args : List Value} {warned : Bool} :
      h.stage? who = some (.resuming session args warned) → h.isRunning who = true →
      Acts who warned h h' → Step h (some who) h'
  | executes {who : Handle} {h h' : Host} {session : Session} {program : Script.Program}
      {warned : Bool} :
      h.stage? who = some (.executing session program warned) → Acts who warned h h' →
      Step h (some who) h'
  | letGo {who : Handle} {h h₁ h' : Host} {session : Session} {program : Script.Program}
      {request : Script.Request} {device : String} {warned : Bool} :
      h.stage? who = some (.held session program request device warned) →
      h.takePermit? device = some h₁ → Acts who warned h₁ h' → Step h (some who) h'
  /-- The deadline has passed, and nobody has looked at whether something was asked of the computer in
  the meantime. -/
  | expires {who : Handle} {h : Host} {session : Session} {filter : String} {deadline : Nat}
      {warned : Bool} :
      h.stage? who = some (.waiting session filter deadline warned) →
      (h.computer? who).isSome = true → h.queue who = [] → deadline ≤ h.clock →
      Step h (some who) (h.timeOut who session warned)
  | passes {h : Host} {moment : Nat} : h.clock ≤ moment → Step h none { h with clock := moment }
  | sweeps {h : Host} : Step h none h.sweep
  | resolves {h h' : Host} : h.resolveDue? = some h' → Step h none h'
  | fires {h h' : Host} : h.fire? = some h' → Step h none h'
  | queues {h : Host} (who : Handle) (e : Event) : Step h none (h.queueEvent who e)
  | broadcasts {h : Host} (e : Event) : Step h none (h.broadcast e)
  | shutsDown {h : Host} (who : Handle) : Step h none (h.modify who Computer.shutdown)
  | reboots {h : Host} (who : Handle) : Step h none (h.modify who Computer.reboot)
  | shutsAllDown {h : Host} : Step h none h.shutdownAll
  | spawns {h : Host} (id : UInt32) (isDebugger : Bool) : Step h none (h.spawn id isDebugger).2
  | attaches {h : Host} (who : Handle) (side name : String) :
      Step h none (h.attach who side name).2
  | detaches {h : Host} (who : Handle) (side : String) : Step h none (h.detach who side).2
  | startsTimer {h : Host} (who : Handle) (ms : Nat) : Step h none (h.startTimer who ms).2
  | cancelsTimer {h : Host} (who : Handle) (id : TimerId) : Step h none (h.cancelTimer who id).2
  | debounces {h : Host} (who : Handle) (ms : Nat) (e : Event) :
      Step h none (h.debounce who ms e).2
  | runsTasks {h : Host} : Step h none h.runTasks.2

/-! ## 1. Own steps and others -/

theorem goesOn_of_acts {who : Handle} {warned : Bool} {h h' : Host} (ha : Acts who warned h h') :
    GoesOn who warned h h' := by
  cases ha with
  | turns session program turn => exact goesOn_afterTurn ..
  | @asks request reply h₁ session program turn hr =>
    have hserve (w : Handle) : Keeps w h (h.serve who request).2 := keeps_serve ..
    rw [hr] at hserve
    exact (goesOn_afterTurn ..).of_keeps hserve
  | @isHeld request device h₁ session program hr =>
    have hserve (w : Handle) : Keeps w h (h.serve who request).2 := keeps_serve ..
    rw [hr] at hserve
    exact ⟨h₁, _, hserve, .inl rfl, rfl⟩

theorem turns_of_step {who : Handle} {h h' : Host} (hs : Step h (some who) h') :
    Turns who h h' := by
  cases hs with
  | moves hm =>
    obtain ⟨stage, hs, hmoves⟩ := exists_moves_of_move? hm
    exact turns_of_moves hs hmoves
  | enters hstage hr ha =>
    obtain ⟨h₁, stage, hk, hf, rfl⟩ := goesOn_of_acts ha
    exact .resumes hstage hr hk hf
  | executes hstage ha =>
    obtain ⟨h₁, stage, hk, hf, rfl⟩ := goesOn_of_acts ha
    exact .executes hstage hk hf
  | letGo hstage hp ha =>
    obtain ⟨h₁, stage, hk, hf, rfl⟩ := (goesOn_of_acts ha).of_keeps fun w => keeps_takePermit? hp
    exact .letGo hstage hk hf
  | expires hstage hc hq hd => exact .timesOut hstage hc hq hd

theorem keeps_of_step {who : Handle} {mover : Option Handle} {h h' : Host} (hs : Step h mover h')
    (hne : mover ≠ some who) : Keeps who h h' := by
  cases mover with
  | some w => exact keeps_of_turns (turns_of_step hs) fun heq => hne (by rw [heq])
  | none =>
    cases hs with
    | passes hle => exact keeps_clock h hle
    | sweeps => exact keeps_sweep h
    | resolves hr => exact keeps_resolveDue? hr
    | fires hf => exact keeps_fire? hf
    | queues w e => exact keeps_queueEvent h w e
    | broadcasts e => exact keeps_broadcast h e
    | shutsDown w => exact keeps_modify Computer.grows_shutdown h w
    | reboots w => exact keeps_modify Computer.grows_reboot h w
    | shutsAllDown => exact keeps_shutdownAll h
    | spawns id isDebugger => exact keeps_spawn h id isDebugger
    | attaches w side name => exact keeps_attach h w side name
    | detaches w side => exact keeps_detach h w side
    | startsTimer w ms => exact keeps_startTimer h w ms
    | cancelsTimer w id => exact keeps_cancelTimer h w id
    | debounces w ms e => exact keeps_debounce h w ms e
    | runsTasks => exact keeps_runTasks h

/-! ## 2. Histories -/

/-- Something that happens to the program of a computer. -/
inductive Happening where
  /-- A boot begins, or empties the queue. -/
  | booted
  | pushed (e : Event)
  | resumed (args : List Value)
  | suspended (filter : String)
  /-- The wait took an event that does not pass the filter. -/
  | dropped (e : Event)
  /-- The wait took an event for the program. -/
  | delivered (e : Event)
  /-- The wait timed out, and the program is to be told to terminate. -/
  | timedOut
  /-- The wait timed out after the program had been told. -/
  | stopped
deriving DecidableEq

/-- What a move of the thread of `who` does to the program, if it leads to `h'`. -/
def deeds (h : Host) (who : Handle) (h' : Host) : List Happening :=
  match h.stage? who with
  | some .betweenBoots => [.booted]
  | some (.booting (.clearEvents :: _) (some _)) => [.booted]
  | some (.resuming _ args _) => if h.isRunning who then [.resumed args] else []
  | some (.suspended _ values _) =>
    if h.isRunning who then [.suspended (filterOf values)] else []
  | some (.waiting _ filter _ warned) =>
    match h.queue who with
    | e :: _ => [if e.passes filter then .delivered e else .dropped e]
    | [] =>
      match h'.stage? who with
      | some (.resuming _ _ _) => [if warned then .stopped else .timedOut]
      | _ => []
  | _ => []

/-- The events that have been added to the queue of `who`. -/
def arrivals (h : Host) (who : Handle) (h' : Host) : List Event :=
  (h'.queue who).drop (h.queue who).length

/-- What a step does to the program of `who`. -/
def happenings (h : Host) (who : Handle) (mover : Option Handle) (h' : Host) : List Happening :=
  (if mover = some who then h.deeds who h' else []) ++ (h.arrivals who h').map .pushed

/-- Steps one after the other, with the history of `who`. -/
inductive Run (who : Handle) : Host → List Happening → Host → Prop
  | refl (h : Host) : Run who h [] h
  | snoc {h h' h'' : Host} {history : List Happening} {mover : Option Handle} :
      Run who h history h' → Step h' mover h'' →
      Run who h (history ++ h'.happenings who mover h'') h''

theorem Run.trans {who : Handle} {h h' h'' : Host} {past later : List Happening}
    (hr : Run who h past h') (hr' : Run who h' later h'') : Run who h (past ++ later) h'' := by
  induction hr' with
  | refl =>
    rw [List.append_nil]
    exact hr
  | snoc _ hs ih =>
    rw [← List.append_assoc]
    exact .snoc ih hs

/-- So many moves of the thread of `who`, one right after the other, and what they do. -/
def moveOn? (who : Handle) : Nat → Host → Option (List Happening × Host)
  | 0, h => some ([], h)
  | n + 1, h =>
    (h.move? who).bind fun h₁ =>
      (moveOn? who n h₁).map fun (later, h') => (h.happenings who (some who) h₁ ++ later, h')

theorem run_of_moveOn? {who : Handle} {n : Nat} {h h' : Host} {history : List Happening}
    (hm : h.moveOn? who n = some (history, h')) : Run who h history h' := by
  induction n generalizing h history with
  | zero =>
    cases hm
    exact .refl _
  | succ n ih =>
    obtain ⟨h₁, hmove, hrest⟩ := Option.bind_eq_some_iff.mp hm
    obtain ⟨⟨later, h₂⟩, hlater, heq⟩ := Option.map_eq_some_iff.mp hrest
    cases heq
    exact (Run.snoc (.refl h) (.moves hmove)).trans (ih hlater)

/-- A run within one boot, from the moment the boot has emptied the queue. -/
inductive BootRun (who : Handle) (history : List Happening) (h : Host) : Prop
  | intro {h₀ h₁ : Host} {todo : List BootStep} {session : Session} :
      (h₀.computer? who).isSome = true →
      h₀.stage? who = some (.booting (.clearEvents :: todo) (some session)) →
      h₀.move? who = some h₁ → Run who h₁ history h → .booted ∉ history → BootRun who history h

/-! ## 3. What a history says about events -/

namespace Happening

def pushed? : Happening → Option Event
  | .pushed e => some e
  | _ => none

/-- The event that was taken from the queue. -/
def consumed? : Happening → Option Event
  | .dropped e | .delivered e => some e
  | _ => none

def delivered? : Happening → Option Event
  | .delivered e => some e
  | _ => none

/-- The values that were found for the program. -/
def offered? : Happening → Option (List Value)
  | .delivered e => some e.values
  | .timedOut => some Event.terminate.values
  | _ => none

def resumed? : Happening → Option (List Value)
  | .resumed args => some args
  | _ => none

def isPush : Happening → Bool
  | .pushed _ => true
  | _ => false

/-- Does a wait for what passes a filter go on? -/
def isQuiet (filter : String) : Happening → Bool
  | .pushed _ => true
  | .dropped e => !e.passes filter
  | _ => false

end Happening

def pushedOf (history : List Happening) : List Event := history.filterMap Happening.pushed?

def consumedOf (history : List Happening) : List Event := history.filterMap Happening.consumed?

def deliveredOf (history : List Happening) : List Event := history.filterMap Happening.delivered?

def offersOf (history : List Happening) : List (List Value) :=
  history.filterMap Happening.offered?

def resumedOf (history : List Happening) : List (List Value) :=
  history.filterMap Happening.resumed?

/-- What the thread of the program has done. -/
def deedsOf (history : List Happening) : List Happening := history.filter fun x => !x.isPush

/-- At the end of `past` the program waits for what passes `filter`: it suspended after `before`, and
the wait has found nothing since. -/
def Waits (filter : String) (before past : List Happening) : Prop :=
  ∃ since, past = before ++ .suspended filter :: since ∧ since.all (·.isQuiet filter) = true

/-- The program was warned that it is idle, and has not suspended since. -/
def Warned (history : List Happening) : Prop :=
  ∃ past since, history = past ++ .timedOut :: since ∧ ∀ filter, .suspended filter ∉ since

/-- The first event that was not consumed before a wait and passes its filter. -/
def firstFor? (filter : String) (before past : List Happening) : Option Event :=
  ((pushedOf past).drop (consumedOf before).length).find? (·.passes filter)

end ComputerHost.Host
