import ComputerHost.Proofs.Host.Phase
import ComputerHost.Proofs.Host.Wiring
import Mathlib.Logic.Relation

/-!
# What is done for one computer

Whatever a host does is made of single changes: of a computer, a terminal, a transcript, the registry and
so on. A `Scope` says what may be changed while something is done for one computer, or for nobody, and
`Works` that a host has become another one by changes within a scope. What every single change of a scope
respects is then respected by all functions of the host, by one induction.

The scopes are wide where other proofs have no use for more: a computer may be changed in any way that
leaves it its handle and its terminal.

Results:
1. `works_serve`, `works_of_acts`: programs.
2. `works_bootStep`, `works_leave`, `works_teardownStep`: boots and teardowns.
3. `works_of_moves`, `works_of_step`: one step of a thread.
4. `works_on`, `works_of_passes`: what comes from outside.
-/

namespace ComputerHost

/-- The library that was told about the end of a boot, if it was that. -/
def Deed.library? : Deed → Option Library
  | .deinitialized l => some l
  | _ => none

/-- What may be changed while something is done for a computer. -/
structure Scope where
  /-- The computer. Only what is done for it uses its terminal, its transcript and its thread. -/
  who : Option Handle
  /-- May the terminal be used? -/
  shows : Prop
  /-- The computers that may be changed. -/
  reaches : Handle → Prop
  /-- The peripherals that may be spoken to. -/
  names : String → Prop
  /-- The timers that may be cancelled. -/
  timers : TimerId → Prop
  /-- May libraries be told that a boot has ended? -/
  leaves : Prop
  /-- May anything be done that is not about one computer? -/
  isOpen : Prop
  reaches_of_open : isOpen → ∀ w, reaches w
  names_of_open : isOpen → ∀ name, names name
  timers_of_open : isOpen → ∀ id, timers id

namespace Scope

/-- The scope of everything that is done for a computer, or for nobody. -/
def all (who : Option Handle) (shows leaves : Prop) : Scope :=
  { who, shows, reaches := fun _ => True, names := fun _ => True, timers := fun _ => True, leaves,
    isOpen := True, reaches_of_open := fun _ _ => trivial, names_of_open := fun _ _ => trivial,
    timers_of_open := fun _ _ => trivial }

/-- The scope lets things be done for `who`. -/
structure Covers (s : Scope) (w : Handle) : Prop where
  who : s.who = some w
  reaches : s.reaches w

theorem covers_all (w : Handle) (shows leaves : Prop) : (all (some w) shows leaves).Covers w :=
  ⟨rfl, trivial⟩

end Scope

namespace Host

/-- The number of the terminal that a computer has. -/
def terminalNumber? (h : Host) (who : Handle) : Option Nat := (h.computer? who).bind (·.terminal)

/-- One change within a scope. -/
inductive Touches (s : Scope) (h : Host) : Host → Prop
  | computer {w : Handle} {f : Computer → Computer} : s.reaches w →
      (∀ c, (f c).handle = c.handle ∧ (f c).terminal = c.terminal) → Touches s h (h.modify w f)
  | deed {w : Handle} {d : Deed} : d.library? = none ∨ (s.leaves ∧ s.who = some w) →
      Touches s h (h.note w d)
  | terminal {w : Handle} {n : Nat} {f : Terminal → Terminal} : s.shows → s.who = some w →
      h.terminalNumber? w = some n → Touches s h (h.onTerminal n f)
  | transcript {w : Handle} {lines : List String} : s.who = some w → Touches s h (h.log w.id lines)
  | stage {w : Handle} {stage : Stage} : s.who = some w → Touches s h (h.setStage w stage)
  | peripheral {name : String} {p : Peripheral} : s.names name → Touches s h (h.setPeripheral name p)
  | references {r : Registry} : r.registered = h.registry.registered → r.freed = h.registry.freed →
      r.freedTimers = h.registry.freedTimers → Touches s h { h with registry := r }
  | retires {w : Handle} : s.who = some w →
      Touches s h { h with registry := (h.registry.retire w).2 }
  | releases {w : Handle} : s.who = some w →
      Touches s h { h with registry := h.registry.release w }
  | invalidates {ids : List TimerId} : (∀ id ∈ ids, s.timers id) →
      Touches s h { h with registry := h.registry.invalidateTimers ids }
  | numbers : Touches s h { h with counters := h.counters.newTimer.2 }
  | schedules {entry : TimerEntry} : s.reaches entry.owner →
      Touches s h { h with timers := h.timers.schedule entry }
  | cancels {id : TimerId} : s.timers id → Touches s h { h with timers := h.timers.cancel id }
  | saves {w : Handle} (config : ComputerConfig) : s.who = some w →
      Touches s h { h with store := (h.store.save h.tree w.id config).2.1,
                           tree := (h.store.save h.tree w.id config).2.2 }
  | dialog {t : Task Dialog} : Touches s h { h with tasks := h.tasks.push t }
  | orphan {n : Nat} : Touches s h { h with orphans := h.orphans ++ [n] }
  | state {n : Nat} : Touches s h { h with states := n }
  | message {n : Nat} {title text : String} : s.isOpen →
      Touches s h (h.onTerminal n (·.showMessage title text))
  | spawns {id : UInt32} {isDebugger : Bool} : s.isOpen → Touches s h (h.spawn id isDebugger).2
  /-- Anything else. -/
  | other {h' : Host} : s.isOpen → h'.setup = h.setup → h'.computers = h.computers →
      h'.threads = h.threads → h'.terminals = h.terminals → h'.journal = h.journal → Touches s h h'

/-- A host becomes another one by changes within a scope. -/
abbrev Works (s : Scope) : Host → Host → Prop := Relation.ReflTransGen (Touches s)

/-- What a computer has to do with others lies within a scope. -/
structure Fits (s : Scope) (who : Handle) (h : Host) : Prop where
  /-- What is attached to the computer. -/
  sides : ∀ p ∈ h.sidesOf who, s.names p.2
  /-- What is attached to the computer stands for no other one, or anything may be done. -/
  direct : s.isOpen ∨ ∀ p ∈ h.sidesOf who, h.link? p.2 = none
  /-- Links to the computer, wherever they are attached. -/
  links : ∀ w, ∀ p ∈ h.sidesOf w, (h.link? p.2).isSome = true → s.reaches w ∧ s.names p.2
  taken : ∀ id ∈ h.takenTimersOf who, s.timers id
  debounce : ∀ id, h.debounceOf? who = some id → s.timers id
  /-- The device that holds the program. -/
  device : ∀ {session program request device warned},
    h.stage? who = some (.held session program request device warned) → s.names device

section
variable {s : Scope} {who w : Handle} {h h' h'' : Host}

/-! ## 1. Programs -/

theorem Works.of_eq (heq : h' = h) : Works s h h' := heq ▸ .refl

theorem works_ite {p : Prop} [Decidable p] (hw : p → Works s h h') (hw' : ¬p → Works s h h'') :
    Works s h (if p then h' else h'') := by
  split
  · next hp => exact hw hp
  · next hp => exact hw' hp

theorem works_foldl {α : Type} {f : Host → α → Host} (h : Host) (xs : List α)
    (hf : ∀ h, ∀ x ∈ xs, Works s h (f h x)) : Works s h (xs.foldl f h) := by
  induction xs generalizing h with
  | nil => exact .refl
  | cons x xs ih =>
    rw [List.foldl_cons]
    exact (hf h x List.mem_cons_self).trans
      (ih _ fun h y hy => hf h y (List.mem_cons_of_mem x hy))

theorem works_modify (hr : s.reaches w) {f : Computer → Computer}
    (hf : ∀ c, (f c).handle = c.handle ∧ (f c).terminal = c.terminal) (h : Host) :
    Works s h (h.modify w f) :=
  .single (.computer hr hf)

theorem works_update {α : Type} (hr : s.reaches w) {f : Computer → α × Computer}
    (hf : ∀ c, (f c).2.handle = c.handle ∧ (f c).2.terminal = c.terminal) (h : Host) (other : α) :
    Works s h (h.update w f other).2 := by
  unfold update
  cases h.computer? w with
  | none => exact .refl
  | some c => exact works_modify hr hf h

theorem works_note (h : Host) (w : Handle) {d : Deed} (hd : d.library? = none) :
    Works s h (h.note w d) :=
  .single (.deed (.inl hd))

theorem works_queueEvent (hr : s.reaches w) (h : Host) (e : Event) :
    Works s h (h.queueEvent w e) :=
  works_modify hr (fun _ => by exact ⟨rfl, rfl⟩) h

theorem works_shutdown (hr : s.reaches w) (h : Host) : Works s h (h.modify w Computer.shutdown) :=
  works_modify hr (fun _ => by exact ⟨rfl, rfl⟩) h

theorem works_reboot (hr : s.reaches w) (h : Host) : Works s h (h.modify w Computer.reboot) := by
  refine works_modify hr (fun c => ?_) h
  unfold Computer.reboot
  split <;> exact ⟨rfl, rfl⟩

theorem works_setStage (hc : s.Covers who) (h : Host) (stage : Stage) :
    Works s h (h.setStage who stage) :=
  .single (.stage hc.who)

theorem works_setPeripheral {name : String} (hn : s.names name) (h : Host) (p : Peripheral) :
    Works s h (h.setPeripheral name p) :=
  .single (.peripheral hn)

theorem works_showDialog (h : Host) (terminal : Option Nat) (title message : String) :
    Works s h (h.showDialog terminal title message) :=
  .single .dialog

theorem terminalOf?_eq_some {n : Nat} {t : Terminal} :
    h.terminalOf? who = some (n, t) ↔ h.terminalNumber? who = some n ∧ h.terminal? n = some t := by
  unfold terminalOf? terminalNumber?
  cases h.computer? who with
  | none => simp
  | some c =>
    show (c.terminal.bind fun n => (h.terminal? n).bind fun t => some (n, t)) = _ ↔ c.terminal = _ ∧ _
    cases c.terminal with
    | none => simp
    | some m =>
      cases ht : h.terminal? m <;> grind

theorem works_showFatal (hc : s.Covers who) (hs : s.shows) {n : Nat}
    (hn : h.terminalNumber? who = some n) (message : String) :
    Works s h (h.showFatal who n message) :=
  (Relation.ReflTransGen.single (.terminal hs hc.who hn)).trans (works_note _ who rfl)

theorem works_finish (hr : s.reaches w) (h : Host) :
    Works s h (h.modify w fun c => c.finish.setPhase .stopped) := by
  refine works_modify hr (fun c => ?_) h
  rw [Computer.finish_frame]
  exact ⟨rfl, rfl⟩

theorem Announces.works (hc : s.Covers who) (hs : s.shows) (ha : Announces who h h') : Works s h h' := by
  cases ha with
  | shows ht => exact works_showFatal hc hs (terminalOf?_eq_some.mp ht).1 _
  | tells => exact works_showDialog ..

theorem works_programFinished (hc : s.Covers who) (hs : s.shows) (h : Host) :
    Works s h (h.programFinished who) := by
  have hw : Works s h (h.modify who Computer.finish) := by
    refine works_modify hc.reaches (fun c => ?_) h
    rw [Computer.finish_frame]
    exact ⟨rfl, rfl⟩
  obtain heq | ⟨n, t, -, ht, heq⟩ := programFinished_cases h who <;> rw [heq]
  · exact hw
  · exact hw.trans (works_showFatal hc hs (terminalOf?_eq_some.mp ht).1 _)

theorem works_programFailed (hc : s.Covers who) (hs : s.shows) (h : Host) (e : ScriptError) :
    Works s h (h.programFailed who e) := by
  obtain ⟨-, heq⟩ | ⟨-, ha⟩ := programFailed_cases h who e
  · rw [heq]
  · exact (works_shutdown hc.reaches h).trans (ha.works hc hs)

theorem works_startTimer (hr : s.reaches w) (h : Host) (ms : Nat) :
    Works s h (h.startTimer w ms).2 := by
  have hcount : Works s h { h with counters := h.counters.newTimer.2 } := .single .numbers
  have htrack := hcount.trans
    (works_modify (f := (·.trackTimer h.counters.newTimer.1)) hr (fun _ => by exact ⟨rfl, rfl⟩) _)
  exact works_ite (fun _ => htrack.tail (.schedules hr)) fun _ => htrack

theorem works_spawn (ho : s.isOpen) (h : Host) (id : UInt32) (isDebugger : Bool) :
    Works s h (h.spawn id isDebugger).2 :=
  .single (.spawns ho)

theorem works_retarget (ho : s.isOpen) (h : Host) (name : String) (l : Link) (target : Handle) :
    Works s h (h.retarget name l target) := by
  have hset := works_setPeripheral (s.names_of_open ho name) h (.link { l with target })
  unfold retarget
  dsimp only
  split
  · exact hset.tail (.other ho rfl rfl rfl rfl rfl)
  · exact hset

theorem works_callLink (ho : s.isOpen) (h : Host) (name : String) (l : Link) (method : String) :
    Works s h (h.callLink name l method).2 := by
  have hreach : s.reaches l.target := s.reaches_of_open ho l.target
  unfold callLink
  dsimp only
  split
  case h_3 =>
    have hspawn := works_spawn ho h l.target.id false
    split
    · exact .refl
    · rcases hs : h.spawn l.target.id false with ⟨made, h₁⟩
      rw [hs] at hspawn
      cases made with
      | error e => exact hspawn
      | ok w => exact hspawn.trans (works_retarget ho h₁ name l w)
  case h_4 => exact works_ite (fun _ => works_shutdown hreach h) fun _ => .refl
  case h_5 => exact works_ite (fun _ => works_reboot hreach h) fun _ => .refl
  all_goals exact .refl

theorem works_takePermit? {name : String} (hn : s.names name) (hp : h.takePermit? name = some h') :
    Works s h h' := by
  unfold takePermit? at hp
  split at hp
  · split at hp
    · cases hp
    · rw [← Option.some.inj hp]
      exact works_setPeripheral hn h _
  · cases hp

theorem fits_of_open (ho : s.isOpen) (who : Handle) (h : Host) : Fits s who h where
  sides p _ := s.names_of_open ho p.2
  direct := .inl ho
  links w p _ _ := ⟨s.reaches_of_open ho w, s.names_of_open ho p.2⟩
  taken id _ := s.timers_of_open ho id
  debounce id _ := s.timers_of_open ho id
  device _ := s.names_of_open ho _

theorem works_call (hr : s.reaches who) (hsides : ∀ p ∈ h.sidesOf who, s.names p.2)
    (hdirect : s.isOpen ∨ ∀ p ∈ h.sidesOf who, h.link? p.2 = none) (side method : String)
    (args : List Value) :
    Works s h (h.call who side method args).2 := by
  unfold call
  split
  · exact .refl
  · next name hname =>
    have hattached : (side, name) ∈ h.sidesOf who :=
      mem_of_lookup ((lookup_sidesOf h who side).trans hname)
    dsimp only
    generalize hm : h.modify who _ = h₁
    have hw : Works s h h₁ := by
      rw [← hm]
      exact works_modify hr (fun _ => by exact ⟨rfl, rfl⟩) h
    have hsame : h₁.peripheral? = h.peripheral? := by
      rw [← hm]
      rfl
    split
    · exact hw
    · next l hl =>
      refine hw.trans ?_
      have ho : s.isOpen := by
        rcases hdirect with ho | hdirect
        · exact ho
        · have hnone : h.link? name = none := hdirect _ hattached
          rw [hsame] at hl
          rw [link?_eq_some.mpr hl] at hnone
          cases hnone
      split
      · exact works_callLink ho ..
      · exact .refl
    · split
      · exact hw
      · exact hw
      · exact hw
      · split
        · next hp => exact hw.trans (works_takePermit? (hsides _ hattached) hp)
        · exact hw

theorem works_serve (hr : s.reaches who) (hsides : ∀ p ∈ h.sidesOf who, s.names p.2)
    (hdirect : s.isOpen ∨ ∀ p ∈ h.sidesOf who, h.link? p.2 = none) (request : Script.Request) :
    Works s h (h.serve who request).2 := by
  have hupdate {f : Computer → Script.Reply × Computer}
      (hf : ∀ c, (f c).2.handle = c.handle ∧ (f c).2.terminal = c.terminal) :
      Works s h (h.update who f Script.Reply.done).2 := works_update hr hf h _
  cases request with
  | shutdown => exact works_shutdown hr h
  | reboot => exact works_reboot hr h
  | setBreakpoint source line | clearBreakpoint id =>
    exact hupdate fun _ => by exact ⟨rfl, rfl⟩
  | startTimer ms => exact works_startTimer hr h ms
  | queue e => exact works_queueEvent hr h e
  | call side method args => exact works_call hr hsides hdirect side method args
  | setLabel text => exact works_modify hr (fun _ => by exact ⟨rfl, rfl⟩) h

theorem works_afterTurn (hc : s.Covers who) (hs : s.shows) (h : Host) (session : Session)
    (program : Script.Program) (warned : Bool) (turn : Script.Turn) :
    Works s h (h.afterTurn who session program warned turn) := by
  cases turn with
  | next | ask | suspend | panic => exact works_setStage hc h _
  | finish => exact (works_programFinished hc hs h).trans (works_setStage hc _ _)
  | fail e => exact (works_programFailed hc hs h e).trans (works_setStage hc _ _)

theorem works_log (hc : s.Covers who) (h : Host) (lines : List String) :
    Works s h (h.log who.id lines) :=
  .single (.transcript hc.who)

theorem works_afterReply (hc : s.Covers who) (hs : s.shows) (h : Host) (session : Session)
    (program : Script.Program) (warned : Bool) (request : Script.Request) (reply : Script.Reply) :
    Works s h (h.afterReply who session program warned request reply) :=
  (works_log hc h _).trans (works_afterTurn hc hs ..)

theorem works_afterLine (hc : s.Covers who) (hs : s.shows) (hf : Fits s who h) (session : Session)
    (warned : Bool) (line : List String × Script.Turn × Script.Program) :
    Works s h (h.afterLine who session warned line) := by
  obtain ⟨lines, turn, program⟩ := line
  have hlog : Works s h (h.log who.id lines) := works_log hc h lines
  have hsame : (h.log who.id lines).sidesOf who = h.sidesOf who ∧
      (h.log who.id lines).link? = h.link? := by
    unfold log
    split
    · exact ⟨rfl, rfl⟩
    · split <;> exact ⟨rfl, rfl⟩
  cases turn with
  | ask request =>
    have hserve : Works s (h.log who.id lines) ((h.log who.id lines).serve who request).2 := by
      refine works_serve hc.reaches ?_ ?_ request
      · rw [hsame.1]
        exact hf.sides
      · rw [hsame.1, hsame.2]
        exact hf.direct
    unfold afterLine
    dsimp only
    split
    · next reply h₁ hr =>
      rw [hr] at hserve
      exact (hlog.trans hserve).trans (works_afterReply hc hs ..)
    · next device h₁ hr =>
      rw [hr] at hserve
      exact (hlog.trans hserve).trans (works_setStage hc ..)
  | next => exact hlog.trans (works_afterTurn hc hs _ session program warned .next)
  | suspend values => exact hlog.trans (works_afterTurn hc hs _ session program warned (.suspend values))
  | finish => exact hlog.trans (works_afterTurn hc hs _ session program warned .finish)
  | fail e => exact hlog.trans (works_afterTurn hc hs _ session program warned (.fail e))
  | panic message => exact hlog.trans (works_afterTurn hc hs _ session program warned (.panic message))

theorem works_resume (hc : s.Covers who) (hs : s.shows) (hf : Fits s who h) (session : Session)
    (args : List Value) (warned : Bool) : Works s h (h.resume who session args warned) := by
  have hcall : Works s h (h.noteCall who session (.resume args.length)) := works_note h who rfl
  have hfailed (e : ScriptError) (stage : Stage) : Works s h
      (((h.noteCall who session (.resume args.length)).programFailed who e).setStage who stage) :=
    (hcall.trans (works_programFailed hc hs ..)).trans (works_setStage hc ..)
  unfold resume
  dsimp only
  split
  · exact hfailed _ _
  · split
    · exact hfailed _ _
    · have hnoted : Fits s who (h.noteCall who session (.resume args.length)) :=
        ⟨hf.sides, hf.direct, hf.links, hf.taken, hf.debounce, hf.device⟩
      exact hcall.trans (works_afterLine hc hs hnoted ..)

theorem works_of_acts {warned : Bool} (hc : s.Covers who) (hs : s.shows) (hf : Fits s who h)
    (ha : Acts who warned h h') : Works s h h' := by
  cases ha with
  | turns session program turn => exact works_afterTurn hc hs ..
  | @asks request reply h₁ session program turn hr =>
    have hserve := works_serve hc.reaches hf.sides hf.direct request
    rw [hr] at hserve
    exact hserve.trans (works_afterTurn hc hs ..)
  | @isHeld request device h₁ session program hr =>
    have hserve := works_serve hc.reaches hf.sides hf.direct request
    rw [hr] at hserve
    exact hserve.trans (works_setStage hc ..)

/-! ## 2. Boots and teardowns -/

theorem works_foldl_fst {α β : Type} {f : Host × β → α → Host × β} (p : Host × β) (xs : List α)
    (hf : ∀ p, ∀ x ∈ xs, Works s p.1 (f p x).1) : Works s p.1 (xs.foldl f p).1 := by
  induction xs generalizing p with
  | nil => exact .refl
  | cons x xs ih =>
    rw [List.foldl_cons]
    exact (hf p x List.mem_cons_self).trans
      (ih _ fun p y hy => hf p y (List.mem_cons_of_mem x hy))

theorem works_setGlobals (h : Host) (who : Handle) (session : Session)
    (globals : List (String × Value)) : Works s h (h.setGlobals who session globals).1 :=
  works_foldl_fst (f := fun p x => p.1.setGlobal who p.2 x.1 x.2) (h, session) globals
    fun p _ _ => works_note p.1 who rfl

theorem works_reinitialized {name : String} (hn : s.names name) (h : Host) (who : Handle)
    (session : Session) : Works s h (h.reinitialize who session name).1 := by
  unfold reinitialize
  split
  · exact ((works_setPeripheral hn h _).trans (works_note _ who rfl)).trans (works_setGlobals ..)
  · exact .refl

theorem works_stepInSession (hr : s.reaches who) (hsides : ∀ p ∈ h.sidesOf who, s.names p.2)
    (session : Session) (step : BootStep) : Works s h (h.stepInSession who session step).2 := by
  have hphase (phase : BootPhase) : Works s h (h.modify who (·.setPhase phase)) :=
    works_modify hr (fun _ => by exact ⟨rfl, rfl⟩) h
  cases step with
  | openCoroutine =>
    show Works s h (h.openCoroutine who session).2
    unfold openCoroutine
    dsimp only
    split <;> exact works_note h who rfl
  | clearEvents => exact works_modify hr (fun _ => by exact ⟨rfl, rfl⟩) h
  | reinitializePeripherals =>
    refine works_foldl_fst (f := fun p name => reinitialize p.1 who p.2 name) (h, session) _
      fun p name hname => ?_
    have hattached : ∃ side, (side, name) ∈ h.sidesOf who := by
      unfold sidesOf
      cases hc : h.computer? who with
      | none => simp [hc] at hname
      | some c => simpa [hc] using hname
    obtain ⟨side, hside⟩ := hattached
    exact works_reinitialized (hsides _ hside) ..
  | bindComputer | openLibrary | chooseLoader => exact works_note h who rfl
  | openBase => exact (hphase .loadingLibraries).trans (works_note _ who rfl)
  | enterProgram => exact hphase .running
  | showPluginFailures =>
    unfold stepInSession
    dsimp only
    split
    · exact .refl
    · exact works_note h who rfl
  | loadPlugins =>
    unfold stepInSession
    dsimp only
    split
    · exact .refl
    · exact (works_note h who rfl).trans (works_setGlobals ..)
  | setGlobals => exact works_setGlobals h who session (h.hostGlobals (h.terminalOf? who).isNone)
  | loadBios =>
    show Works s h (h.loadBios who session).2
    have hload : Works s h ((h.modify who (·.setPhase .loadingBios)).noteCall who session
        (.load biosChunk)) := (hphase .loadingBios).trans (works_note _ who rfl)
    unfold loadBios
    dsimp only
    split
    · exact hphase .loadingBios
    · split <;> exact hload
  | resetTerminal | openState => exact .refl

theorem works_openState (h : Host) : Works s h h.openState.2 := by
  unfold openState
  dsimp only
  split <;> exact .single .state

theorem snd_bootStep_some {session : Session} {step : BootStep} (hreset : step ≠ .resetTerminal)
    (hopen : step ≠ .openState) :
    (h.bootStep who (some session) step).2 = (h.stepInSession who session step).2 := by
  cases step with
  | resetTerminal => exact absurd rfl hreset
  | openState => exact absurd rfl hopen
  | _ => rfl

theorem works_bootStep {step : BootStep} (hc : s.Covers who) (hs : s.shows ∨ step ≠ .resetTerminal)
    (hsides : ∀ p ∈ h.sidesOf who, s.names p.2) (session : Option Session) :
    Works s h (h.bootStep who session step).2 := by
  have hreset (hs : s.shows) : Works s h (h.bootStep who session .resetTerminal).2 := by
    obtain ⟨-, heq⟩ | ⟨n, t, ht, heq⟩ := resetTerminal_cases h who session
    · rw [heq]
    · rw [heq]
      exact (Relation.ReflTransGen.single (.terminal hs hc.who (terminalOf?_eq_some.mp ht).1)).trans
        (works_note _ who rfl)
  by_cases hr : step = .resetTerminal
  · exact hr ▸ hreset (hs.resolve_right fun hne => hne hr)
  by_cases ho : step = .openState
  · exact ho ▸ works_openState h
  cases session with
  | none => exact .of_eq (by cases step <;> first | rfl | contradiction)
  | some session =>
    rw [snd_bootStep_some hr ho]
    exact works_stepInSession hc.reaches hsides session step

theorem works_closeConnections (hr : s.reaches who) (h : Host) :
    Works s h (h.closeConnections who) := by
  have htake : Works s h (h.update who Computer.takeConnections []).2 :=
    works_update hr (fun _ => by exact ⟨rfl, rfl⟩) h []
  exact htake.trans (works_foldl _ _ fun h _ _ => works_note h who rfl)

theorem works_leave (hc : s.Covers who) (hl : s.leaves) (h : Host) (session : Option Session) :
    Works s h (h.leave who session) := by
  unfold leave
  split
  · exact .refl
  · exact (works_closeConnections hc.reaches h).trans
      (works_foldl _ _ fun h _ _ => .single (.deed (.inr ⟨hl, hc.who⟩)))

theorem works_reportBootFailure (hc : s.Covers who) (hs : s.shows) (h : Host) (e : BootError) :
    Works s h (h.reportBootFailure who e) :=
  (announces_reportBootFailure h who e).works hc hs

theorem works_setPhase (hr : s.reaches who) (h : Host) (phase : BootPhase) :
    Works s h (h.modify who (·.setPhase phase)) :=
  works_modify hr (fun _ => by exact ⟨rfl, rfl⟩) h

theorem works_judge {ending : Ending} (hc : s.Covers who) (hs : s.shows ∨ ending = .ordinary)
    (h : Host) :
    Works s h (h.judge who ending) := by
  have hgo (h : Host) : Works s h (h.judge who .ordinary) :=
    works_ite (fun _ => (works_setPhase hc.reaches h _).trans (works_setStage hc ..))
      fun _ => works_setStage hc ..
  cases ending with
  | ordinary => exact hgo h
  | failed e =>
    have hshows : s.shows := hs.resolve_right nofun
    exact ((works_reportBootFailure hc hshows h e).trans (works_shutdown hc.reaches _)).trans (hgo _)
  | panicked detail =>
    exact (((works_showDialog ..).trans (works_shutdown hc.reaches _)).trans
      (works_closeConnections hc.reaches _)).trans (works_setStage hc ..)

theorem works_beginBoot (hc : s.Covers who) (h : Host) : Works s h (h.beginBoot who) := by
  have hbegin : Works s h (h.update who Computer.beginBoot false).2 := by
    refine works_update hc.reaches (fun c => ?_) h false
    rw [Computer.beginBoot_frame]
    exact ⟨rfl, rfl⟩
  unfold beginBoot
  exact works_ite (fun _ => (hbegin.trans (works_setPhase hc.reaches ..)).trans (works_setStage hc ..))
    fun _ => hbegin.trans (works_setStage hc ..)

theorem works_tellDetached {name : String} (hn : s.names name) (h : Host) (w : Handle) :
    Works s h (h.tellDetached name w) := by
  have htell (p : Peripheral) {d : Deed} (hd : d.library? = none) :
      Works s h ((h.setPeripheral name p).note w d) :=
    (works_setPeripheral hn h p).trans (works_note _ w hd)
  unfold tellDetached
  split
  · exact htell _ rfl
  · dsimp only
    split
    · exact works_ite (fun _ => (htell _ rfl).tail (.references rfl rfl rfl)) fun _ => htell _ rfl
    · exact htell _ rfl
  · exact .refl

theorem works_detach {side : String} (hr : s.reaches w)
    (hn : ∀ name, (h.sidesOf w).lookup side = some name → s.names name) :
    Works s h (h.detach w side).2 := by
  rcases detach_cases h w side with ⟨-, heq⟩ | ⟨name, hname, heq⟩
  · rw [heq]
  · rw [heq]
    have htake : Works s h (h.modify w fun c =>
        { c with peripherals := c.peripherals.filter (·.1 != side) }) :=
      works_modify hr (fun _ => by exact ⟨rfl, rfl⟩) h
    exact (htake.trans (works_tellDetached (hn name hname) ..)).trans
      (works_queueEvent hr ..)

/-- Links that lie within a scope are still there when something was detached. -/
theorem links_detach (hlinks : ∀ w, ∀ p ∈ h.sidesOf w, (h.link? p.2).isSome = true →
      s.reaches w ∧ s.names p.2) (v : Handle) (side : String) :
    ∀ w, ∀ p ∈ (h.detach v side).2.sidesOf w, ((h.detach v side).2.link? p.2).isSome = true →
      s.reaches w ∧ s.names p.2 := by
  intro w p hp hl
  rcases detach_cases h v side with ⟨-, heq⟩ | ⟨name, hname, -⟩
  · rw [heq] at hp hl
    exact hlinks w p hp hl
  · have hbefore : p ∈ h.sidesOf w := by
      rw [sidesOf_detach] at hp
      split at hp
      · next hw => exact hw ▸ List.mem_of_mem_filter hp
      · exact hp
    refine hlinks w p hbefore ?_
    rw [link?_detach hname] at hl
    split at hl
    · simpa using hl
    · exact hl

theorem works_detachReference (hlinks : ∀ w, ∀ p ∈ h.sidesOf w, (h.link? p.2).isSome = true →
      s.reaches w ∧ s.names p.2) (w : Handle) (side : String) (target : Handle) :
    Works s h (h.detachReference w side target) := by
  unfold detachReference
  dsimp only
  refine works_ite (fun hfound => ?_) fun _ => .refl
  obtain ⟨p, hp, htarget⟩ := Option.bind_eq_some_iff.mp hfound
  obtain ⟨name, hname, hp⟩ := Option.bind_eq_some_iff.mp hp
  have hattached := (lookup_sidesOf h w side).trans hname
  have hlink : (h.link? name).isSome = true := by
    cases p with
    | device d => cases htarget
    | link l =>
      rw [link?_eq_some.mpr hp]
      rfl
  obtain ⟨hreach, hnames⟩ := hlinks w (side, name) (mem_of_lookup hattached) hlink
  refine works_detach hreach fun name' hname' => ?_
  cases hattached.symm.trans hname'
  exact hnames

theorem works_detachReferences (hlinks : ∀ w, ∀ p ∈ h.sidesOf w, (h.link? p.2).isSome = true →
      s.reaches w ∧ s.names p.2) (who : Handle) : Works s h (h.detachReferences who) := by
  have hfold (refs : List Reference) (h : Host) (hlinks : ∀ w, ∀ p ∈ h.sidesOf w,
      (h.link? p.2).isSome = true → s.reaches w ∧ s.names p.2) :
      Works s h (refs.foldl (fun h r => if h.registry.resolves r.referencer then
        h.detachReference r.referencer r.side who else h) h) := by
    induction refs generalizing h with
    | nil => exact .refl
    | cons r refs ih =>
      rw [List.foldl_cons]
      split
      · refine (works_detachReference hlinks r.referencer r.side who).trans (ih _ ?_)
        unfold detachReference
        dsimp only
        split
        · exact links_detach hlinks r.referencer r.side
        · exact hlinks
      · exact ih h hlinks
  have htake : Works s h { h with registry := (h.registry.takeReferences who).2 } :=
    .single (.references rfl rfl rfl)
  exact htake.trans (hfold _ _ hlinks)

theorem works_runFinalizers (hr : s.reaches who) (h : Host) : Works s h (h.runFinalizers who) := by
  have htake : Works s h (h.update who (fun c => (c.finalizers, { c with finalizers := [] })) []).2 :=
    works_update hr (fun _ => by exact ⟨rfl, rfl⟩) h []
  refine htake.trans (works_foldl _ _ fun h name _ => ?_)
  have hrun : Works s h (h.modify who fun c => { c with config := h.setup.finalize name c.config }) :=
    works_modify hr (fun _ => by exact ⟨rfl, rfl⟩) h
  exact hrun.trans (works_note _ who rfl)

theorem works_releasePeripherals (hr : s.reaches who) (hsides : ∀ p ∈ h.sidesOf who, s.names p.2) :
    Works s h (h.releasePeripherals who) := by
  have htake : Works s h
      (h.update who (fun c => (c.peripherals.map (·.2), { c with peripherals := [] })) []).2 :=
    works_update hr (fun _ => by exact ⟨rfl, rfl⟩) h []
  have hnames : (h.update who (fun c => (c.peripherals.map (·.2), { c with peripherals := [] })) []).1 =
      (h.sidesOf who).map (·.2) := by
    rw [update_fst]
    unfold sidesOf
    cases h.computer? who <;> rfl
  refine htake.trans (works_foldl _ _ fun h name hname => works_tellDetached ?_ h who)
  obtain ⟨p, hp, rfl⟩ := List.mem_map.mp (Eq.mp (congrArg (name ∈ ·) hnames) hname)
  exact hsides p hp

theorem works_teardownStep {step : TeardownStep} (hc : s.Covers who)
    (hs : s.shows ∨ step ≠ .releaseTerminal) (hf : Fits s who h) :
    Works s h (h.teardownStep who step) := by
  cases step with
  | retire => exact .single (.retires hc.who)
  | release => exact .single (.releases hc.who)
  | runFinalizers => exact works_runFinalizers hc.reaches h
  | releaseTerminal =>
    show Works s h (h.releaseTerminal who)
    have hshows : s.shows := hs.resolve_right (· rfl)
    obtain ⟨-, heq⟩ | ⟨n, t, ht, ⟨-, heq⟩ | ⟨-, heq⟩⟩ := releaseTerminal_cases h who
    · rw [heq]
    · rw [heq]
      exact .single .orphan
    · rw [heq]
      exact (Relation.ReflTransGen.single (.terminal hshows hc.who (terminalOf?_eq_some.mp ht).1)).trans
        (works_note _ who rfl)
  | saveConfig =>
    show Works s h (h.saveConfig who)
    unfold saveConfig
    split
    · exact .refl
    · next c _ =>
      exact (Relation.ReflTransGen.single (.saves c.config hc.who)).trans
        (works_note _ who rfl)
  | releasePeripherals => exact works_releasePeripherals hc.reaches hf.sides
  | detachReferences => exact works_detachReferences hf.links who
  | takeTimers => exact works_modify hc.reaches (fun _ => by exact ⟨rfl, rfl⟩) h
  | invalidateTimers =>
    have hempty : Works s h
        (h.update who (fun c => (c.takenTimers, { c with takenTimers := [] })) []).2 :=
      works_update hc.reaches (fun _ => by exact ⟨rfl, rfl⟩) h []
    have htaken : (h.update who (fun c => (c.takenTimers, { c with takenTimers := [] })) []).1 =
        h.takenTimersOf who := update_fst ..
    exact hempty.tail (.invalidates fun id hid => hf.taken id (Eq.mp (congrArg (id ∈ ·) htaken) hid))
  | cancelDebounce =>
    have htake : Works s h (h.update who (fun c => (c.debounce, { c with debounce := none })) none).2 :=
      works_update hc.reaches (fun _ => by exact ⟨rfl, rfl⟩) h none
    have hdebounce : (h.update who (fun c => (c.debounce, { c with debounce := none })) none).1 =
        h.debounceOf? who := update_fst ..
    unfold teardownStep
    dsimp only
    split
    · next id hid => exact htake.tail (.cancels (hf.debounce id (hdebounce.symm.trans hid)))
    · exact htake
  | closeConnections => exact works_closeConnections hc.reaches h

/-! ## 3. One step of a thread -/

theorem works_timeOut (hc : s.Covers who) (h : Host) (session : Session) (warned : Bool) :
    Works s h (h.timeOut who session warned) :=
  works_ite (fun _ => (works_shutdown hc.reaches h).trans (works_setStage hc ..))
    fun _ => works_setStage hc ..

/-- A move of a thread that is not the end of a boot, or any move if libraries may be told. -/
theorem works_of_moves {stage : Stage} (hc : s.Covers who) (hs : s.shows) (hf : Fits s who h)
    (hl : s.leaves ∨ ∀ session ending, stage ≠ .leaving session ending)
    (hstage : h.stage? who = some stage) (hm : Moves who h stage h') : Works s h h' := by
  have hqueue (events : List Event) : Works s h (h.setQueue who events) :=
    works_modify hc.reaches (fun _ => by exact ⟨rfl, rfl⟩) h
  cases hm with
  | boots => exact works_beginBoot hc h
  | lacksState | enters | declines | suspends | quits | interrupted | isDone =>
    exact works_setStage hc ..
  | @prepares step _ session _ _ hb | @bootFails step _ session _ _ hb =>
    have hboot : Works s h (h.bootStep who session step).2 :=
      works_bootStep hc (.inl hs) hf.sides session
    rw [hb] at hboot
    exact hboot.trans (works_setStage hc ..)
  | resumes => exact works_resume hc hs hf ..
  | executes => exact works_afterLine hc hs hf ..
  | letGo hp =>
    exact (works_takePermit? (hf.device hstage) hp).trans (works_afterReply hc hs ..)
  | takes => exact (hqueue _).trans (works_setStage hc ..)
  | drops => exact hqueue _
  | timesOut => exact works_timeOut hc ..
  | leaves =>
    have hleaves : s.leaves := hl.resolve_right fun hno => hno _ _ rfl
    exact (works_leave hc hleaves h _).trans (works_setStage hc ..)
  | judges => exact works_judge hc (.inl hs) h
  | windsUp => exact (works_finish hc.reaches h).trans (works_setStage hc ..)
  | tearsDown => exact (works_teardownStep hc (.inl hs) hf).trans (works_setStage hc ..)

/-- A step of a thread that is not the end of a boot, or any step if libraries may be told. -/
theorem works_of_step {leaves : Prop}
    (hl : leaves ∨ ∀ session ending, h.stage? who ≠ some (.leaving session ending))
    (hs : Step h (some who) h') : Works (.all (some who) True leaves) h h' := by
  have hc := Scope.covers_all who True leaves
  have hf (h : Host) : Fits (.all (some who) True leaves) who h := fits_of_open trivial who h
  cases hs with
  | moves hm =>
    obtain ⟨stage, hstage, hmoves⟩ := exists_moves_of_move? hm
    have hl' : leaves ∨ ∀ session ending, stage ≠ .leaving session ending :=
      hl.imp_right fun hno session ending heq => hno session ending (heq ▸ hstage)
    exact works_of_moves hc trivial (hf h) hl' hstage hmoves
  | enters _ _ ha => exact works_of_acts hc trivial (hf h) ha
  | executes _ ha => exact works_of_acts hc trivial (hf h) ha
  | letGo _ hp ha => exact (works_takePermit? trivial hp).trans (works_of_acts hc trivial (hf _) ha)
  | expires => exact works_timeOut hc ..

/-! ## 4. What comes from outside -/

theorem works_tellAttached {name : String} (hn : s.names name) (h : Host) (w : Handle)
    (side : String) : Works s h (h.tellAttached name w side) := by
  have hrefer (h : Host) (target : Handle) :
      Touches s h { h with registry := h.registry.addReference target w side } := by
    obtain ⟨hregistered, hfreed, htimers⟩ := addReference_others h.registry target w side
    exact .references hregistered hfreed htimers
  have htell (p : Peripheral) {d : Deed} (hd : d.library? = none) :
      Works s h ((h.setPeripheral name p).note w d) :=
    (works_setPeripheral hn h p).trans (works_note _ w hd)
  unfold tellAttached
  split
  · exact htell _ rfl
  · exact works_ite (fun _ => (htell _ rfl).tail (hrefer ..)) fun _ => htell _ rfl
  · exact .refl

theorem works_attach {name : String} (hr : s.reaches w) (hn : s.names name) (h : Host)
    (side : String) : Works s h (h.attach w side name).2 := by
  rcases attach_cases h w side name with heq | ⟨-, -, -, heq⟩
  · exact .of_eq (congrArg Prod.snd heq)
  · rw [heq]
    have hgive : Works s h (h.modify w fun c =>
        { c with peripherals := c.peripherals ++ [(side, name)] }) :=
      works_modify hr (fun _ => by exact ⟨rfl, rfl⟩) h
    exact (hgive.trans (works_tellAttached hn ..)).trans (works_queueEvent hr ..)

theorem works_cancelTimer {id : TimerId} (hr : s.reaches w) (hid : s.timers id) (h : Host) :
    Works s h (h.cancelTimer w id).2 := by
  have hdrop : Works s h (h.update w (·.dropTimer id) false).2 :=
    works_update hr (fun _ => by exact ⟨rfl, rfl⟩) h false
  exact works_ite (fun _ => hdrop.tail (.cancels hid)) fun _ => hdrop

theorem works_debounce (hr : s.reaches w) (hid : ∀ id, h.debounceOf? w = some id → s.timers id)
    (ms : Nat) (e : Event) : Works s h (h.debounce w ms e).2 := by
  have hcount : Works s h { h with counters := h.counters.newTimer.2 } := .single .numbers
  have harm := hcount.trans (works_update (f := (·.armDebounce h.counters.newTimer.1)) hr
    (fun _ => by exact ⟨rfl, rfl⟩) _ none)
  have hprevious : (({ h with counters := h.counters.newTimer.2 } : Host).update w
      (·.armDebounce h.counters.newTimer.1) none).1 = h.debounceOf? w := update_fst ..
  unfold debounce
  refine works_ite (fun _ => ?_) fun _ => harm
  split
  · next old hold =>
    exact (harm.tail (.cancels (hid old (hprevious.symm.trans hold)))).tail (.schedules hr)
  · exact harm.tail (.schedules hr)

theorem works_closeConnection (hr : s.reaches w) (h : Host) (id : Nat) :
    Works s h (h.closeConnection w id).2 := by
  have htake : Works s h (h.update w (·.takeConnection id) none).2 :=
    works_update hr (fun _ => by exact ⟨rfl, rfl⟩) h none
  unfold closeConnection
  rcases hu : h.update w (·.takeConnection id) none with ⟨_ | c, h₁⟩
  · rw [hu] at htake
    exact htake
  · rw [hu] at htake
    exact htake.trans (works_note _ w rfl)

theorem works_resolveDue? (ho : s.isOpen) (hr : h.resolveDue? = some h') : Works s h h' := by
  obtain ⟨entry, due, -, -, rfl⟩ := of_resolveDue? hr
  exact .single (.other ho rfl rfl rfl rfl rfl)

theorem works_fire? (ho : s.isOpen) (hf : h.fire? = some h') : Works s h h' := by
  obtain ⟨entry, -, rfl⟩ := Option.map_eq_some_iff.mp hf
  have htake : Works s h { h with firing := none } := .single (.other ho rfl rfl rfl rfl rfl)
  refine htake.trans (works_modify (s.reaches_of_open ho _) (fun c => ?_) _)
  rw [Computer.timerFired_frame]
  exact ⟨rfl, rfl⟩

theorem works_runTasks (ho : s.isOpen) (h : Host) : Works s h h.runTasks.2 := by
  have hperform (h : Host) (d : Dialog) : Works s h (h.perform d) := by
    unfold perform
    split
    · exact .single (.message ho)
    · exact .single (.other ho rfl rfl rfl rfl rfl)
  have htake : Works s h { h with tasks := h.tasks.runPending.2 } :=
    .single (.other ho rfl rfl rfl rfl rfl)
  exact htake.trans (works_foldl _ _ fun h d _ => hperform h d)

/-- Calls from outside have no use for threads, terminals or transcripts. -/
theorem works_on {x : Change} (ho : s.isOpen) (hx : x.IsCall) (h : Host) : Works s h (x.on h) := by
  have hreach := s.reaches_of_open ho
  have hother {h' : Host} (hs : h'.setup = h.setup) (hc : h'.computers = h.computers)
      (ht : h'.threads = h.threads) (hterminals : h'.terminals = h.terminals)
      (hj : h'.journal = h.journal) : Works s h h' := .single (.other ho hs hc ht hterminals hj)
  cases x with
  | queue w e => exact works_queueEvent (hreach w) h e
  | shutdown w => exact works_shutdown (hreach w) h
  | reboot w => exact works_reboot (hreach w) h
  | setLabel w | addFinalizer w => exact works_modify (hreach w) (fun _ => by exact ⟨rfl, rfl⟩) h
  | startTimer w ms => exact works_startTimer (hreach w) h ms
  | cancelTimer w id => exact works_cancelTimer (hreach w) (s.timers_of_open ho id) h
  | debounce w ms e => exact works_debounce (hreach w) (fun id _ => s.timers_of_open ho id) ms e
  | sweep => exact hother rfl rfl rfl rfl rfl
  | resolve =>
    show Works s h (h.resolveDue?.getD h)
    cases hr : h.resolveDue? with
    | none => exact .refl
    | some h' => exact works_resolveDue? ho hr
  | fire =>
    show Works s h (h.fire?.getD h)
    cases hf : h.fire? with
    | none => exact .refl
    | some h' => exact works_fire? ho hf
  | spawn id isDebugger => exact works_spawn ho h id isDebugger
  | supply name p => exact works_ite (fun _ => .refl) fun _ => hother rfl rfl rfl rfl rfl
  | attach w side name => exact works_attach (hreach w) (s.names_of_open ho name) h side
  | detach w side => exact works_detach (hreach w) fun name _ => s.names_of_open ho name
  | turnOn link =>
    show Works s h (h.turnOn link)
    unfold turnOn
    split
    · exact works_ite (fun _ => works_callLink ho ..) fun _ => .refl
    · exact .refl
  | connect w name => exact works_update (hreach w) (fun _ => by exact ⟨rfl, rfl⟩) h 0
  | disconnect w id => exact works_closeConnection (hreach w) h id
  | disconnectAll w => exact works_closeConnections (hreach w) h
  | setQueue | beginBoot | finish | teardown => cases hx

/-- Everything but the ends of boots, or everything if libraries may be told. -/
theorem works_of_passes {mover : Option Handle} {leaves : Prop}
    (hl : leaves ∨ ∀ who, mover = some who →
      ∀ session ending, h.stage? who ≠ some (.leaving session ending))
    (hp : Passes h mover h') : Works (.all mover True leaves) h h' := by
  have hopen : (Scope.all mover True leaves).isOpen := trivial
  cases hp with
  | call hx => exact works_on hopen hx h
  | step hs =>
    cases mover with
    | some w => exact works_of_step (hl.imp_right fun hno => hno w rfl) hs
    | none =>
      cases hs with
      | passes => exact .single (.other hopen rfl rfl rfl rfl rfl)
      | runsTasks => exact works_runTasks hopen h
      | resolves hr => exact works_resolveDue? hopen hr
      | fires hf => exact works_fire? hopen hf
      | broadcasts e => exact works_foldl _ _ fun h w _ => works_queueEvent trivial h e
      | shutsAllDown => exact works_foldl _ _ fun h w _ => works_shutdown trivial h
      | sweeps => exact works_on hopen (x := .sweep) trivial h
      | queues w e => exact works_queueEvent trivial h e
      | shutsDown w => exact works_shutdown trivial h
      | reboots w => exact works_reboot trivial h
      | spawns id isDebugger => exact works_spawn hopen h id isDebugger
      | attaches w side name => exact works_attach trivial trivial h side
      | detaches w side => exact works_detach trivial fun _ _ => trivial
      | startsTimer w ms => exact works_startTimer trivial h ms
      | cancelsTimer w id => exact works_cancelTimer trivial trivial h
      | debounces w ms e => exact works_debounce trivial (fun _ _ => trivial) ms e

end

end Host

end ComputerHost
