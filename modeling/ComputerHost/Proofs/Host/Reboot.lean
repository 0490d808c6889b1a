import Mathlib.Algebra.Ring.Nat
import ComputerHost.Proofs.Host.Course
import ComputerHost.Proofs.Host.Roster

/-!
# Shutdown and reboot

A computer that was asked to stop never runs again, and a request to reboot leads to one more boot, however
many there are. `Pending` says that such a request has been made and not been met: the thread is on
its way to the next boot, and `distance` is how many moves it takes at most outside its program.

Results:
1. `runAll_stopped`, `runAll_rebooted`: what requests make of a run state.
2. `Occurs.declines`: a computer that was asked to stop does not resume its program.
3. `Occurs.settled`: without a request there is no further boot.
4. `pending_of_request`, `Occurs.pending`: a request brings the thread closer to a boot with each move.
5. `stop_final_reboot_once`: all of this, along any course.
-/

namespace ComputerHost

/-- Is a boot under way whose program has not ended? -/
def Stage.isLive : Stage → Bool
  | .booting _ _ | .resuming _ _ _ | .executing _ _ _ | .held _ _ _ _ _ | .suspended _ _ _
  | .waiting _ _ _ _ => true
  | _ => false

/-- Has the program control, or a device on its behalf? -/
def Stage.isBusy : Stage → Bool
  | .executing _ _ _ | .held _ _ _ _ _ => true
  | _ => false

/-- Can another boot follow? -/
def Stage.comesBack : Stage → Bool
  | .betweenBoots | .leaving _ .ordinary | .ended .ordinary => true
  | stage => stage.isLive

/-- How many moves lead from a stage to the next boot at most, with so many events in the queue. The moves
of a program do not count. -/
def Stage.distance (queued : Nat) : Stage → Nat
  | .ended _ => 1
  | .leaving _ _ => 2
  | .resuming _ _ _ | .suspended _ _ _ => 3
  | .executing _ _ _ | .held _ _ _ _ _ => 4
  | .waiting _ _ _ _ => queued + 4
  | .booting todo _ => todo.length + 4
  | .betweenBoots | .stopping | .tearingDown _ | .gone => 0

theorem Stage.distance_le (stage : Stage) (n n' : Nat) :
    stage.distance n' ≤ stage.distance n + (n' - n) := by
  cases stage with
  | waiting => simp only [distance]; omega
  | _ => simp [distance]

namespace Host

def distance (h : Host) (who : Handle) : Nat :=
  ((h.stage? who).map (·.distance (h.queue who).length)).getD 0

def isBusy (h : Host) (who : Handle) : Bool := ((h.stage? who).map (·.isBusy)).getD false

/-- A reboot was asked for, and the thread can still come to it. -/
structure Pending (who : Handle) (h : Host) : Prop where
  state : h.runState? who = some .rebooting
  stage : ∃ stage, h.stage? who = some stage ∧ stage.comesBack = true

namespace Occurrence

/-- A boot of the computer begins. -/
def Boots (who : Handle) (o : Occurrence) : Prop := .beginBoot who ∈ o.changes

/-- Somebody asks for a reboot while a boot is under way. -/
def Requests (who : Handle) (o : Occurrence) : Prop :=
  .reboot who ∈ o.changes ∧ ∃ stage, o.before.stage? who = some stage ∧ stage.isLive = true

/-- The boot fails, or its program panics. -/
def Breaks (who : Handle) (o : Occurrence) : Prop :=
  o.mover = some who ∧
    ∃ session ending, o.after.stage? who = some (.leaving session ending) ∧ ending ≠ .ordinary

/-- The thread makes a move that is not one of its program. -/
def moves (who : Handle) (o : Occurrence) : Bool := o.mover == some who && !o.before.isBusy who

/-- How many events others have queued. -/
def arrived (who : Handle) (o : Occurrence) : Nat :=
  if o.mover = some who then 0 else (o.after.queue who).length - (o.before.queue who).length

end Occurrence

/-- Nobody asks the computer to stop, and no boot of it fails or panics. -/
def Undisturbed (who : Handle) (trace : List Occurrence) : Prop :=
  ∀ o ∈ trace, .shutdown who ∉ o.changes ∧ ¬o.Breaks who

end Host

/-! ## 1. Run states -/

namespace Change

section
variable {who : Handle} {xs : List Change} {s : RunState}

theorem runAll_of {P : RunState → Prop} (hruns : ∀ x ∈ xs, ∀ s, P s → P (x.runs who s)) (hs : P s) :
    P (runAll who xs s) := by
  induction xs generalizing s with
  | nil => exact hs
  | cons x rest ih =>
    exact ih (fun y hy => hruns y (List.mem_cons_of_mem x hy)) (hruns x List.mem_cons_self s hs)

/-- What a change makes of a run state, if it is one of those that matter. -/
theorem runs_cases (x : Change) (who : Handle) (s : RunState) :
    (x = .shutdown who ∧ x.runs who s = .stopped) ∨ (x = .reboot who ∧ x.runs who s = s.reboot) ∨
      (x = .beginBoot who ∧ x.runs who s = s.beginBoot) ∨
      (x = .finish who ∧ x.runs who s = s.finish) ∨ x.runs who s = s := by
  cases x with
  | shutdown w | reboot w | beginBoot w | finish w =>
    by_cases hw : w = who
    · subst hw
      simp [runs]
    · simp [runs, hw]
  | _ => simp [runs]

theorem runAll_stopped (who : Handle) (xs : List Change) : runAll who xs .stopped = .stopped := by
  refine runAll_of (P := (· = .stopped)) (fun x _ s hs => ?_) rfl
  subst hs
  rcases x.runs_cases who .stopped with ⟨-, h⟩ | ⟨-, h⟩ | ⟨-, h⟩ | ⟨-, h⟩ | h <;> exact h

theorem runAll_of_shutdown (hx : .shutdown who ∈ xs) (s : RunState) : runAll who xs s = .stopped := by
  obtain ⟨past, later, rfl⟩ := List.append_of_mem hx
  rw [runAll_append]
  have hstop : runAll who (.shutdown who :: later) (runAll who past s) =
      runAll who later .stopped := by
    simp [runAll, runs]
  rw [hstop, runAll_stopped]

theorem runAll_ne_rebooting (hx : .reboot who ∉ xs) (hs : s ≠ .rebooting) :
    runAll who xs s ≠ .rebooting := by
  refine runAll_of (P := (· ≠ .rebooting)) (fun x hmem s hs => ?_) hs
  rcases x.runs_cases who s with ⟨-, h⟩ | ⟨rfl, -⟩ | ⟨-, h⟩ | ⟨-, h⟩ | h
  · rw [h]
    decide
  · exact absurd hmem hx
  · rw [h]
    cases s <;> decide
  · rw [h]
    cases s with
    | rebooting => exact absurd rfl hs
    | stopped | running => decide
  · rwa [h]

theorem runAll_ne_stopped (hshutdown : .shutdown who ∉ xs) (hfinish : .finish who ∉ xs)
    (hs : s ≠ .stopped) : runAll who xs s ≠ .stopped := by
  refine runAll_of (P := (· ≠ .stopped)) (fun x hmem s hs => ?_) hs
  rcases x.runs_cases who s with ⟨rfl, -⟩ | ⟨-, h⟩ | ⟨-, h⟩ | ⟨rfl, -⟩ | h
  · exact absurd hmem hshutdown
  · rw [h]
    cases s with
    | stopped => exact absurd rfl hs
    | running | rebooting => decide
  · rw [h]
    cases s with
    | stopped => exact absurd rfl hs
    | running | rebooting => decide
  · exact absurd hmem hfinish
  · rwa [h]

theorem runAll_rebooting (hshutdown : .shutdown who ∉ xs) (hbegin : .beginBoot who ∉ xs) :
    runAll who xs .rebooting = .rebooting := by
  refine runAll_of (P := (· = .rebooting)) (fun x hmem s hs => ?_) rfl
  subst hs
  rcases x.runs_cases who .rebooting with ⟨rfl, -⟩ | ⟨-, h⟩ | ⟨rfl, -⟩ | ⟨-, h⟩ | h
  · exact absurd hmem hshutdown
  · exact h
  · exact absurd hmem hbegin
  · exact h
  · exact h

theorem runAll_rebooted (hx : .reboot who ∈ xs) (hshutdown : .shutdown who ∉ xs)
    (hbegin : .beginBoot who ∉ xs) (hfinish : .finish who ∉ xs) (hs : s ≠ .stopped) :
    runAll who xs s = .rebooting := by
  obtain ⟨past, later, rfl⟩ := List.append_of_mem hx
  simp only [List.mem_append, List.mem_cons, not_or] at hshutdown hbegin hfinish
  have hpast := runAll_ne_stopped hshutdown.1 hfinish.1 hs
  have hreboot : runAll who (.reboot who :: later) (runAll who past s) =
      runAll who later .rebooting := by
    cases hr : runAll who past s with
    | stopped => exact absurd hr hpast
    | running | rebooting => simp [runAll, runs, RunState.reboot]
  rw [runAll_append, hreboot, runAll_rebooting hshutdown.2.2 hbegin.2.2]

end

end Change

namespace Host

section
variable {who : Handle} {h h' h₀ : Host} {mover : Option Handle} {xs changes : List Change}
  {stage stage' : Stage} {trace : List Occurrence}

theorem isSome_of_runState? {s : RunState} (hr : h.runState? who = some s) :
    (h.computer? who).isSome = true := by
  obtain ⟨c, hc, -⟩ := Option.map_eq_some_iff.mp hr
  rw [hc]
  rfl

theorem runState?_of_comes_of {s : RunState} (hc : Comes h xs h') (hr : h.runState? who = some s) :
    h'.runState? who = some (Change.runAll who xs s) := by
  rw [runState?_of_comes hc (isSome_of_runState? hr), hr]
  rfl

/-! ## 2. Shutdown -/

theorem stopped_of_comes (hc : Comes h xs h') (hr : h.runState? who = some .stopped) :
    h'.runState? who = some .stopped := by
  rw [runState?_of_comes_of hc hr, Change.runAll_stopped]

theorem stopped_of_shutdown (hc : Comes h xs h') (hsome : (h.computer? who).isSome = true)
    (hx : .shutdown who ∈ xs) : h'.runState? who = some .stopped := by
  obtain ⟨s, hs⟩ : ∃ s, h.runState? who = some s := by
    obtain ⟨c, hcomputer⟩ := Option.isSome_iff_exists.mp hsome
    exact ⟨c.runState, by rw [runState?, hcomputer]; rfl⟩
  rw [runState?_of_comes_of hc hs, Change.runAll_of_shutdown hx]

theorem not_mem_of_isRequest {x : Change} {asked : List Change}
    (hasked : ∀ y ∈ asked, IsRequest who y) (hx : ¬x.IsCall) : x ∉ asked :=
  fun hmem => hx (hasked x hmem).isCall

/-- What begins a boot. -/
theorem Leads.of_beginBoot (hl : Leads who h stage changes stage') (hx : .beginBoot who ∈ changes) :
    stage = .betweenBoots ∧ changes = [.beginBoot who] ∧
      (∃ state, h.runState? who = some state ∧ state ≠ .stopped) ∧
      ∃ todo, stage' = .booting todo none := by
  cases hl with
  | begins hstate hne => exact ⟨rfl, rfl, ⟨_, hstate, hne⟩, _, rfl⟩
  | runs _ hasked hy =>
    rcases List.mem_append.mp hx with hx | hx
    · exact absurd hx (not_mem_of_isRequest hasked not_false)
    · cases hy <;> simp at hx
  | _ => simp at hx

theorem Occurs.of_beginBoot (ho : Occurs who h mover changes h') (hx : .beginBoot who ∈ changes) :
    mover = some who ∧ h.stage? who = some .betweenBoots ∧ changes = [.beginBoot who] ∧
      h.runState? who ≠ some .stopped ∧ h'.runState? who = some .running ∧
      ∃ todo, h'.stage? who = some (.booting todo none) := by
  by_cases hm : mover = some who
  · subst hm
    obtain ⟨stage, stage', hs, hl, hc, hs'⟩ := ho.makes
    obtain ⟨rfl, rfl, ⟨state, hstate, hne⟩, todo, rfl⟩ := hl.of_beginBoot hx
    refine ⟨rfl, hs, rfl, ?_, ?_, todo, hs'⟩
    · rw [hstate]
      exact fun heq => hne (Option.some.inj heq)
    · rw [runState?_of_comes_of hc hstate]
      cases state with
      | stopped => exact absurd rfl hne
      | running | rebooting => simp [Change.runAll, Change.runs, RunState.beginBoot]
  · exact absurd rfl ((ho.foreign hm).1 _ hx)

/-- A computer that does not run does not resume its program. -/
theorem Occurs.declines {session : Session} {args : List Value} {warned : Bool}
    (ho : Occurs who h (some who) changes h')
    (hs : h.stage? who = some (.resuming session args warned))
    (hr : h.runState? who = some .stopped) :
    changes = [] ∧ h'.stage? who = some (.leaving (some session) .ordinary) := by
  obtain ⟨stage, stage', hs₁, hl, -, hs'⟩ := ho.makes
  obtain rfl := Option.some.inj (hs.symm.trans hs₁)
  cases hl with
  | declines => exact ⟨rfl, hs'⟩
  | runs hin =>
    cases hin with
    | resuming hrun =>
      rw [isRunning_iff.mp hrun] at hr
      cases hr

/-! ## 3. The last boot -/

/-- Nothing leads to a further boot. -/
def Settled (who : Handle) (h : Host) : Prop :=
  h.runState? who ≠ some .rebooting ∧ h.stage? who ≠ some .betweenBoots

theorem Occurs.settled (ho : Occurs who h mover changes h') (hsettled : Settled who h)
    (hsome : (h.computer? who).isSome = true) (hstage : (h.stage? who).isSome = true)
    (hx : .reboot who ∉ changes) : Settled who h' ∧ (h'.stage? who).isSome = true := by
  obtain ⟨stage, hs⟩ := Option.isSome_iff_exists.mp hstage
  have hstate : h'.runState? who ≠ some .rebooting := by
    rw [runState?_of_comes ho.comes hsome]
    intro heq
    obtain ⟨s, hs, hr⟩ := Option.map_eq_some_iff.mp heq
    exact Change.runAll_ne_rebooting hx (fun hs' => hsettled.1 (hs' ▸ hs)) hr
  by_cases hm : mover = some who
  · subst hm
    obtain ⟨stage, stage', hs, hl, -, hs'⟩ := ho.makes
    refine ⟨⟨hstate, fun hbetween => ?_⟩, by rw [hs']; rfl⟩
    obtain rfl := Option.some.inj (hs'.symm.trans hbetween)
    cases hl with
    | goesOn hreboot => exact hsettled.1 hreboot
    | runs _ _ hy =>
      cases hy with
      | goesOn hprogram => cases hprogram
  · have hkeep := (ho.foreign hm).2.stage stage hs
    refine ⟨⟨hstate, ?_⟩, by rw [hkeep]; rfl⟩
    rw [hkeep, ← hs]
    exact hsettled.2

/-! ## 4. The way to the next boot -/

/-- The steps of a thread that can still come to a reboot. -/
theorem Leads.pending (hl : Leads who h stage changes stage') (hr : h.runState? who = some .rebooting)
    (hback : stage.comesBack = true) (hshutdown : .shutdown who ∉ changes)
    (hbegin : .beginBoot who ∉ changes)
    (hbreak : ∀ session ending, stage' = .leaving session ending → ending = .ordinary) :
    stage'.comesBack = true ∧
      ((stage.isBusy = true ∧ ∀ n n', stage'.distance n' ≤ stage.distance n) ∨
        (stage.isBusy = false ∧ ∀ n n', stage'.distance n' < stage.distance n) ∨
        (stage' = stage ∧ (∀ n, stage.distance n = n + 4) ∧
          ∃ e rest, h.queue who = e :: rest ∧ changes = [.setQueue who rest])) := by
  have hrunning : h.isRunning who ≠ true := by
    rw [Ne, isRunning_iff, hr]
    simp
  -- Outside its program each move but the dropping of an event brings the stage closer.
  cases hl with
  | begins => exact absurd List.mem_cons_self hbegin
  | refuses hstopped => cases hstopped _ hr
  | clears | prepares | enters | lacksState | takes | interrupted | warns | declines | quits | goesOn =>
    exact ⟨rfl, .inr (.inl ⟨rfl, fun _ _ => by simp [Stage.distance]⟩)⟩
  | bootFails => cases hbreak _ _ rfl
  | suspends hrun => exact absurd hrun hrunning
  | drops hq => exact ⟨rfl, .inr (.inr ⟨rfl, fun _ => rfl, _, _, hq, rfl⟩)⟩
  | givesUp => exact absurd List.mem_cons_self hshutdown
  | @leaves _ ending | @leavesNothing ending =>
    cases ending with
    | ordinary => exact ⟨rfl, .inr (.inl ⟨rfl, fun _ _ => by simp [Stage.distance]⟩)⟩
    | failed | panicked => cases hback
  | isOver hover => exact absurd hr hover
  | failed | panicked | windsUp | tearsDown | isDone => cases hback
  | runs hin _ hy =>
    have hbusy : stage.isBusy = true ∧ ∀ n, stage.distance n = 4 := by
      cases hin with
      | resuming hrun => exact absurd hrun hrunning
      | executing | held => exact ⟨rfl, fun _ => rfl⟩
    cases hy with
    | @goesOn stage' hprogram =>
      cases stage' with
      | executing | held | suspended =>
        refine ⟨rfl, .inl ⟨hbusy.1, fun n _ => ?_⟩⟩
        rw [hbusy.2 n]
        simp [Stage.distance]
      | _ => cases hprogram
    | ends =>
      refine ⟨rfl, .inl ⟨hbusy.1, fun n _ => ?_⟩⟩
      rw [hbusy.2 n]
      simp [Stage.distance]
    | panics => cases hbreak _ _ rfl

theorem distance_of_stage (hs : h.stage? who = some stage) :
    h.distance who = stage.distance (h.queue who).length := by
  unfold distance
  rw [hs]
  rfl

theorem isBusy_of_stage (hs : h.stage? who = some stage) : h.isBusy who = stage.isBusy := by
  unfold isBusy
  rw [hs]
  rfl

/-- Each occurrence leaves the thread on its way. A move outside its program brings it closer, and what
others do leads it back by the events that they queue. -/
theorem Pending.after {o : Occurrence} (ho : Occurs who o.before o.mover o.changes o.after)
    (hp : Pending who o.before) (hshutdown : .shutdown who ∉ o.changes) (hbreak : ¬o.Breaks who)
    (hbegin : ¬o.Boots who) :
    Pending who o.after ∧ (if o.moves who then 1 else 0) + o.after.distance who ≤
      o.before.distance who + o.arrived who := by
  obtain ⟨stage, hs, hback⟩ := hp.stage
  have hstate : o.after.runState? who = some .rebooting := by
    rw [runState?_of_comes_of ho.comes hp.state, Change.runAll_rebooting hshutdown hbegin]
  rw [distance_of_stage hs]
  by_cases hm : o.mover = some who
  -- A move of its own: nothing arrives, and the stage tells how far it has come.
  · have hown : o.arrived who = 0 := if_pos hm
    have hmoves : o.moves who = !stage.isBusy := by
      rw [Occurrence.moves, isBusy_of_stage hs, hm]
      simp
    obtain ⟨stage₁, stage', hs₁, hl, hc, hs'⟩ := (hm ▸ ho).makes
    obtain rfl := Option.some.inj (hs.symm.trans hs₁)
    obtain ⟨hback', hcases⟩ := hl.pending hp.state hback hshutdown hbegin fun session ending heq =>
      Decidable.byContradiction fun hne => hbreak ⟨hm, session, ending, heq ▸ hs', hne⟩
    refine ⟨⟨hstate, stage', hs', hback'⟩, ?_⟩
    rw [distance_of_stage hs', hmoves, hown]
    rcases hcases with ⟨hbusy, hle⟩ | ⟨hbusy, hlt⟩ | ⟨rfl, hdistance, e, rest, hq, hchanges⟩
    · simpa [hbusy] using hle _ _
    · have := hlt (o.before.queue who).length (o.after.queue who).length
      simp [hbusy]
      omega
    · have hqueue : o.after.queue who = rest := by
        rw [hchanges] at hc
        obtain ⟨h₁, hq₁, hq₂⟩ := hc.single
        have hsome := hq₁.known who (isSome_of_runState? hp.state)
        exact (hq₂.agrees (.events who) not_false).trans
          (queue_setQueue hsome rest)
      rw [hdistance, hdistance, hqueue, hq, List.length_cons]
      split <;> omega
  -- A move of somebody else leaves the stage, and each event that it queues may cost one move.
  · obtain ⟨-, hkeeps⟩ := ho.foreign hm
    have hs' := hkeeps.stage stage hs
    have hmoves : o.moves who = false := by
      simp [Occurrence.moves, hm]
    have harrived : o.arrived who = (o.after.queue who).length - (o.before.queue who).length :=
      if_neg hm
    refine ⟨⟨hstate, stage, hs', hback⟩, ?_⟩
    rw [distance_of_stage hs', hmoves, harrived]
    simpa using stage.distance_le (o.before.queue who).length (o.after.queue who).length

theorem Pending.course (hp : Pending who h) (hc : Course who h trace h')
    (hundisturbed : Undisturbed who trace) (hbegin : ∀ o ∈ trace, ¬o.Boots who) :
    Pending who h' ∧ trace.countP (·.moves who) + h'.distance who ≤
      h.distance who + (trace.map (·.arrived who)).sum := by
  induction hc with
  | refl => exact ⟨hp, by simp⟩
  | @snoc past h₁ h₂ mover changes _ ho ih =>
    simp only [Undisturbed, List.forall_mem_append, List.forall_mem_singleton] at hundisturbed hbegin
    obtain ⟨hp₁, hle⟩ := ih hundisturbed.1 hbegin.1
    obtain ⟨hp₂, hstep⟩ := Pending.after (o := ⟨h₁, mover, changes, h₂⟩) ho hp₁ hundisturbed.2.1
      hundisturbed.2.2 hbegin.2
    refine ⟨hp₂, ?_⟩
    simp only [List.countP_append, List.countP_singleton, List.map_append, List.sum_append,
      List.map_singleton, List.sum_singleton]
    dsimp only at hstep
    omega

/-- The thread can move, unless its program has control. -/
theorem Pending.can_move (hp : Pending who h) (hbusy : h.isBusy who = false) :
    (h.move? who).isSome = true := by
  obtain ⟨stage, hs, hback⟩ := hp.stage
  rw [isBusy_of_stage hs] at hbusy
  unfold move?
  simp only [hs]
  cases stage with
  | executing | held => cases hbusy
  | gone => cases hback
  | booting todo session =>
    cases todo with
    | nil => rfl
    | cons step todo =>
      dsimp only
      split <;> rfl
  | waiting session filter deadline warned =>
    obtain ⟨c, hc, hr⟩ := Option.map_eq_some_iff.mp hp.state
    have hrun : c.isRunning = false := by
      rw [Computer.isRunning, hr]
      rfl
    unfold await
    simp only [hc, hrun]
    obtain ⟨events⟩ := c.events
    cases events with
    | nil => rfl
    | cons e rest => rfl
  | tearingDown todo =>
    cases todo <;> rfl
  | _ => rfl

/-- The computer was not asked to stop as long as its boot is under way. -/
def Upright (who : Handle) (h : Host) : Prop :=
  ∃ stage, h.stage? who = some stage ∧ (stage.isLive = true → ∃ state, h.runState? who = some state ∧
    state ≠ .stopped)

/-- How a thread comes to a stage of a boot. -/
theorem Leads.live (hl : Leads who h stage changes stage') (hlive : stage'.isLive = true) :
    .beginBoot who ∈ changes ∨ stage.isLive = true ∧ .finish who ∉ changes := by
  cases hl with
  | begins => exact .inl List.mem_cons_self
  | runs hin hasked hy =>
    have hlive : stage.isLive = true := by cases hin <;> rfl
    refine .inr ⟨hlive, ?_⟩
    cases hy with
    | goesOn =>
      rw [List.append_nil]
      exact not_mem_of_isRequest hasked not_false
    | ends | panics => cases hlive
  | clears | prepares | enters | suspends | takes | drops | warns | givesUp => exact .inr ⟨rfl, by simp⟩
  | _ => cases hlive

theorem Occurs.upright (ho : Occurs who h mover changes h') (hu : Upright who h)
    (hshutdown : .shutdown who ∉ changes) : Upright who h' := by
  obtain ⟨stage, hs, hstate⟩ := hu
  have hafter (hlive : stage.isLive = true) (hfinish : .finish who ∉ changes) :
      ∃ state, h'.runState? who = some state ∧ state ≠ .stopped := by
    obtain ⟨state, hr, hne⟩ := hstate hlive
    exact ⟨_, runState?_of_comes_of ho.comes hr, Change.runAll_ne_stopped hshutdown hfinish hne⟩
  by_cases hm : mover = some who
  · subst hm
    obtain ⟨stage₁, stage', hs₁, hl, -, hs'⟩ := ho.makes
    obtain rfl := Option.some.inj (hs.symm.trans hs₁)
    refine ⟨stage', hs', fun hlive => ?_⟩
    rcases hl.live hlive with hbegin | ⟨hlive, hfinish⟩
    · obtain ⟨-, -, -, -, hrunning, -⟩ := ho.of_beginBoot hbegin
      exact ⟨_, hrunning, by simp⟩
    · exact hafter hlive hfinish
  · obtain ⟨hforeign, hkeeps⟩ := ho.foreign hm
    exact ⟨stage, hkeeps.stage stage hs, fun hlive => hafter hlive fun hmem =>
      absurd rfl (hforeign _ hmem)⟩

/-- How a program asks for a reboot of its own computer. -/
theorem Leads.of_reboot (hl : Leads who h stage changes stage') (hx : .reboot who ∈ changes)
    (hshutdown : .shutdown who ∉ changes)
    (hbreak : ∀ session ending, stage' = .leaving session ending → ending = .ordinary) {s : RunState}
    (hs : s ≠ .stopped) : stage'.comesBack = true ∧ Change.runAll who changes s = .rebooting := by
  cases hl with
  | runs _ hasked hy =>
    have hasks {after : List Change} (hafter : .reboot who ∉ after)
        (hshutdown : .shutdown who ∉ _ ++ after) (hx : .reboot who ∈ _ ++ after) :=
      Change.runAll_rebooted ((List.mem_append.mp hx).resolve_right hafter)
        (fun hmem => hshutdown (List.mem_append_left _ hmem)) (not_mem_of_isRequest hasked not_false)
        (not_mem_of_isRequest hasked not_false) hs
    rw [Change.runAll_append]
    cases hy with
    | @goesOn stage' hprogram =>
      rw [hasks List.not_mem_nil hshutdown hx]
      cases stage' with
      | executing | held | suspended => exact ⟨rfl, rfl⟩
      | _ => cases hprogram
    | ends =>
      rw [hasks (by simp) hshutdown hx]
      exact ⟨rfl, Change.runAll_rebooting (by simp) (by simp)⟩
    | panics => cases hbreak _ _ rfl
  | _ => simp at hx

/-- A request for a reboot is on its way from the moment that it is made. -/
theorem pending_of_request {o : Occurrence} (ho : Occurs who o.before o.mover o.changes o.after)
    (hu : Upright who o.before) (hrequest : o.Requests who) (hshutdown : .shutdown who ∉ o.changes)
    (hbreak : ¬o.Breaks who) : Pending who o.after := by
  obtain ⟨hreboot, stage, hs, hlive⟩ := hrequest
  obtain ⟨stage₁, hs₁, hstate⟩ := hu
  obtain rfl := Option.some.inj (hs.symm.trans hs₁)
  obtain ⟨state, hr, hne⟩ := hstate hlive
  have hstate' := runState?_of_comes_of ho.comes hr
  by_cases hm : o.mover = some who
  · obtain ⟨stage₁, stage', hs₁, hl, -, hs'⟩ := (hm ▸ ho).makes
    obtain rfl := Option.some.inj (hs.symm.trans hs₁)
    obtain ⟨hback, hreboots⟩ := hl.of_reboot hreboot hshutdown (fun session ending heq =>
      Decidable.byContradiction fun hne => hbreak ⟨hm, session, ending, heq ▸ hs', hne⟩) hne
    exact ⟨hreboots ▸ hstate', stage', hs', hback⟩
  · obtain ⟨hforeign, hkeeps⟩ := ho.foreign hm
    refine ⟨?_, stage, hkeeps.stage stage hs, ?_⟩
    · rw [hstate', Change.runAll_rebooted hreboot hshutdown (fun hmem => absurd rfl (hforeign _ hmem))
        (fun hmem => absurd rfl (hforeign _ hmem)) hne]
    · cases stage <;> first | rfl | cases hlive

/-! ## 5. Courses -/

theorem Course.upright (hc : Course who h trace h') (hu : Upright who h)
    (hundisturbed : Undisturbed who trace) : Upright who h' := by
  induction hc with
  | refl => exact hu
  | snoc _ ho ih =>
    simp only [Undisturbed, List.forall_mem_append, List.forall_mem_singleton] at hundisturbed
    exact ho.upright (ih hundisturbed.1) hundisturbed.2.1

theorem Course.comes (hc : Course who h trace h') : ∃ xs, Comes h xs h' := by
  induction hc with
  | refl => exact ⟨[], Differs.comes (.refl _ h)⟩
  | snoc _ ho ih =>
    obtain ⟨xs, hpast⟩ := ih
    exact ⟨_, hpast.trans ho.comes⟩

/-- After a request to stop there are no boots, and the program is not resumed. -/
theorem Course.of_stopped (hc : Course who h trace h') (hr : h.runState? who = some .stopped) :
    h'.runState? who = some .stopped ∧
      ∀ o ∈ trace, ¬o.Boots who ∧ ∀ session args warned, o.mover = some who →
        o.before.stage? who = some (.resuming session args warned) →
        o.changes = [] ∧ o.after.stage? who = some (.leaving (some session) .ordinary) := by
  induction hc with
  | refl => exact ⟨hr, by simp⟩
  | @snoc past h₁ h₂ mover changes _ ho ih =>
    obtain ⟨hr₁, hpast⟩ := ih
    refine ⟨stopped_of_comes ho.comes hr₁, ?_⟩
    rw [List.forall_mem_append, List.forall_mem_singleton]
    refine ⟨hpast, fun hboots => ?_, fun session args warned hm hs => ?_⟩
    · obtain ⟨-, -, -, hne, -⟩ := ho.of_beginBoot hboots
      exact hne hr₁
    · dsimp only at hm
      subst hm
      exact ho.declines hs hr₁

/-- Without a request there is no further boot. -/
theorem Course.of_settled (hc : Course who h trace h') (hsettled : Settled who h)
    (hsome : (h.computer? who).isSome = true) (hstage : (h.stage? who).isSome = true)
    (hx : ∀ o ∈ trace, .reboot who ∉ o.changes) :
    (Settled who h' ∧ (h'.stage? who).isSome = true) ∧ ∀ o ∈ trace, ¬o.Boots who := by
  induction hc with
  | refl => exact ⟨⟨hsettled, hstage⟩, by simp⟩
  | @snoc past h₁ h₂ mover changes hpast ho ih =>
    rw [List.forall_mem_append, List.forall_mem_singleton] at hx
    obtain ⟨⟨hsettled₁, hstage₁⟩, hboots⟩ := ih hx.1
    refine ⟨ho.settled hsettled₁ (hpast.known hsome) hstage₁ hx.2, ?_⟩
    rw [List.forall_mem_append, List.forall_mem_singleton]
    refine ⟨hboots, fun hb => ?_⟩
    obtain ⟨-, hbetween, -⟩ := ho.of_beginBoot hb
    exact hsettled₁.2 hbetween

/-- Shutdown and reboot, along any course. From the moment that somebody asks a computer to stop it is
stopped, whatever is called; no boot begins, and where its program would be resumed the loop is left. At the
beginning of a boot the requests for a reboot are met, and without a new one it is the last boot. If there
is one while the boot is under way, and the computer is not asked to stop and the boot neither fails nor
panics, the thread comes back: it can move as long as its program has not got control, and at each
moment before the next boot it has made no more moves than its distance allowed and events arrived. -/
theorem stop_final_reboot_once (hc : Course who h₀ trace h)
    (hknown : (h₀.computer? who).isSome = true) :
    (∀ past o later, trace = past ++ o :: later → .shutdown who ∈ o.changes →
      (∀ xs h', Comes o.after xs h' → h'.runState? who = some .stopped) ∧
      h.runState? who = some .stopped ∧
      ∀ o' ∈ later, ¬o'.Boots who ∧ ∀ session args warned, o'.mover = some who →
        o'.before.stage? who = some (.resuming session args warned) →
        o'.changes = [] ∧ o'.after.stage? who = some (.leaving (some session) .ordinary)) ∧
    (∀ past o later, trace = past ++ o :: later → o.Boots who →
      o.after.runState? who = some .running ∧
      ((∀ o' ∈ later, .reboot who ∉ o'.changes) → ∀ o' ∈ later, ¬o'.Boots who)) ∧
    ∀ past o later, trace = past ++ o :: later → o.Boots who → Undisturbed who later →
      (∃ o' ∈ later, o'.Requests who) → (∀ o' ∈ later, ¬o'.Boots who) →
      Pending who h ∧
      ∀ more h', Course who h more h' → Undisturbed who more →
        (∃ o' ∈ more, o'.Boots who) ∨
        (Pending who h' ∧ (h'.isBusy who = false → (h'.move? who).isSome = true) ∧
          more.countP (·.moves who) + h'.distance who ≤
            h.distance who + (more.map (·.arrived who)).sum) := by
  refine ⟨?_, ?_, ?_⟩
  · rintro past o later rfl hshutdown
    obtain ⟨hpast, ho, hlater⟩ := hc.split
    have hstopped := stopped_of_shutdown ho.comes (hpast.known hknown) hshutdown
    obtain ⟨hend, hnone⟩ := hlater.of_stopped hstopped
    exact ⟨fun xs h' hcomes => stopped_of_comes hcomes hstopped, hend, hnone⟩
  · rintro past o later rfl hboots
    obtain ⟨hpast, ho, hlater⟩ := hc.split
    obtain ⟨-, -, -, -, hrunning, todo, hs⟩ := ho.of_beginBoot hboots
    refine ⟨hrunning, fun hnone => (hlater.of_settled ⟨?_, ?_⟩ ?_ ?_ hnone).2⟩
    · simp [hrunning]
    · simp [hs]
    · exact isSome_of_runState? hrunning
    · simp [hs]
  · rintro past o later rfl hboots hundisturbed ⟨o', hmem, hrequest⟩ hnone
    obtain ⟨-, ho, hlater⟩ := hc.split
    obtain ⟨-, -, -, -, hrunning, todo, hs⟩ := ho.of_beginBoot hboots
    have hupright : Upright who o.after := ⟨_, hs, fun _ => ⟨_, hrunning, by simp⟩⟩
    obtain ⟨before, after, rfl⟩ := List.append_of_mem hmem
    simp only [Undisturbed, List.forall_mem_append, List.forall_mem_cons] at hundisturbed hnone
    obtain ⟨hbefore, ho', hafter⟩ := hlater.split
    have hpending := pending_of_request ho' (hbefore.upright hupright hundisturbed.1) hrequest
      hundisturbed.2.1.1 hundisturbed.2.1.2
    have hp := (hpending.course hafter hundisturbed.2.2 hnone.2.2).1
    refine ⟨hp, fun more h' hmore hmoreUndisturbed => ?_⟩
    by_cases hboots : ∃ o' ∈ more, o'.Boots who
    · exact .inl hboots
    · obtain ⟨hp', hle⟩ := hp.course hmore hmoreUndisturbed fun o' hmem hb => hboots ⟨o', hmem, hb⟩
      exact .inr ⟨hp', hp'.can_move, hle⟩

end

def restarted : Handle := ⟨7, 1⟩

/-- A computer whose first boot has begun. -/
def firstBoot : Host := (spawning.spawn 7 false).2.beginBoot restarted

/-- Two requests during a boot lead to another one, and a request to stop after them to none. -/
theorem stop_final_reboot_once_spawning :
    let asked := (firstBoot.modify restarted Computer.reboot).modify restarted Computer.reboot
    (∀ more h', Course restarted asked more h' → Undisturbed restarted more →
      (more.map (·.arrived restarted)).sum = 0 →
      asked.distance restarted < more.countP (·.moves restarted) →
      ∃ o ∈ more, o.Boots restarted) ∧
    ∀ more h', Course restarted (asked.modify restarted Computer.shutdown) more h' →
      ∀ o ∈ more, ¬o.Boots restarted := by
  intro asked
  have hspawned : (spawning.spawn 7 false).2.stage? restarted = some .betweenBoots := by rfl
  have hrunning : (spawning.spawn 7 false).2.runState? restarted = some .running := by
    decide +kernel
  have hknown := isSome_of_runState? hrunning
  have hbegin : Occurs restarted _ _ _ firstBoot :=
    .own (makes_beginBoot_of_ne hspawned hrunning (by decide))
  have hasked : Course restarted _ _ asked :=
    .snoc (.snoc (.snoc .refl hbegin) (.called (x := .reboot restarted) trivial))
      (.called (x := .reboot restarted) trivial)
  constructor
  · intro more h' hmore hundisturbed harrived hmoves
    obtain ⟨-, -, honce⟩ := stop_final_reboot_once hasked hknown
    obtain ⟨-, -, -, -, -, todo, hlive⟩ := hbegin.of_beginBoot List.mem_cons_self
    obtain ⟨-, hafter⟩ := honce [] _ [_, _] rfl List.mem_cons_self
      (by simp [Undisturbed, Occurrence.Breaks])
      ⟨_, List.mem_cons_self, List.mem_cons_self, _, hlive, rfl⟩ (by simp [Occurrence.Boots])
    rcases hafter more h' hmore hundisturbed with hboots | ⟨-, -, hle⟩
    · exact hboots
    · omega
  · intro more h' hmore o ho
    have hstop := Course.snoc hasked (Occurs.called (x := .shutdown restarted) trivial)
    obtain ⟨hfinal, -, -⟩ := stop_final_reboot_once (hstop.trans hmore) hknown
    obtain ⟨-, -, hnone⟩ := hfinal [_, _, _] _ more rfl List.mem_cons_self
    exact (hnone o ho).1

end Host

end ComputerHost
