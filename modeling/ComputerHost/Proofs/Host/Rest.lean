import ComputerHost.Proofs.Host.TerminalFate
import ComputerHost.Proofs.Table

/-!
# A host that is left to itself

A host that nobody calls goes on while there is something to do, and then lets time pass up to the next
moment at which something happens by itself. The functions that run it make so many steps at most;
`ComesToRest` and `ComesToStop` say where it comes when there are enough of them.

A host that has stopped is one whose registry is empty, and then there is nothing left to wait for: a thread
that has not taken its computer out of the registry finds it there (`Enrolled`), and one that has goes
through the rest of its teardown without waiting for anything.

Results:
1. `waitUntil_of_comesToStop`: enough steps.
2. `step_of_tick?`, `passes_of_step?`, `ComesToStop.induct`: what a host does by itself is something that
   may happen to it.
3. `runTasks_eq`: what tasks leave alone.
4. `enrolled_of_step`, `enrolled_of_passes`: the invariant, whatever happens.
5. `gone_at_rest`, `joinAll_at_rest`: a host that has stopped.
-/

namespace ComputerHost

namespace Host

/-- The host goes on until nothing is left to do without the passing of time. -/
inductive ComesToRest : Host → Host → Prop
  | rests {h : Host} : h.step? = none → ComesToRest h h
  | goesOn {h h₁ h' : Host} : h.step? = some h₁ → ComesToRest h₁ h' → ComesToRest h h'

/-- The host lets time pass until it is at rest and no computer is registered. -/
inductive ComesToStop : Host → Host → Prop
  | stops {h h' : Host} : ComesToRest h h' → h'.registry.isEmpty = true → ComesToStop h h'
  | waits {h h₁ h' : Host} {moment : Nat} : ComesToRest h h₁ → h₁.registry.isEmpty = false →
      h₁.nextMoment? = some moment → ComesToStop { h₁ with clock := moment } h' → ComesToStop h h'

/-- Every computer has one thread at most, and it is registered until its thread takes it out of the
registry. -/
structure Enrolled (h : Host) : Prop where
  nodup : (h.threads.map (·.1)).Nodup
  registered : ∀ {w stage}, h.stage? w = some stage → stage.isListed = true → w ∈ h.registry.registered

/-- The hosts have the same threads at the same stages, and the same computers are registered. -/
structure SameRoll (h h' : Host) : Prop where
  threads : h'.threads = h.threads
  registered : h'.registry.registered = h.registry.registered

section
variable {who w : Handle} {h h' h₁ : Host} {stage stage' : Stage} {mover : Option Handle}

/-! ## 1. Enough steps -/

theorem settle_at_rest (hrest : h.step? = none) (fuel : Nat) : h.settle fuel = h := by
  cases fuel with
  | zero => rfl
  | succ fuel =>
    unfold settle
    rw [hrest]

theorem settle_of_comesToRest (hr : ComesToRest h h') : ∃ n, ∀ fuel ≥ n, h.settle fuel = h' := by
  induction hr with
  | rests hrest => exact ⟨0, fun fuel _ => settle_at_rest hrest fuel⟩
  | goesOn hstep _ ih =>
    obtain ⟨n, hn⟩ := ih
    refine ⟨n + 1, fun fuel hfuel => ?_⟩
    obtain ⟨fuel, rfl⟩ := Nat.exists_eq_succ_of_ne_zero (Nat.ne_of_gt (Nat.lt_of_lt_of_le n.succ_pos hfuel))
    unfold settle
    rw [hstep]
    exact hn fuel (Nat.le_of_succ_le_succ hfuel)

theorem ComesToRest.step? (hr : ComesToRest h h') : h'.step? = none := by
  induction hr with
  | rests hrest => exact hrest
  | goesOn _ _ ih => exact ih

/-- Steps that end at rest are all that there are. -/
theorem comesToRest_settle {fuel : Nat} (hrest : (h.settle fuel).step? = none) :
    ComesToRest h (h.settle fuel) := by
  induction fuel generalizing h with
  | zero => exact .rests hrest
  | succ fuel ih =>
    unfold settle at hrest ⊢
    cases hs : h.step? with
    | none => exact .rests hs
    | some h₁ =>
      rw [hs] at hrest
      exact .goesOn hs (ih hrest)

theorem waitUntil_of_comesToStop (hs : ComesToStop h h') :
    ∃ n, ∀ fuel ≥ n, ∀ moments ≥ n, h.waitUntil (·.registry.isEmpty) fuel moments = h' := by
  induction hs with
  | stops hr hempty =>
    obtain ⟨n, hn⟩ := settle_of_comesToRest hr
    refine ⟨n + 1, fun fuel hfuel moments hmoments => ?_⟩
    obtain ⟨moments, rfl⟩ :=
      Nat.exists_eq_succ_of_ne_zero (Nat.ne_of_gt (Nat.lt_of_lt_of_le n.succ_pos hmoments))
    unfold waitUntil
    rw [hn fuel (Nat.le_of_succ_le hfuel)]
    exact if_pos hempty
  | waits hr hnot hnext _ ih =>
    obtain ⟨n, hn⟩ := settle_of_comesToRest hr
    obtain ⟨m, hm⟩ := ih
    -- One moment is spent here, and every moment may take as many steps as any other.
    refine ⟨max n m + 1, fun fuel hfuel moments hmoments => ?_⟩
    obtain ⟨moments, rfl⟩ :=
      Nat.exists_eq_succ_of_ne_zero (Nat.ne_of_gt (Nat.lt_of_lt_of_le (max n m).succ_pos hmoments))
    unfold waitUntil
    rw [hn fuel (by omega)]
    dsimp only
    rw [if_neg (Bool.eq_false_iff.mp hnot), hnext]
    exact hm fuel (by omega) moments (by omega)

theorem ComesToStop.isEmpty (hs : ComesToStop h h') : h'.registry.isEmpty = true := by
  induction hs with
  | stops _ hempty => exact hempty
  | waits _ _ _ _ ih => exact ih

theorem ComesToStop.step? (hs : ComesToStop h h') : h'.step? = none := by
  induction hs with
  | stops hr => exact hr.step?
  | waits _ _ _ _ ih => exact ih

/-! ## 2. What a host does by itself -/

theorem moveFirst?_eq (h : Host) (whos : List Handle) : h.moveFirst? whos = whos.findSome? h.move? := by
  induction whos with
  | nil => rfl
  | cons who rest ih =>
    unfold moveFirst?
    rw [List.findSome?_cons, ih]
    cases h.move? who <;> rfl

/-- The timer thread finishes a delivery, begins one, or takes timers from the service. -/
theorem step_of_tick? (ht : h.tick? = some h') : Step h none h' := by
  unfold tick? at ht
  split at ht
  · next h₁ hf =>
    cases ht
    exact .fires hf
  · split at ht
    · next h₁ hr =>
      cases ht
      exact .resolves hr
    · split at ht
      · split at ht
        · cases ht
          exact .sweeps
        · cases ht
      · cases ht

theorem passes_of_step? (hs : h.step? = some h') : ∃ mover, Passes h mover h' := by
  unfold step? at hs
  split at hs
  · next h₁ hm =>
    cases hs
    rw [moveFirst?_eq] at hm
    obtain ⟨who, -, hmove⟩ := List.exists_of_findSome?_eq_some hm
    exact ⟨some who, .step (.moves hmove)⟩
  · exact ⟨none, .step (step_of_tick? hs)⟩

/-- What a host respects whatever happens to it, it still respects when it has stopped. -/
theorem ComesToStop.induct {P : Host → Prop} (hpasses : ∀ {h mover h'}, Passes h mover h' → P h → P h')
    (hs : ComesToStop h h') (hp : P h) : P h' := by
  have hrest {h h' : Host} (hr : ComesToRest h h') (hp : P h) : P h' := by
    induction hr with
    | rests => exact hp
    | goesOn hstep _ ih =>
      obtain ⟨mover, hpass⟩ := passes_of_step? hstep
      exact ih (hpasses hpass hp)
  induction hs with
  | stops hr => exact hrest hr hp
  | @waits _ h₁ _ moment hr _ hnext _ ih =>
    refine ih (hpasses (.step (.passes ?_)) (hrest hr hp))
    have hmem := List.min?_mem hnext
    exact Nat.le_of_lt (of_decide_eq_true (List.mem_filter.mp hmem).2)

/-! ## 3. Tasks -/

theorem foldl_perform (dialogs : List Dialog) (h : Host) : dialogs.foldl perform h =
    { h with
      terminals := (dialogs.foldl perform h).terminals, notices := (dialogs.foldl perform h).notices } := by
  induction dialogs generalizing h with
  | nil => rfl
  | cons d dialogs ih =>
    rw [List.foldl_cons]
    have hperform : h.perform d =
        { h with terminals := (h.perform d).terminals, notices := (h.perform d).notices } := by
      unfold perform
      split <;> rfl
    rw [ih, hperform]

/-- Tasks show dialogs, and leave everything else alone. -/
theorem runTasks_eq (h : Host) : h.runTasks.2 =
    { h with
      tasks := .empty, terminals := h.runTasks.2.terminals, notices := h.runTasks.2.notices } :=
  foldl_perform _ _

/-! ## 4. Who is registered -/

theorem SameRoll.stage? (hr : SameRoll h h') (who : Handle) : h'.stage? who = h.stage? who := by
  rw [Host.stage?, hr.threads, Host.stage?]

theorem SameRoll.trans (hr : SameRoll h h₁) (hr' : SameRoll h₁ h') : SameRoll h h' :=
  ⟨hr'.threads.trans hr.threads, hr'.registered.trans hr.registered⟩

theorem sameRoll_of_scene (hs : h'.scene = h.scene) : SameRoll h h' :=
  ⟨congrArg Scene.threads hs, congrArg Scene.registered hs⟩

theorem sameRoll_of_aborts (ha : Aborts h h') : SameRoll h h' := by
  rw [ha.rest]
  exact ⟨rfl, rfl⟩

theorem Announces.sameRoll (ha : Announces who h h') : SameRoll h h' := by
  cases ha <;> exact ⟨rfl, rfl⟩

theorem sameRoll_programFinished (h : Host) (who : Handle) : SameRoll h (h.programFinished who) := by
  obtain heq | ⟨n, t, -, -, heq⟩ := programFinished_cases h who <;> rw [heq] <;> exact ⟨rfl, rfl⟩

theorem sameRoll_programFailed (h : Host) (who : Handle) (e : ScriptError) :
    SameRoll h (h.programFailed who e) := by
  obtain ⟨-, heq⟩ | ⟨-, ha⟩ := programFailed_cases h who e
  · rw [heq]
    exact ⟨rfl, rfl⟩
  · obtain ⟨hthreads, hregistry⟩ := ha.sameRoll
    exact ⟨hthreads, hregistry⟩

theorem sameRoll_reportBootFailure (h : Host) (who : Handle) (e : BootError) :
    SameRoll h (h.reportBootFailure who e) :=
  (announces_reportBootFailure h who e).sameRoll

theorem sameRoll_resetTerminal (h : Host) (who : Handle) (session : Option Session) :
    SameRoll h (h.bootStep who session .resetTerminal).2 := by
  obtain ⟨-, heq⟩ | ⟨n, t, -, heq⟩ := resetTerminal_cases h who session <;> rw [heq] <;> exact ⟨rfl, rfl⟩

theorem sameRoll_releaseTerminal (h : Host) (who : Handle) : SameRoll h (h.releaseTerminal who) := by
  obtain ⟨-, heq⟩ | ⟨n, t, -, ⟨-, heq⟩ | ⟨-, heq⟩⟩ := releaseTerminal_cases h who <;> rw [heq] <;>
    exact ⟨rfl, rfl⟩

theorem Enrolled.same (he : Enrolled h) (hr : SameRoll h h') : Enrolled h' where
  nodup := hr.threads ▸ he.nodup
  registered hs hlisted := hr.registered ▸ he.registered ((hr.stage? _).symm.trans hs) hlisted

/-- A thread goes on without taking its computer out of the registry. -/
theorem Enrolled.setStage (he : Enrolled h) (hs : h.stage? who = some stage)
    (hkeep : stage'.isListed = true → stage.isListed = true) : Enrolled (h.setStage who stage') where
  nodup := by
    have hkeys : (h.setStage who stage').threads.map (·.1) = h.threads.map (·.1) := by
      unfold Host.setStage
      rw [List.map_map]
      refine List.map_congr_left fun thread _ => ?_
      obtain ⟨w, s⟩ := thread
      show (if w = who then (w, stage') else (w, s)).1 = w
      split <;> rfl
    rw [hkeys]
    exact he.nodup
  registered {w s} hw hlisted := by
    rw [stage?_setStage] at hw
    split at hw
    · next heq =>
      subst heq
      rw [hs] at hw
      cases hw
      exact he.registered hs (hkeep hlisted)
    · exact he.registered hw hlisted

theorem Enrolled.joins {terminal : Option Nat} (he : Enrolled h) (ht : Threaded h)
    (hj : Joins h h' who terminal) : Enrolled h' := by
  have hnone := hj.stage?_eq_none ht
  constructor
  · rw [hj.threads, List.map_append, List.nodup_append]
    refine ⟨he.nodup, List.nodup_singleton _, fun w hw v hv => ?_⟩
    obtain ⟨⟨_, stage⟩, hthread, rfl⟩ := List.mem_map.mp hw
    rw [List.mem_singleton.mp hv]
    rintro rfl
    cases hnone.symm.trans (lookup_of_mem he.nodup hthread)
  · intro w stage hs hlisted
    rw [hj.registered]
    rw [hj.stage? hnone] at hs
    split at hs
    · next heq => exact List.mem_append_right _ (List.mem_singleton.mpr heq)
    · exact List.mem_append_left _ (he.registered hs hlisted)

theorem enrolled_spawn (he : Enrolled h) (ht : Threaded h) (id : UInt32) (isDebugger : Bool) :
    Enrolled (h.spawn id isDebugger).2 := by
  rcases hs : h.spawn id isDebugger with ⟨e | who, h₁⟩
  · have haborts := (aborts_of_spawn_error (congrArg Prod.fst hs)).1
    rw [hs] at haborts
    exact he.same (sameRoll_of_aborts haborts)
  · obtain ⟨terminal, hj⟩ := joins_of_spawn_ok hs
    exact he.joins ht hj

theorem Enrolled.yieldsTo (he : Enrolled h) (ha : Accounted h) (hy : YieldsTo h h') : Enrolled h' := by
  cases hy with
  | same hs => exact he.same (sameRoll_of_scene hs)
  | @spawns h₁ id isDebugger hbefore hafter =>
    have ht₁ := (ha.same hbefore).accounted.toThreaded
    have hspawn := enrolled_spawn (he.same (sameRoll_of_scene hbefore)) ht₁ id isDebugger
    exact hspawn.same (sameRoll_of_scene hafter)

theorem Enrolled.exit (he : Enrolled h) (hs : h.stage? who = some stage) (hlisted : stage.isListed = true)
    (session : Session) (how : Exit) : Enrolled (h.exit who session how) := by
  have hleaves {h₁ : Host} (hr : SameRoll h h₁) :
      Enrolled (h₁.setStage who (.leaving (some session) .ordinary)) :=
    (he.same hr).setStage ((hr.stage? who).trans hs) fun _ => hlisted
  cases how with
  | finished => exact hleaves (sameRoll_programFinished h who)
  | raised e => exact hleaves (sameRoll_programFailed h who e)
  | interrupted => exact hleaves ⟨rfl, rfl⟩

/-- A step of a thread that is not about the registry. -/
theorem Enrolled.goesOn {h₀ : Host} {changes : List Change} {stage'' : Stage} (he : Enrolled h)
    (hr : SameRoll h h₁) (hs : h.stage? who = some stage) (hl : Leads who h₀ stage changes stage')
    (hs' : (h₁.setStage who stage'').stage? who = some stage')
    (hretire : ∀ todo, stage ≠ .tearingDown (.retire :: todo)) : Enrolled (h₁.setStage who stage'') := by
  have hs₁ := (hr.stage? who).trans hs
  obtain rfl := Option.some.inj ((stage?_setStage_self hs₁ _).symm.trans hs')
  exact (he.same hr).setStage hs₁ fun hlisted => (awaits_of_leads hl hretire).symm.trans hlisted

theorem enrolled_of_advances (he : Enrolled h) (ha : Accounted h) (hs : h.stage? who = some stage)
    (hin : stage.isInProgram = true) (hadv : Advances who h h') : Enrolled h' := by
  have hlisted : stage.isListed = true := by
    cases stage with
    | resuming | executing | held | suspended | waiting => rfl
    | _ => cases hin
  cases hadv with
  | exits session how _ hy => exact (he.yieldsTo ha hy).exit (hy.stage? hs) hlisted session how
  | goesOn _ hy => exact (he.yieldsTo ha hy).setStage (hy.stage? hs) fun _ => hlisted
  | stays hsame => exact he.same (sameRoll_of_scene hsame)

/-- The step of a teardown that takes the computer out of the registry is made once. -/
theorem enrolled_retire {todo : List TeardownStep} (he : Enrolled h) (ha : Accounted h)
    (hs : h.stage? who = some (.tearingDown (.retire :: todo))) :
    Enrolled ((h.teardownStep who .retire).setStage who (.tearingDown todo)) := by
  have hdone : (Stage.tearingDown todo).isListed = false := by
    have hplan : (TeardownStep.retire :: todo).Nodup := (ha.closing hs).sublist.nodup (by decide)
    have hno : TeardownStep.retire ∉ todo := (List.nodup_cons.mp hplan).1
    simpa [Stage.isListed, Stage.awaits] using hno
  -- The invariant does not hold between the two parts of the step, so they are taken the other way round.
  have hnext : Enrolled (h.setStage who (.tearingDown todo)) := he.setStage hs fun _ => rfl
  refine ⟨hnext.nodup, fun {w stage} hw hlisted => ?_⟩
  have hregistered : w ∈ h.registry.registered := hnext.registered hw hlisted
  refine (List.mem_erase_of_ne ?_).mpr hregistered
  rintro rfl
  cases (stage?_setStage_self hs _).symm.trans hw
  cases hdone.symm.trans hlisted

theorem enrolled_of_step (he : Enrolled h) (ha : Accounted h) (hstep : Step h (some who) h') :
    Enrolled h' := by
  obtain ⟨changes, stage, stage', hs, hl, -, hs'⟩ := makes_of_step hstep
  cases displays_of_step hstep hs with
  | program hin hadv => exact enrolled_of_advances he ha hs hin hadv
  | @silent stage h₁ stage'' hsilent hsame =>
    refine he.goesOn (sameRoll_of_scene hsame) hs hl hs' ?_
    rintro todo rfl
    cases hsilent
  | @resets todo session => exact he.goesOn (sameRoll_resetTerminal h who session) hs hl hs' nofun
  | @fails e =>
    obtain ⟨h₂, stage₂, hsame, heq⟩ := scene_judge_failed h who e
    rw [heq] at hs' ⊢
    exact he.goesOn ((sameRoll_reportBootFailure h who e).trans (sameRoll_of_scene hsame)) hs hl hs' nofun
  | @panics message =>
    obtain ⟨h₂, hsame, heq⟩ := scene_judge_panicked h who message
    rw [heq] at hs' ⊢
    have hr : SameRoll h (h.showDialog ((h.terminalOf? who).map (·.1)) "Uncaught Exception"
      (panicMessage message)) := ⟨rfl, rfl⟩
    exact he.goesOn (hr.trans (sameRoll_of_scene hsame)) hs hl hs' nofun
  | retires => exact enrolled_retire he ha hs
  | releases => exact he.goesOn (sameRoll_releaseTerminal h who) hs hl hs' nofun

/-- Whatever happens to a host. -/
theorem enrolled_of_passes (he : Enrolled h) (ha : Accounted h) (hp : Passes h mover h') : Enrolled h' := by
  cases mover with
  | none =>
    rcases yieldsTo_of_passes hp with hy | rfl
    · exact he.yieldsTo ha hy
    · refine he.same ?_
      rw [runTasks_eq]
      exact ⟨rfl, rfl⟩
  | some who =>
    cases hp with
    | step hstep => exact enrolled_of_step he ha hstep

theorem ComesToStop.enrolled (hs : ComesToStop h h') (ha : Accounted h) (he : Enrolled h) :
    Enrolled h' := by
  refine (hs.induct (P := fun h => Accounted h ∧ Enrolled h) ?_ ⟨ha, he⟩).2
  exact fun hp ⟨ha, he⟩ => ⟨(audits_of_passes ha hp).accounted, enrolled_of_passes he ha hp⟩

/-! ## 5. Hosts that have stopped -/

/-- A thread that cannot move is at its end, or has its computer still in the registry. -/
theorem isListed_of_move?_eq_none (hs : h.stage? who = some stage) (hm : h.move? who = none) :
    stage = .gone ∨ stage.isListed = true := by
  cases stage with
  | gone => exact .inl rfl
  | tearingDown todo =>
    unfold move? at hm
    rw [hs] at hm
    cases todo <;> cases hm
  | _ => exact .inr rfl

theorem gone_at_rest (he : Enrolled h) (hrest : h.step? = none) (hempty : h.registry.isEmpty = true)
    {thread : Handle × Stage} (ht : thread ∈ h.threads) : thread.2 = .gone := by
  obtain ⟨who, stage⟩ := thread
  have hs : h.stage? who = some stage := lookup_of_mem he.nodup ht
  have hm : h.move? who = none := by
    unfold step? at hrest
    split at hrest
    · cases hrest
    · next hnone =>
      rw [moveFirst?_eq, List.findSome?_eq_none_iff] at hnone
      exact hnone who (List.mem_map.mpr ⟨_, ht, rfl⟩)
  refine (isListed_of_move?_eq_none hs hm).resolve_right fun hlisted => ?_
  have hmem := he.registered hs hlisted
  rw [List.isEmpty_iff.mp hempty] at hmem
  cases hmem

theorem joinAll_at_rest (hrest : h.step? = none) (hgone : ∀ thread ∈ h.threads, thread.2 = .gone)
    (fuel moments : Nat) : h.joinAll fuel moments = { h with unjoined := [] } := by
  have hall : h.threads.all (·.2.isGone) = true := by
    refine List.all_eq_true.mpr fun thread ht => ?_
    rw [hgone thread ht]
    rfl
  have hwait : h.waitUntil (fun h => h.threads.all (·.2.isGone)) fuel moments = h := by
    cases moments with
    | zero => rfl
    | succ moments =>
      unfold waitUntil
      rw [settle_at_rest hrest]
      exact if_pos hall
  unfold joinAll
  rw [hwait]

end

end Host

end ComputerHost
