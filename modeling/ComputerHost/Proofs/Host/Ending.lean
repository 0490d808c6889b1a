import ComputerHost.Proofs.Host.Course
import ComputerHost.Proofs.Host.Roster

/-!
# How a thread ends

However the last boot of a computer ends, its thread comes to the same teardown: it makes the moves of
`teardownPlan`, in order and each of them once, and is gone. `Stage.Awaits` says that a move is still
to come; from then on the invariant is carried from step to step, and at the end the move has been made.

Results:
1. `Leads.awaits`, `Leads.within`: one step of the thread.
2. `Course.made`, `Course.keeps`: a thread that is gone has made each move of the teardown once, and what no
   change of a course breaks still holds.
-/

namespace ComputerHost

namespace Stage

def isClosing : Stage → Bool
  | .tearingDown _ | .gone => true
  | _ => false

/-- A move of the teardown is still to come, and `todo` after it. -/
def Awaits (step : TeardownStep) (todo : List TeardownStep) : Stage → Prop
  | .tearingDown steps => ∃ done, steps = done ++ step :: todo ∧ step ∉ done
  | .gone => False
  | _ => True

/-- Nothing is left of the teardown but some of these moves. -/
def Within (todo : List TeardownStep) : Stage → Prop
  | .tearingDown steps => steps ⊆ todo
  | .gone => True
  | _ => False

section
variable {stage : Stage} {step : TeardownStep} {todo : List TeardownStep}

theorem Within.isClosing (hw : stage.Within todo) : stage.isClosing = true := by
  cases stage with
  | tearingDown | gone => rfl
  | _ => exact hw.elim

theorem awaits_of_not_closing (hs : stage.isClosing = false) : stage.Awaits step todo := by
  cases stage with
  | tearingDown | gone => cases hs
  | _ => trivial

end

end Stage

namespace Host

/-- The thread is in its teardown, or gone. -/
def Occurrence.Closing (who : Handle) (o : Occurrence) : Prop :=
  ∃ stage, o.before.stage? who = some stage ∧ stage.isClosing = true

section
variable {who w : Handle} {h h' h₀ : Host} {stage stage' : Stage} {step : TeardownStep}
  {todo : List TeardownStep} {mover : Option Handle} {changes xs : List Change}
  {trace : List Occurrence}

/-! ## 1. One step -/

/-- A program does not take part in the teardown. -/
theorem not_closing_of_yields {warned : Bool} (hy : Yields who warned xs stage) :
    stage.isClosing = false ∧ ∀ step, .teardown who step ∉ xs := by
  cases hy with
  | goesOn hp =>
    refine ⟨?_, fun step => List.not_mem_nil⟩
    cases stage with
    | tearingDown | gone => cases hp
    | _ => rfl
  | ends => exact ⟨rfl, fun step hm => by cases List.mem_singleton.mp hm⟩
  | panics => exact ⟨rfl, fun step => List.not_mem_nil⟩

theorem Leads.awaits (hl : Leads who h stage xs stage') (ha : stage.Awaits step todo)
    (hplan : (Stage.tearingDown teardownPlan).Awaits step todo) :
    (stage'.Awaits step todo ∧ .teardown who step ∉ xs) ∨
      (stage' = .tearingDown todo ∧ xs = [.teardown who step]) := by
  cases hl with
  | @tearsDown first rest =>
    obtain ⟨done, heq, hdone⟩ := ha
    cases done with
    | nil =>
      cases heq
      exact .inr ⟨rfl, rfl⟩
    | cons d done =>
      cases heq
      rw [List.mem_cons, not_or] at hdone
      exact .inl ⟨⟨done, rfl, hdone.2⟩, by simp [hdone.1]⟩
  | isDone =>
    obtain ⟨done, heq, -⟩ := ha
    simp at heq
  | panicked | windsUp => exact .inl ⟨hplan, by simp⟩
  | runs _ hasked hy =>
    obtain ⟨hs, hnone⟩ := not_closing_of_yields hy
    refine .inl ⟨Stage.awaits_of_not_closing hs, fun hm => ?_⟩
    rcases List.mem_append.mp hm with hm | hm
    · cases hasked _ hm
    · exact hnone step hm
  | _ => exact .inl ⟨trivial, by simp⟩

theorem Leads.within (hl : Leads who h stage xs stage') (hw : stage.Within todo) :
    stage'.Within todo ∧ ∀ step, .teardown who step ∈ xs → step ∈ todo := by
  cases hl with
  | tearsDown =>
    rw [Stage.Within, List.cons_subset] at hw
    refine ⟨hw.2, fun step hm => ?_⟩
    cases List.mem_singleton.mp hm
    exact hw.1
  | isDone => exact ⟨trivial, fun _ hm => absurd hm List.not_mem_nil⟩
  | runs hcontrol => cases hcontrol <;> exact hw.elim
  | _ => exact hw.elim

/-- Nobody else makes moves of the teardown of `who`. -/
theorem not_teardown_of_foreign (hx : ∀ x ∈ changes, x.Foreign who) (step : TeardownStep) :
    .teardown who step ∉ changes :=
  fun hm => hx _ hm rfl

theorem Occurs.awaits (ho : Occurs who h mover changes h') (hs : h.stage? who = some stage)
    (ha : stage.Awaits step todo) (hplan : (Stage.tearingDown teardownPlan).Awaits step todo) :
    ∃ stage', h'.stage? who = some stage' ∧
      ((stage'.Awaits step todo ∧ .teardown who step ∉ changes) ∨
        (stage' = .tearingDown todo ∧ changes = [.teardown who step])) := by
  by_cases hm : mover = some who
  · subst hm
    obtain ⟨stage₁, stage', hs₁, hl, -, hs'⟩ := ho.makes
    cases hs.symm.trans hs₁
    exact ⟨stage', hs', hl.awaits ha hplan⟩
  · obtain ⟨hforeign, hk⟩ := ho.foreign hm
    exact ⟨stage, hk.stage stage hs, .inl ⟨ha, not_teardown_of_foreign hforeign step⟩⟩

theorem Occurs.within (ho : Occurs who h mover changes h') (hs : h.stage? who = some stage)
    (hw : stage.Within todo) :
    (∃ stage', h'.stage? who = some stage' ∧ stage'.Within todo) ∧
      ∀ step, .teardown who step ∈ changes → step ∈ todo := by
  by_cases hm : mover = some who
  · subst hm
    obtain ⟨stage₁, stage', hs₁, hl, -, hs'⟩ := ho.makes
    cases hs.symm.trans hs₁
    obtain ⟨hw', hsteps⟩ := hl.within hw
    exact ⟨⟨stage', hs', hw'⟩, hsteps⟩
  · obtain ⟨hforeign, hk⟩ := ho.foreign hm
    exact ⟨⟨stage, hk.stage stage hs, hw⟩,
      fun step hm => absurd hm (not_teardown_of_foreign hforeign step)⟩

/-! ## 2. Whole courses -/

/-- The plan leaves out no move. -/
theorem mem_teardownPlan (step : TeardownStep) : step ∈ teardownPlan := by
  cases step <;> decide

theorem Course.within (hc : Course who h₀ trace h) (hs : h₀.stage? who = some stage)
    (hw : stage.Within todo) :
    (∃ stage', h.stage? who = some stage' ∧ stage'.Within todo) ∧
      ∀ o ∈ trace, o.Closing who ∧ ∀ step, .teardown who step ∈ o.changes → step ∈ todo := by
  induction hc with
  | refl => exact ⟨⟨stage, hs, hw⟩, by simp⟩
  | snoc _ ho ih =>
    obtain ⟨⟨stage₁, hs₁, hw₁⟩, hpast⟩ := ih
    obtain ⟨hw', hsteps⟩ := ho.within hs₁ hw₁
    refine ⟨hw', ?_⟩
    rw [List.forall_mem_append, List.forall_mem_singleton]
    exact ⟨hpast, ⟨stage₁, hs₁, hw₁.isClosing⟩, hsteps⟩

/-- The move is still to come, or it has been made once and only `todo` has come after it. -/
theorem Course.awaits (hc : Course who h₀ trace h) (hs : h₀.stage? who = some stage)
    (ha : stage.Awaits step todo) (hplan : (Stage.tearingDown teardownPlan).Awaits step todo) :
    ((∃ stage', h.stage? who = some stage' ∧ stage'.Awaits step todo) ∧
      ∀ o ∈ trace, .teardown who step ∉ o.changes) ∨
    ∃ past o later, trace = past ++ o :: later ∧ o.changes = [.teardown who step] ∧
      o.after.stage? who = some (.tearingDown todo) ∧
      ∀ o' ∈ past, .teardown who step ∉ o'.changes := by
  induction hc with
  | refl => exact .inl ⟨⟨stage, hs, ha⟩, by simp⟩
  | @snoc past h₁ h₂ mover changes _ ho ih =>
    rcases ih with ⟨⟨stage₁, hs₁, ha₁⟩, hnone⟩ | ⟨before, o, later, rfl, hmade⟩
    · obtain ⟨stage₂, hs₂, ⟨ha₂, hnot⟩ | ⟨rfl, rfl⟩⟩ := ho.awaits hs₁ ha₁ hplan
      · left
        rw [List.forall_mem_append, List.forall_mem_singleton]
        exact ⟨⟨stage₂, hs₂, ha₂⟩, hnone, hnot⟩
      · exact .inr ⟨past, ⟨h₁, mover, _, h₂⟩, [], rfl, rfl, hs₂, hnone⟩
    · exact .inr ⟨before, o, later ++ [⟨h₁, mover, changes, h₂⟩], by simp, hmade⟩

/-- A thread that is gone has made each move of the teardown once, and after it only those that come
later in the plan. -/
theorem Course.made (step : TeardownStep) (hc : Course who h₀ trace h)
    (hs : h₀.stage? who = some .betweenBoots) (hgone : h.stage? who = some .gone) :
    ∃ past o later, trace = past ++ o :: later ∧ o.changes = [.teardown who step] ∧
      (∀ o' ∈ past, .teardown who step ∉ o'.changes) ∧
      ∀ o' ∈ later, o'.Closing who ∧
        ∀ s, .teardown who s ∈ o'.changes → [step, s].Sublist teardownPlan := by
  obtain ⟨done, todo, hplan⟩ := List.append_of_mem (mem_teardownPlan step)
  have hnodup : teardownPlan.Nodup := by decide
  have hdone : step ∉ done := by
    rw [hplan, List.nodup_append] at hnodup
    exact fun hm => hnodup.2.2 step hm step List.mem_cons_self rfl
  have hawaits : (Stage.tearingDown teardownPlan).Awaits step todo := ⟨done, hplan, hdone⟩
  rcases hc.awaits hs trivial hawaits with
    ⟨⟨stage, hs', ha⟩, -⟩ | ⟨past, o, later, rfl, hchanges, hafter, hpast⟩
  · cases hgone.symm.trans hs'
    exact ha.elim
  · obtain ⟨-, -, hlater⟩ := hc.split
    refine ⟨past, o, later, rfl, hchanges, hpast, fun o' ho' => ?_⟩
    obtain ⟨hclosing, hsteps⟩ := (hlater.within hafter (List.Subset.refl todo)).2 o' ho'
    refine ⟨hclosing, fun s hm => ?_⟩
    have hpair : [step, s].Sublist (step :: todo) :=
      (List.singleton_sublist.mpr (hsteps s hm)).cons_cons step
    rw [hplan]
    exact hpair.trans (List.sublist_append_right done _)

/-- What no change of a course breaks. A change that is not made by a thread was called where the
occurrence began. -/
theorem Course.keeps {P : Host → Prop} (hc : Course who h₀ trace h)
    (hquiet : ∀ {h₁ h₂}, Quiet h₁ h₂ → P h₁ → P h₂)
    (hon : ∀ o ∈ trace, ∀ x ∈ o.changes, ∀ h, x.OfThread ∨ h = o.before → P h → P (x.on h))
    (hP : P h₀) : P h := by
  induction hc with
  | refl => exact hP
  | @snoc past h₁ h₂ mover changes _ ho ih =>
    rw [List.forall_mem_append, List.forall_mem_singleton] at hon
    have hP₁ := ih hon.1
    rcases ho.called_or_thread with ⟨x, -, rfl, rfl⟩ | hthread
    · exact hon.2 x List.mem_cons_self h₁ (.inr rfl) hP₁
    · exact ho.comes.rel (R := fun h₁ h₂ => P h₁ → P h₂) (fun hr hr' hP => hr' (hr hP)) hquiet
        (fun x hx h => hon.2 x hx h (.inl (hthread x hx))) hP₁

/-- The computer is there, and the roster is in order. -/
structure Present (who : Handle) (h : Host) : Prop where
  rostered : Rostered h
  known : (h.computer? who).isSome = true

theorem Present.config? (hp : Present who h) : ∃ c, h.config? who = some c := by
  obtain ⟨c, hc⟩ := Option.isSome_iff_exists.mp hp.known
  exact ⟨c.config, by rw [Host.config?, hc]; rfl⟩

theorem Present.quiet (hp : Present who h) (hq : Quiet h h') : Present who h' :=
  ⟨rostered_of_differs hp.rostered hq not_false not_false, hq.known who hp.known⟩

theorem Present.on (hp : Present who h) (x : Change) : Present who (x.on h) :=
  ⟨rostered_on hp.rostered x, (differs_on x h).known who hp.known⟩

theorem Course.present (hc : Course who h₀ trace h) (hp : Present who h₀) : Present who h :=
  hc.keeps (fun hq hp => hp.quiet hq) (fun _ _ x _ _ _ hp => hp.on x) hp

/-- What a move of the teardown brings about, and nothing that happens afterwards undoes. -/
theorem Course.of_made {P : Host → Prop} (step : TeardownStep) (hc : Course who h₀ trace h)
    (hp : Present who h₀) (hs : h₀.stage? who = some .betweenBoots)
    (hgone : h.stage? who = some .gone)
    (hquiet : ∀ {h₁ h₂}, Quiet h₁ h₂ → P h₁ → P h₂)
    (hdone : ∀ h, Present who h → P (h.teardownStep who step))
    (hon : ∀ o ∈ trace, o.Closing who → ∀ x ∈ o.changes,
      (∀ s, x = .teardown who s → [step, s].Sublist teardownPlan) →
      ∀ h, x.OfThread ∨ h = o.before → Present who h → P h → P (x.on h)) : P h := by
  obtain ⟨past, o, later, rfl, hchanges, -, hafter⟩ := hc.made step hs hgone
  obtain ⟨hpast, ho, hlater⟩ := hc.split
  have hcomes := ho.comes
  rw [hchanges] at hcomes
  obtain ⟨h₁, hq, hq'⟩ := hcomes.single
  have hp₁ := (hpast.present hp).quiet hq
  have hmade : Present who o.after ∧ P o.after :=
    ⟨(hp₁.on _).quiet hq', hquiet hq' (hdone h₁ hp₁)⟩
  refine (hlater.keeps (P := fun h => Present who h ∧ P h)
    (fun hq hP => ⟨hP.1.quiet hq, hquiet hq hP.2⟩) (fun o' ho' x hx h hcall hP => ?_) hmade).2
  obtain ⟨hclosing, hsteps⟩ := hafter o' ho'
  refine ⟨hP.1.on x, hon o' ?_ hclosing x hx (fun s heq => hsteps s (heq ▸ hx)) h hcall hP.1 hP.2⟩
  exact List.mem_append_right _ (List.mem_cons_of_mem o ho')

end

end Host

end ComputerHost
