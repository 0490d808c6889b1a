import ComputerHost.Proofs.Host.Emptied

/-!
# Everything a computer holds is released once

A computer that was spawned and whose thread is gone has gone through the whole teardown, whatever its boots
came to, however often it rebooted and whatever ended its loop. `Released` says what is true then.

Results:
1. `unnoted_of_unknown`, `Spawns.ledger`: a computer begins with empty books.
2. `Released.…`: the parts of the statement.
3. `released_exactly_once`: all of them, along any course.
-/

namespace ComputerHost

namespace Host

/-- Somebody attaches a link to `who`. -/
def Occurrence.Links (who : Handle) (o : Occurrence) : Prop :=
  ∃ w side name l, .attach w side name ∈ o.changes ∧ o.before.link? name = some l ∧ l.target = who

/-- A change that constructs a computer and gives it a thread. -/
structure Spawns (h : Host) (x : Change) (who : Handle) : Prop where
  unknown : h.computer? who = none
  known : ((x.on h).computer? who).isSome = true
  stage : (x.on h).stage? who = some .betweenBoots

/-- Everything that `who` was given along a trace has been let go, each thing once. -/
structure Released (who : Handle) (trace : List Occurrence) (h : Host) : Prop where
  distinct : ((openedOf who trace).map (·.id)).Nodup
  connections : (takenOf who trace).Perm (openedOf who trace)
  closings : h.closedOf who = (takenOf who trace).map (·.name)
  connectionsOf : h.connectionsOf who = []
  peripherals : (h.releasedOf who).Perm (attachedOf who trace)
  sidesOf : h.sidesOf who = []
  /-- Whatever is not about letting go leaves the peripherals; a reboot is not. -/
  kept : ∀ o ∈ trace, (∀ x ∈ o.changes, ¬x.LetsGo who) →
    o.after.releasedOf who = o.before.releasedOf who ∧
      o.before.sidesOf who <+: o.after.sidesOf who
  finalizers : h.finalizedOf who = addedOf who trace
  timersOf : h.timersOf who = []
  takenTimersOf : h.takenTimersOf who = []
  debounceOf? : h.debounceOf? who = none
  /-- The settings are what the finalizers have made of those that they found. -/
  settings : ∃ past o later c, trace = past ++ o :: later ∧
    o.changes = [.teardown who .runFinalizers] ∧ o.before.config? who = some c ∧
    h.config? who = some ((addedOf who trace).foldl (fun c name => h.setup.finalize name c) c)
  /-- If saving them succeeds they are what is stored, until others are saved for the same id. -/
  stored : ∃ past o later c, trace = past ++ o :: later ∧
    o.changes = [.teardown who .saveConfig] ∧ h.config? who = some c ∧
    ((o.before.store.save o.before.tree who.id c).1 = .ok () →
      (∀ o' ∈ later, ∀ w, w.id = who.id → .teardown w .saveConfig ∉ o'.changes) →
      h.store.load h.tree who.id = .ok c)
  resolve? : h.registry.resolve? who = none
  freed : who ∉ h.registry.freed
  references : (∀ o ∈ trace, o.Closing who → ¬o.Links who) → h.registry.referencesTo who = []

section
variable {who : Handle} {h h' h₀ h₁ : Host} {x : Change} {trace : List Occurrence}

/-! ## 1. The beginning -/

/-- Nothing that is let go is noted about a computer that is not there. -/
theorem unnoted_on (hn : h.computer? who = none) (x : Change) :
    (x.on h).closedOf who = h.closedOf who ∧ (x.on h).releasedOf who = h.releasedOf who ∧
      (x.on h).finalizedOf who = h.finalizedOf who := by
  have hopen : h.connectionsOf who = [] := by
    unfold connectionsOf connectionTable
    rw [hn]
    rfl
  have hsides : h.sidesOf who = [] := by
    unfold sidesOf
    rw [hn]
    rfl
  have hfinalizers : h.finalizersOf who = [] := by
    unfold finalizersOf
    rw [hn]
    rfl
  -- It holds nothing, so whatever is let go of is none of it.
  refine ⟨?_, ?_, ?_⟩
  · by_cases hconnect : ∃ name, x = .connect who name
    · obtain ⟨name, rfl⟩ := hconnect
      exact closedOf_of_not_closes not_false
    by_cases hclose : ∃ id, x = .disconnect who id
    · obtain ⟨id, rfl⟩ := hclose
      show ((h.closeConnection who id).2.custodyOf who).filterMap Deed.closed? = _
      rw [(closeConnection_eq h who id).2, hopen]
      exact congrArg _ (List.append_nil _)
    exact ((sheds_connections_on (not_exists.mp hconnect) (not_exists.mp hclose) h).1.of_nil hopen).2
  · by_cases hattach : ∃ side name, x = .attach who side name
    · obtain ⟨side, name, rfl⟩ := hattach
      exact releasedOf_of_not_letsGo not_false
    obtain ⟨-, gone, hperm, hnoted⟩ :=
      (releases_on (fun side name heq => hattach ⟨side, name, heq⟩) h).gone
        ⟨by simp [hsides], by simp [hsides]⟩
    unfold namesOf at hperm
    rw [hsides] at hperm
    rw [hnoted, (List.append_eq_nil_iff.mp hperm.nil_eq.symm).1, List.append_nil]
  · by_cases hadd : ∃ name, x = .addFinalizer who name
    · obtain ⟨name, rfl⟩ := hadd
      exact finalizedOf_of_ne (by simp)
    exact ((sheds_finalizers_on (not_exists.mp hadd) h).of_nil hfinalizers).2

theorem unnoted_of_unknown {setup : HostSetup} {tree : FileTree} {store : ConfigStore}
    {evolution : List (Host × Change)} (he : Evolves (Host.new setup tree store) evolution h)
    (hn : h.computer? who = none) :
    h.closedOf who = [] ∧ h.releasedOf who = [] ∧ h.finalizedOf who = [] := by
  have hbefore {h h' : Host} (hk : (h.computer? who).isSome = true → (h'.computer? who).isSome = true)
      (hn : h'.computer? who = none) : h.computer? who = none := by
    rw [hn] at hk
    exact Option.not_isSome_iff_eq_none.mp fun hsome => Bool.false_ne_true (hk hsome)
  induction he with
  | refl => exact ⟨rfl, rfl, rfl⟩
  | @change _ h₁ x _ ih =>
    have hn₁ := hbefore ((differs_on x h₁).known who) hn
    obtain ⟨hclosed, hreleased, hfinalized⟩ := unnoted_on hn₁ x
    rw [hclosed, hreleased, hfinalized]
    exact ih hn₁
  | quiet _ hq ih =>
    have hjournal := hq.agrees (.custody who) not_false
    obtain ⟨hclosed, hreleased, hfinalized⟩ := ih (hbefore (hq.known who) hn)
    exact ⟨(congrArg _ hjournal).trans hclosed, (congrArg _ hjournal).trans hreleased,
      (congrArg _ hjournal).trans hfinalized⟩

/-- A computer that has just been started holds nothing, and nothing has been let go. -/
theorem Spawns.ledger {setup : HostSetup} {tree : FileTree} {store : ConfigStore}
    {evolution : List (Host × Change)} (hs : Spawns h x who)
    (he : Evolves (Host.new setup tree store) evolution h) : Ledger who [] (x.on h) := by
  have hroster : x.Touches .roster := by
    by_contra ht
    have hsame := ((differs_on x h).agrees .roster ht).2 who
    rw [hs.known, hs.unknown] at hsame
    cases hsame
  have hspawn (y : Aspect) (hy : y.who? = some who) : ¬x.Touches y := by
    cases x with
    | spawn | turnOn => cases y <;> simp_all [Change.Touches, Aspect.OfSpawn, Aspect.who?]
    | teardown w step => cases step <;> exact hroster.elim
    | _ => simp_all [Change.Touches, Aspect.OfResolution, Aspect.OfFiring, Aspect.OfWiring]
  have hd := differs_on x h
  have hreading {α : Type} (f : Computer → α) (none' : α) :
      ((h.computer? who).map f).getD none' = none' := by rw [hs.unknown]; rfl
  have hjournal := hd.agrees (.custody who) (hspawn _ rfl)
  obtain ⟨hclosed, hreleased, hfinalized⟩ := unnoted_of_unknown he hs.unknown
  refine ledger_of_empty hs.known ?_ ?_ ?_ ⟨?_, ?_, ?_⟩
  · exact congrArg Prod.fst ((hd.agrees (.connections who) (hspawn _ rfl)).trans (hreading _ _))
  · exact (hd.agrees (.sides who) (hspawn _ rfl)).trans (hreading _ _)
  · exact (hd.agrees (.finalizers who) (hspawn _ rfl)).trans (hreading _ _)
  · exact (congrArg _ hjournal).trans hclosed
  · exact (congrArg _ hjournal).trans hreleased
  · exact (congrArg _ hjournal).trans hfinalized

/-! ## 2. The parts -/

theorem kept_on (hx : ¬x.LetsGo who) (h : Host) :
    (x.on h).releasedOf who = h.releasedOf who ∧ h.sidesOf who <+: (x.on h).sidesOf who := by
  refine ⟨releasedOf_of_not_letsGo hx, ?_⟩
  have hsame (ht : ¬x.Touches (.sides who)) : h.sidesOf who <+: (x.on h).sidesOf who := by
    have heq : (x.on h).sidesOf who = h.sidesOf who := (differs_on x h).agrees (.sides who) ht
    exact heq ▸ List.prefix_rfl
  cases x with
  | attach w side name =>
    rcases attach_cases h w side name with heq | ⟨-, -, -, heq⟩
    · have hsame : (Change.attach w side name).on h = h := congrArg Prod.snd heq
      exact hsame.symm ▸ List.prefix_rfl
    · have hsides := sidesOf_attach (h := h) (w := who) (by rw [heq])
      show h.sidesOf who <+: (h.attach w side name).2.sidesOf who
      rw [hsides]
      split
      · next hw =>
        rw [hw]
        exact List.prefix_append ..
      · exact List.prefix_rfl
  | detach w side => exact hsame fun ht => hx (Eq.symm ht)
  | turnOn => exact hsame (by simp [Change.Touches, Aspect.OfSpawn])
  | resolve | fire | spawn => exact hsame not_false
  | teardown w step =>
    cases step with
    | releasePeripherals => exact hsame fun ht => hx (Eq.symm ht)
    | detachReferences => exact absurd trivial hx
    | _ => exact hsame not_false
  | _ => exact hsame (by simp [Change.Touches])

/-- Whatever is not about letting go leaves the peripherals where they are. -/
theorem Course.kept (hc : Course who h₀ trace h) : ∀ o ∈ trace, (∀ x ∈ o.changes, ¬x.LetsGo who) →
    o.after.releasedOf who = o.before.releasedOf who ∧
      o.before.sidesOf who <+: o.after.sidesOf who := by
  intro o ho hx
  obtain ⟨past, later, rfl⟩ := List.append_of_mem ho
  obtain ⟨-, hoccurs, -⟩ := hc.split
  exact hoccurs.comes.rel (R := fun h h' => h'.releasedOf who = h.releasedOf who ∧
    h.sidesOf who <+: h'.sidesOf who) (fun hr hr' => ⟨hr'.1.trans hr.1, hr.2.trans hr'.2⟩)
    (fun hq => ⟨congrArg (List.filterMap _) (hq.agrees (.custody who) not_false),
      (show _ = _ from hq.agrees (.sides who) not_false) ▸ List.prefix_rfl⟩)
    fun x hm h => kept_on (hx x hm) h

/-- In a teardown nothing is given to a computer, if nobody gives it anything from outside. -/
theorem Course.calm (hc : Course who h₀ trace h)
    (hcalls : ∀ o ∈ trace, o.Closing who → o.mover = none → ∀ x ∈ o.changes, ¬x.Gives who) :
    ∀ o ∈ trace, o.Closing who → ∀ x ∈ o.changes, ¬x.Gives who := by
  intro o ho hclosing
  have hnone := hcalls o ho hclosing
  obtain ⟨past, later, rfl⟩ := List.append_of_mem ho
  obtain ⟨-, hoccurs, -⟩ := hc.split
  obtain ⟨stage, hs, hstage⟩ := hclosing
  exact hoccurs.calm hs hstage hnone

theorem Course.setup (hc : Course who h₀ trace h) : h.setup = h₀.setup :=
  hc.keeps (P := fun h => h.setup = h₀.setup) (fun hq heq => hq.setup.trans heq)
    (fun _ _ x _ h _ heq => (differs_on x h).setup.trans heq) rfl

/-- Without finalizers and labels settings do not change. -/
theorem Course.config?_kept (hc : Course who h₀ trace h) (hp : Present who h₀)
    (hx : ∀ o ∈ trace, ∀ x ∈ o.changes, ¬x.Gives who ∧ x ≠ .teardown who .runFinalizers) :
    h.config? who = h₀.config? who := by
  refine (hc.keeps (P := fun h => Present who h ∧ h.config? who = h₀.config? who)
    (fun hq hP => ?_) (fun o ho x hm h _ hP => ?_) ⟨hp, rfl⟩).2
  · exact ⟨hP.1.quiet hq, (hq.agrees (.config who) not_false hP.1.known).trans hP.2⟩
  · obtain ⟨hgives, hrun⟩ := hx o ho x hm
    exact ⟨hP.1.on x, (config?_on hgives hrun hP.1.known).trans hP.2⟩

theorem added_of_calm {o : Occurrence} (hcalm : ∀ x ∈ o.changes, ¬x.Gives who) :
    o.added who = [] := by
  unfold Occurrence.added
  rw [List.flatMap_eq_nil_iff]
  intro x hx
  have hgives := hcalm x hx
  cases x with
  | addFinalizer w name => exact if_neg hgives
  | _ => rfl

section
variable (hc : Course who h₀ trace h) (hp : Present who h₀)
  (hs : h₀.stage? who = some .betweenBoots) (hgone : h.stage? who = some .gone)
  (hcalm : ∀ o ∈ trace, o.Closing who → ∀ x ∈ o.changes, ¬x.Gives who)
include hc hp hs hgone

theorem Course.unregistered : who ∉ h.registry.registered := by
  refine hc.of_made .retire hp hs hgone (P := fun h => who ∉ h.registry.registered)
    (fun hq hn => ?_) (fun h hp => hp.rostered.nodup.not_mem_erase) ?_
  · rw [(hq.agrees .registered not_false).1]
    exact hn
  · intro o _ _ x _ _ h _ hp hn hm
    rcases registered_on hp.rostered hm with hm | hnone
    · exact hn hm
    · exact absurd hp.known (by rw [hnone]; exact Bool.false_ne_true)

theorem Course.retired : h.registry.resolve? who = none := by
  have hout := hc.unregistered hp hs hgone
  simp [Registry.resolve?, Registry.resolves, hout]

theorem Course.not_freed : who ∉ h.registry.freed := by
  refine hc.of_made .release hp hs hgone (P := fun h => who ∉ h.registry.freed)
    (fun hq hn => ?_) (fun h hp => ?_) ?_
  · rw [(hq.agrees .registered not_false).2]
    exact hn
  · show who ∉ (h.registry.freed.forget who).2
    rw [Tombstones.mem_forget]
    exact fun hm => hm.1 rfl
  · intro o _ _ x _ hsteps h _ _ hn
    refine not_freed_on (fun heq => ?_) hn
    -- The handle is forgotten last.
    exact absurd (hsteps .retire heq) (by decide)

theorem Course.unreferenced (hlinks : ∀ o ∈ trace, o.Closing who → ¬o.Links who) :
    h.registry.referencesTo who = [] := by
  refine hc.of_made .detachReferences hp hs hgone (P := fun h => h.registry.referencesTo who = [])
    (fun hq hn => ?_) (fun h _ => referencesTo_detachReferences h who) ?_
  · refine List.eq_nil_iff_forall_not_mem.mpr fun ref hm => ?_
    have hbefore := noNewReferences_of_agrees (hq.agrees .references not_false) hm
    rw [hn] at hbefore
    cases hbefore
  · intro o ho hclosing x hx _ h hcall hp hn
    refine List.eq_nil_iff_forall_not_mem.mpr fun ref hm => ?_
    have hbefore := noNewReferences_on hp (fun w side name heq l hl htarget => ?_) hm
    · rw [hn] at hbefore
      cases hbefore
    · subst heq
      obtain hthread | rfl := hcall
      · exact hthread
      · exact hlinks o ho hclosing ⟨w, side, name, l, hx, hl, htarget⟩

/-- Timers are taken before they are marked. -/
theorem Course.marked : h.takenTimersOf who = [] := by
  refine hc.of_made .invalidateTimers hp hs hgone (P := fun h => h.takenTimersOf who = [])
    (fun hq hn => (hq.agrees (.taken who) not_false).trans hn)
    (fun h _ => (takenTimersOf_invalidateTimers h who who).trans (if_pos rfl)) ?_
  intro o _ _ x _ hsteps h _ _ hn
  refine List.eq_nil_iff_forall_not_mem.mpr fun i hi => ?_
  rcases mem_takenTimersOf_on hi with hi | ⟨heq, -⟩
  · rw [hn] at hi
    cases hi
  · exact absurd (hsteps .takeTimers heq) (by decide)

include hcalm

theorem Course.emptied : h.sidesOf who = [] ∧ h.connectionsOf who = [] ∧ h.finalizersOf who = [] ∧
    h.timersOf who = [] ∧ h.debounceOf? who = none := by
  have hgiven (o : Occurrence) (ho : o ∈ trace) (hclosing : o.Closing who) (x : Change)
      (hx : x ∈ o.changes) : ¬x.Gives who := hcalm o ho hclosing x hx
  refine ⟨?_, ?_, ?_, ?_, ?_⟩
  · refine hc.of_made .releasePeripherals hp hs hgone (P := fun h => h.sidesOf who = [])
      (fun hq hn => (hq.agrees (.sides who) not_false).trans hn) (fun h _ => ?_)
      fun o ho hclosing x hx _ h _ _ => sidesOf_on (hgiven o ho hclosing x hx)
    exact (sidesOf_releasePeripherals h who who).trans (if_pos rfl)
  · refine hc.of_made .closeConnections hp hs hgone (P := fun h => h.connectionsOf who = [])
      (fun hq hn => (congrArg Prod.fst (hq.agrees (.connections who) not_false)).trans hn)
      (fun h _ => congrArg Prod.fst (closeConnections_eq h who).1)
      fun o ho hclosing x hx _ h _ _ => connectionsOf_on (hgiven o ho hclosing x hx)
  · exact hc.of_made .runFinalizers hp hs hgone (P := fun h => h.finalizersOf who = [])
      (fun hq hn => (hq.agrees (.finalizers who) not_false).trans hn)
      (fun h _ => (runFinalizers_eq h who).1)
      fun o ho hclosing x hx _ h _ _ => finalizersOf_on (hgiven o ho hclosing x hx)
  · exact hc.of_made .takeTimers hp hs hgone (P := fun h => h.timersOf who = [])
      (fun hq hn => (hq.agrees (.timers who) not_false).trans hn)
      (fun h _ => (timersOf_takeTimers h who who).trans (if_pos rfl))
      fun o ho hclosing x hx _ h _ _ => timersOf_on (hgiven o ho hclosing x hx)
  · exact hc.of_made .cancelDebounce hp hs hgone (P := fun h => h.debounceOf? who = none)
      (fun hq hn => (hq.agrees (.debounce who) not_false).trans hn)
      (fun h _ => (debounceOf?_cancelDebounce h who who).trans (if_pos rfl))
      fun o ho hclosing x hx _ h _ _ => debounceOf?_on (hgiven o ho hclosing x hx)

/-- The finalizers that were added run in order, each on what the one before has left, and nothing changes
the settings after them. -/
theorem Course.settings (hl : Ledger who [] h₀) :
    ∃ past o later c, trace = past ++ o :: later ∧ o.changes = [.teardown who .runFinalizers] ∧
      o.before.config? who = some c ∧
      h.config? who = some ((addedOf who trace).foldl (fun c name => h.setup.finalize name c) c) := by
  obtain ⟨past, o, later, rfl, hchanges, hbefore, hafter⟩ := hc.made .runFinalizers hs hgone
  obtain ⟨hpast, ho, hlater⟩ := hc.split
  have hp₁ := hpast.present hp
  have hlaterCalm (o' : Occurrence) (ho' : o' ∈ later) : ∀ x ∈ o'.changes, ¬x.Gives who :=
    hcalm o' (List.mem_append_right _ (List.mem_cons_of_mem o ho')) (hafter o' ho').1
  -- What was added before the finalizers ran is what there is to run, and nothing is added later.
  have hstart : h₀.finalizedOf who = [] := (List.append_eq_nil_iff.mp hl.finalizers.symm).1
  have hnone : o.before.finalizedOf who = [] :=
    hpast.keeps (P := fun h => h.finalizedOf who = [])
      (fun hq hn => (congrArg (List.filterMap _) (hq.agrees (.custody who) not_false)).trans hn)
      (fun o' ho' x hx h _ hn =>
        (finalizedOf_of_ne fun heq => hbefore o' ho' (heq ▸ hx)).trans hn) hstart
  have hbooks : addedOf who past = o.before.finalizersOf who := by
    have hbalance := (hpast.ledger hl).finalizers
    rwa [hnone, List.nil_append, List.nil_append] at hbalance
  have hadded : addedOf who (past ++ o :: later) = addedOf who past := by
    have hself : o.added who = [] := by simp [Occurrence.added, hchanges]
    have hrest : addedOf who later = [] :=
      List.flatMap_eq_nil_iff.mpr fun o' ho' => added_of_calm (hlaterCalm o' ho')
    unfold addedOf at hrest ⊢
    rw [List.flatMap_append, List.flatMap_cons, hself, hrest, List.append_nil, List.append_nil]
  obtain ⟨c, hconfig⟩ := hp₁.config?
  refine ⟨past, o, later, c, rfl, hchanges, hconfig, ?_⟩
  have hcomes := ho.comes
  rw [hchanges] at hcomes
  obtain ⟨h₁, hq, hq'⟩ := hcomes.single
  have hp₂ := hp₁.quiet hq
  have hkept := hlater.config?_kept ((hp₂.on _).quiet hq') fun o' ho' x hx =>
    ⟨hlaterCalm o' ho' x hx, fun heq => absurd ((hafter o' ho').2 _ (heq ▸ hx)) (by decide)⟩
  have hrun : o.after.config? who = (h₁.config? who).map
      ((h₁.finalizersOf who).foldl fun c name => h₁.setup.finalize name c) :=
    (hq'.agrees (.config who) not_false (hp₂.on _).known).trans (runFinalizers_eq h₁ who).2.2
  have hfinalizers : h₁.finalizersOf who = o.before.finalizersOf who :=
    hq.agrees (.finalizers who) not_false
  have hfound : h₁.config? who = some c :=
    (hq.agrees (.config who) not_false hp₁.known).trans hconfig
  have hsetup : h₁.setup = h.setup :=
    (hq.setup.trans hpast.setup).trans hc.setup.symm
  rw [hkept, hrun, hfound, hfinalizers, hsetup, hadded, hbooks]
  rfl

/-- The settings that are saved are those that the computer ends with. -/
theorem Course.stored : ∃ past o later c, trace = past ++ o :: later ∧
    o.changes = [.teardown who .saveConfig] ∧ h.config? who = some c ∧
    ((o.before.store.save o.before.tree who.id c).1 = .ok () →
      (∀ o' ∈ later, ∀ w, w.id = who.id → .teardown w .saveConfig ∉ o'.changes) →
      h.store.load h.tree who.id = .ok c) := by
  obtain ⟨past, o, later, rfl, hchanges, -, hafter⟩ := hc.made .saveConfig hs hgone
  obtain ⟨hpast, ho, hlater⟩ := hc.split
  have hp₁ := hpast.present hp
  have hkept : h.config? who = o.before.config? who := by
    refine (ho.course.trans hlater).config?_kept hp₁ fun o' ho' x hx => ?_
    rcases List.mem_cons.mp ho' with rfl | ho'
    · rw [show x = _ from List.mem_singleton.mp (hchanges ▸ hx)]
      exact ⟨id, nofun⟩
    · obtain ⟨hclosing, hsteps⟩ := hafter o' ho'
      exact ⟨hcalm o' (List.mem_append_right _ (List.mem_cons_of_mem o ho')) hclosing x hx,
        fun heq => absurd (hsteps _ (heq ▸ hx)) (by decide)⟩
  obtain ⟨c, hconfig⟩ := hp₁.config?
  refine ⟨past, o, later, c, rfl, hchanges, hkept.trans hconfig, fun hsaved hlast => ?_⟩
  have hcomes := ho.comes
  rw [hchanges] at hcomes
  obtain ⟨h₁, hq, hq'⟩ := hcomes.single
  have hquiet {h h' : Host} (hq : Quiet h h') (hk : h.store.Keeps h.tree who.id c) :
      h'.store.Keeps h'.tree who.id c := by
    rw [show h'.store = h.store from hq.agrees .store not_false,
      show h'.tree = h.tree from hq.agrees .tree not_false]
    exact hk
  have hmade : o.after.store.Keeps o.after.tree who.id c := by
    refine hquiet hq' (store_keeps_saveConfig
      ((hq.agrees (.config who) not_false hp₁.known).trans hconfig) ?_)
    rw [show h₁.store = o.before.store from hq.agrees .store not_false,
      show h₁.tree = o.before.tree from hq.agrees .tree not_false]
    exact hsaved
  exact ConfigStore.load_of_keeps (hlater.keeps (P := fun h => h.store.Keeps h.tree who.id c) hquiet
    (fun o' ho' x hx h _ hk => store_keeps_on hk fun w hw heq => hlast o' ho' w hw (heq ▸ hx)) hmade)

end

/-! ## 3. The whole of it -/

/-- Every spawn makes such a change. -/
theorem spawns_of_ok {id : UInt32} {isDebugger : Bool} (hr : Rostered h)
    (hthread : h.stage? who = none) (hs : h.spawn id isDebugger = (.ok who, h')) :
    Spawns h (.spawn id isDebugger) who ∧ (Change.spawn id isDebugger).on h = h' := by
  have hon : (Change.spawn id isDebugger).on h = h' := by
    show (h.spawn id isDebugger).2 = h'
    rw [hs]
  obtain ⟨hwho, -, hreg, hthreads, -⟩ := spawn_ok hs
  refine ⟨⟨?_, ?_, ?_⟩, hon⟩
  · cases hc : h.computer? who with
    | none => rfl
    | some c =>
      have hlt := hr.drawn who (by rw [hc]; rfl)
      rw [hwho] at hlt
      exact absurd hlt (Nat.lt_irrefl _)
  · rw [hon]
    refine (rostered_of_spawn_ok hr hs).known who ?_
    rw [hreg]
    exact List.mem_append_right _ List.mem_cons_self
  · rw [hon]
    unfold stage? at hthread ⊢
    rw [hthreads, List.lookup_append, hthread]
    simp

/-- When the thread of a computer is gone, everything that the computer was given has been let go, each
thing once: the connections were closed, the peripherals detached, the finalizers run in the order in
which they were added. That is so whatever happened to it from its spawn on, as long as nobody gives it
anything from outside once its teardown has begun. -/
theorem released_exactly_once (setup : HostSetup) (tree : FileTree) (store : ConfigStore)
    {evolution : List (Host × Change)} (he : Evolves (Host.new setup tree store) evolution h₁)
    (hspawn : Spawns h₁ x who) (hc : Course who (x.on h₁) trace h)
    (hgone : h.stage? who = some .gone)
    (hcalls : ∀ o ∈ trace, o.Closing who → o.mover = none → ∀ y ∈ o.changes, ¬y.Gives who) :
    Released who trace h := by
  have hstart : Present who (x.on h₁) :=
    ⟨rostered_on (rostered_of_evolves he (rostered_new setup tree store)) x, hspawn.known⟩
  have hempty := hspawn.ledger he
  have hcalm := hc.calm hcalls
  have hbooks : Ledger who trace h := hc.ledger hempty
  obtain ⟨hsides, hconnections, hfinalizers, htimers, hdebounce⟩ :=
    hc.emptied hstart hspawn.stage hgone hcalm
  exact {
    distinct := hbooks.distinct
    connections := by
      have hperm := hbooks.connections
      rw [hconnections, List.append_nil] at hperm
      exact hperm.symm
    closings := hbooks.closings
    connectionsOf := hconnections
    peripherals := by
      have hperm := hbooks.peripherals
      unfold namesOf at hperm
      rw [hsides, List.map_nil, List.append_nil] at hperm
      exact hperm.symm
    sidesOf := hsides
    kept := hc.kept
    finalizers := by rw [hbooks.finalizers, hfinalizers, List.append_nil]
    timersOf := htimers
    takenTimersOf := hc.marked hstart hspawn.stage hgone
    debounceOf? := hdebounce
    settings := hc.settings hstart hspawn.stage hgone hcalm hempty
    stored := hc.stored hstart hspawn.stage hgone hcalm
    resolve? := hc.retired hstart hspawn.stage hgone
    freed := hc.not_freed hstart hspawn.stage hgone
    references := hc.unreferenced hstart hspawn.stage hgone }

end

def leaving : Handle := ⟨7, 1⟩

/-- A computer gets a connection, a device and a finalizer, and is asked to stop. -/
def asked : List Change :=
  [.connect leaving "log", .supply "disk" (.device ⟨"drive", [], 0, 0, 0, 0⟩),
   .attach leaving "left" "disk", .addFinalizer leaving "tidy", .shutdown leaving]

/-- The connection is closed, the device let go of and the finalizer run, each of them once. -/
theorem released_exactly_once_leaving :
    ∃ trace h, Course leaving (spawning.spawn 7 false).2 trace h ∧ h.stage? leaving = some .gone ∧
      openedOf leaving trace = [⟨1, "log"⟩] ∧ h.closedOf leaving = ["log"] ∧
      h.releasedOf leaving = ["disk"] ∧ h.finalizedOf leaving = ["tidy"] ∧
      h.registry.referencesTo leaving = [] := by
  let spawned : Host := (spawning.spawn 7 false).2
  let stopped : Host := asked.foldl (fun h x => x.on h) spawned
  have hspawn : Spawns spawning (.spawn 7 false) leaving :=
    ⟨by decide +kernel, by decide +kernel, rfl⟩
  have hasked : Course leaving spawned (spawned.calls asked) stopped :=
    course_calls (by simp [asked, Change.IsCall]) spawned
  have hopen : ∀ o ∈ spawned.calls asked, ¬o.Closing leaving := by
    have hstages : ∀ o ∈ spawned.calls asked,
        (o.before.stage? leaving).any Stage.isClosing = false := by decide +kernel
    rintro o ho ⟨stage, hs, hclosing⟩
    exact absurd hclosing (Bool.eq_false_iff.mp ((Option.any_eq_false _ _).mp (hstages o ho) stage hs))
  -- One move to see that it was asked to stop, one to wind up, and the teardown.
  have hmoves : (stopped.moveOn? leaving 14).any
      (fun r => (r.2.stage? leaving).any Stage.isGone) = true := by decide +kernel
  obtain ⟨⟨_, h⟩, hm, hover⟩ := (Option.any_eq_true _ _).mp hmoves
  obtain ⟨moves, hthread, hmoved⟩ := course_of_moveOn? hm
  obtain ⟨stage, hs, hstage⟩ := (Option.any_eq_true _ _).mp hover
  have hgone : h.stage? leaving = some .gone := by
    cases stage with
    | gone => exact hs
    | _ => cases hstage
  have hreleased := released_exactly_once _ _ _ .refl hspawn (hasked.trans hthread) hgone
    fun o ho hclosing hnone => by
      rcases List.mem_append.mp ho with ho | ho
      · exact absurd hclosing (hopen o ho)
      · cases (hmoved o ho).1.symm.trans hnone
  obtain ⟨hopened, hattached, hadded⟩ :=
    given_before_thread leaving (spawned.calls asked) fun o ho => (hmoved o ho).2
  have hopened : openedOf leaving (spawned.calls asked ++ moves) = [⟨1, "log"⟩] :=
    hopened.trans (by decide +kernel)
  have hattached : attachedOf leaving (spawned.calls asked ++ moves) = ["disk"] :=
    hattached.trans (by decide +kernel)
  have htaken := hreleased.connections
  have hnames := hreleased.peripherals
  rw [hopened] at htaken
  rw [hattached] at hnames
  refine ⟨_, h, hasked.trans hthread, hgone, hopened, ?_, List.perm_singleton.mp hnames,
    hreleased.finalizers.trans (hadded.trans (by decide +kernel)),
    hreleased.references fun o ho hclosing => ?_⟩
  · rw [hreleased.closings, List.perm_singleton.mp htaken]
    rfl
  · rintro ⟨w, side, name, l, hattach, -⟩
    rcases List.mem_append.mp ho with ho | ho
    · exact hopen o ho hclosing
    · exact (hmoved o ho).2 _ hattach

end Host

end ComputerHost
