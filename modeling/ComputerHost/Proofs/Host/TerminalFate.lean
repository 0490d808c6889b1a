import ComputerHost.Proofs.Host.Construction
import ComputerHost.Proofs.Host.Stopping

/-!
# What becomes of a terminal

A terminal is held by the computer that it was made for, until the teardown of that computer lets go of it;
one that was made for a construction that fails is never held. A terminal that is held is in use: it is
neither destroyed nor kept. One that nobody holds is destroyed, or it is kept because it shows a failure, and
that once (`Balanced`). A terminal that was let go of stays as it is (`Settles`).

Results:
1. `Accounted.repaints`, `Accounted.setStage`: changes that leave terminals with whoever has them.
2. `accounted_spawn`: constructions.
3. `audits_releaseTerminal`: the move of a teardown that lets go of a terminal.
4. `audits_of_step`, `audits_of_passes`: whatever happens to a host.
5. `Journey.followed`, `terminals_accounted_for`: every terminal, along any journey.
-/

namespace ComputerHost

namespace Stage

/-- Is this step of the teardown still to be made? -/
def awaits (step : TeardownStep) : Stage → Bool
  | .tearingDown todo => todo.contains step
  | .gone => false
  | _ => true

/-- Has the thread not let go of the terminal yet? -/
def hasTerminal (stage : Stage) : Bool := stage.awaits .releaseTerminal

/-- Has the thread not taken its computer out of the registry yet? -/
def isListed (stage : Stage) : Bool := stage.awaits .retire

end Stage

namespace Host

def isDestroyed (h : Host) (n : Nat) : Bool := h.terminals[n]?.any (·.2.destroyed)

/-- Is a terminal in error mode? -/
def showsFailure (h : Host) (n : Nat) : Bool := h.terminals[n]?.any (·.2.errorMode)

/-- A computer has the terminal, and its thread has not let go of it. -/
def InUse (h : Host) (n : Nat) : Prop :=
  ∃ who stage, h.terminalNumber? who = some n ∧ h.stage? who = some stage ∧ stage.hasTerminal = true

/-- How the threads go with the computers and with the registry. -/
structure Threaded (h : Host) : Prop where
  drawn : ∀ {w}, (h.computer? w).isSome = true → w.generation < h.counters.generation
  known : ∀ {w stage}, h.stage? w = some stage → (h.computer? w).isSome = true
  closing : ∀ {w todo}, h.stage? w = some (.tearingDown todo) → todo <:+ teardownPlan
  listed : ∀ w ∈ h.registry.registered, ∃ stage, h.stage? w = some stage ∧ stage.isListed = true
  nodup : h.registry.registered.Nodup
  apart : Apart h

/-- A terminal is held and in use, or kept because it shows a failure, or destroyed. -/
structure Balanced (h : Host) : Prop where
  bound : ∀ n ∈ h.orphans, n < h.terminals.length
  held : ∀ n, h.InUse n → h.isDestroyed n = false ∧ n ∉ h.orphans
  kept : ∀ n < h.terminals.length, ¬h.InUse n → h.showsFailure n = true →
    h.isDestroyed n = false ∧ h.orphans.count n = 1
  destroyed : ∀ n < h.terminals.length, ¬h.InUse n → h.showsFailure n = false →
    h.isDestroyed n = true ∧ n ∉ h.orphans

structure Accounted (h : Host) : Prop extends Threaded h, Balanced h

/-- The books balance, and what nobody uses stays so and looks the same. -/
structure Audits (h h' : Host) : Prop where
  accounted : Accounted h'
  length : h.terminals.length ≤ h'.terminals.length
  free : ∀ n < h.terminals.length, ¬h.InUse n → ¬h'.InUse n
  failure : ∀ n < h.terminals.length, ¬h'.InUse n → h'.showsFailure n = h.showsFailure n

/-- No terminal is let go of either. -/
structure Settles (h h' : Host) : Prop extends Audits h h' where
  held : ∀ n, h.InUse n → h'.InUse n

/-- The thread of `w`, if there is one, goes on. -/
inductive Continues (h h' : Host) (w : Handle) : Prop
  | nobody : h.stage? w = none → h'.stage? w = none → Continues h h' w
  | goesOn {stage stage' : Stage} : h.stage? w = some stage → h'.stage? w = some stage' →
      (w ∈ h'.registry.registered → stage.isListed = true → stage'.isListed = true) →
      (∀ todo, stage' = .tearingDown todo → todo <:+ teardownPlan) → Continues h h' w

/-- No computer has come, and the threads go on. -/
structure Persists (h h' : Host) : Prop where
  length : h'.terminals.length = h.terminals.length
  number : ∀ w, h'.terminalNumber? w = h.terminalNumber? w
  known : ∀ w, (h'.computer? w).isSome = (h.computer? w).isSome
  drawn : h'.counters.generation = h.counters.generation
  registered : h'.registry.registered.Sublist h.registry.registered
  threads : ∀ w, Continues h h' w

/-- A change at which no terminal is made or let go of. -/
structure Repaints (h h' : Host) : Prop extends Persists h h' where
  orphans : h'.orphans = h.orphans
  destroyed : ∀ n, h'.isDestroyed n = h.isDestroyed n
  failure : ∀ n, ¬h.InUse n → h'.showsFailure n = h.showsFailure n
  inUse : ∀ n, h'.InUse n ↔ h.InUse n

/-- Before the moment a computer holds the terminal, or the terminal is not there; after it nobody does. -/
def Moment.LetsGo (n : Nat) (o : Moment) : Prop :=
  n < o.after.terminals.length ∧ ¬o.after.InUse n ∧
    (n < o.before.terminals.length → o.before.InUse n)

section
variable {who w : Handle} {h h' h₁ : Host} {n m : Nat} {stage stage' : Stage} {mover : Option Handle}

/-! ## 1. Single changes -/

theorem Settles.refl (ha : Accounted h) : Settles h h :=
  ⟨⟨ha, Nat.le_refl _, fun _ _ hno => hno, fun _ _ _ => rfl⟩, fun _ hn => hn⟩

theorem Settles.trans (hs : Settles h h₁) (hs' : Settles h₁ h') : Settles h h' where
  accounted := hs'.accounted
  length := Nat.le_trans hs.length hs'.length
  free n hn hno := hs'.free n (Nat.lt_of_lt_of_le hn hs.length) (hs.free n hn hno)
  failure n hn hno := by
    have hno₁ : ¬h₁.InUse n := fun hh => hno (hs'.held n hh)
    exact (hs'.failure n (Nat.lt_of_lt_of_le hn hs.length) hno).trans (hs.failure n hn hno₁)
  held n hn := hs'.held n (hs.held n hn)

theorem isDestroyed_onTerminal {f : Terminal → Terminal} (hf : ∀ t, (f t).destroyed = t.destroyed)
    (h : Host) (n m : Nat) : (h.onTerminal n f).isDestroyed m = h.isDestroyed m := by
  unfold isDestroyed
  rw [getElem?_onTerminal]
  split
  · cases h.terminals[m]? <;> simp [hf]
  · rfl

theorem showsFailure_onTerminal {f : Terminal → Terminal}
    (hf : n ≠ m ∨ ∀ t, (f t).errorMode = t.errorMode) (h : Host) :
    (h.onTerminal n f).showsFailure m = h.showsFailure m := by
  unfold showsFailure
  rw [getElem?_onTerminal]
  split
  · next heq =>
    have hf := hf.resolve_left fun hne => hne heq
    cases h.terminals[m]? <;> simp [hf]
  · rfl

theorem Threaded.persists (ht : Threaded h) (hp : Persists h h') : Threaded h' where
  drawn hw := by
    rw [hp.drawn]
    exact ht.drawn ((hp.known _).symm.trans hw)
  known {w stage'} hs' := by
    rw [hp.known]
    cases hp.threads w with
    | nobody _ hnone => cases hs'.symm.trans hnone
    | goesOn hs => exact ht.known hs
  closing {w todo} hs' := by
    cases hp.threads w with
    | nobody _ hnone => cases hs'.symm.trans hnone
    | goesOn _ hs₂ _ hclosing => exact hclosing todo (Option.some.inj (hs₂.symm.trans hs'))
  listed w hw := by
    obtain ⟨stage, hs, hlisted⟩ := ht.listed w (hp.registered.subset hw)
    cases hp.threads w with
    | nobody hnone => cases hs.symm.trans hnone
    | goesOn hs₁ hs' hkeep =>
      cases hs.symm.trans hs₁
      exact ⟨_, hs', hkeep hw hlisted⟩
  nodup := ht.nodup.sublist hp.registered
  apart := by
    refine ⟨fun hn => ?_, fun hn hn' => ?_⟩
    · rw [hp.length]
      exact ht.apart.bound ((hp.number _).symm.trans hn)
    · exact ht.apart.apart ((hp.number _).symm.trans hn) ((hp.number _).symm.trans hn')

theorem Accounted.repaints (ha : Accounted h) (hr : Repaints h h') : Settles h h' := by
  have hfree {n : Nat} (hno : ¬h'.InUse n) : ¬h.InUse n := fun hh => hno ((hr.inUse n).mpr hh)
  refine ⟨⟨{ ha.toThreaded.persists hr.toPersists with bound := ?_, held := ?_, kept := ?_, destroyed := ?_ },
    Nat.le_of_eq hr.length.symm, fun n _ hno hh => hno ((hr.inUse n).mp hh),
    fun n _ hno => hr.failure n (hfree hno)⟩, fun n => (hr.inUse n).mpr⟩
  · rw [hr.orphans, hr.length]
    exact ha.bound
  · intro n hn
    rw [hr.destroyed, hr.orphans]
    exact ha.held n ((hr.inUse n).mp hn)
  · intro n hn hno hshows
    rw [hr.destroyed, hr.orphans]
    exact ha.kept n (hr.length ▸ hn) (hfree hno) ((hr.failure n (hfree hno)).symm.trans hshows)
  · intro n hn hno hshows
    rw [hr.destroyed, hr.orphans]
    exact ha.destroyed n (hr.length ▸ hn) (hfree hno) ((hr.failure n (hfree hno)).symm.trans hshows)

/-- Who holds a terminal depends on who has it and on the stage of its thread. -/
theorem inUse_congr (hnumber : ∀ w, h'.terminalNumber? w = h.terminalNumber? w)
    (hstage : ∀ w, h'.stage? w = h.stage? w) (n : Nat) : h'.InUse n ↔ h.InUse n := by
  unfold InUse
  simp only [hnumber, hstage]

/-- A thread that stays at its stage. -/
theorem Accounted.continues (ha : Accounted h) (hs : h'.stage? w = h.stage? w) : Continues h h' w := by
  cases hw : h.stage? w with
  | none => exact .nobody hw (hs.trans hw)
  | some stage =>
    refine .goesOn hw (hs.trans hw) (fun _ => id) ?_
    rintro todo rfl
    exact ha.closing hw

/-- What is not about terminals changes nothing, nor do dialogs that wait. -/
theorem Accounted.of_scene (ha : Accounted h) (hs : { h'.scene with tasks := h.tasks } = h.scene) :
    Settles h h' := by
  have hterminals : h'.terminals = h.terminals := congrArg Scene.terminals hs
  have howner (w : Handle) : (h'.computer? w).map (·.terminal) = (h.computer? w).map (·.terminal) :=
    congrFun (congrArg Scene.owner hs) w
  have hreg : h'.registry.registered = h.registry.registered := congrArg Scene.registered hs
  have hthreads : h'.threads = h.threads := congrArg Scene.threads hs
  have hnumber (w : Handle) : h'.terminalNumber? w = h.terminalNumber? w := by
    rw [terminalNumber?_eq_owner, terminalNumber?_eq_owner]
    exact congrArg Option.join (howner w)
  have hstage (w : Handle) : h'.stage? w = h.stage? w := by rw [stage?, hthreads, stage?]
  exact ha.repaints {
    length := congrArg List.length hterminals
    orphans := congrArg Scene.orphans hs
    destroyed := fun n => by rw [isDestroyed, hterminals, isDestroyed]
    failure := fun n _ => by rw [showsFailure, hterminals, showsFailure]
    inUse := inUse_congr hnumber hstage
    number := hnumber
    known := fun w => by rw [← Option.isSome_map, howner, Option.isSome_map]
    drawn := congrArg Scene.generation hs
    registered := by rw [hreg]
    threads := fun w => ha.continues (hstage w) }

theorem Accounted.same (ha : Accounted h) (hs : h'.scene = h.scene) : Settles h h' :=
  ha.of_scene (by rw [hs]; rfl)

/-- Something is done to a terminal, other than destroying it; and if nobody holds it, it shows the same. -/
theorem Accounted.onTerminal (ha : Accounted h) {f : Terminal → Terminal}
    (hf : ∀ t, (f t).destroyed = t.destroyed) (hn : h.InUse n ∨ ∀ t, (f t).errorMode = t.errorMode) :
    Settles h (h.onTerminal n f) := by
  refine ha.repaints {
    length := List.length_modify ..
    orphans := rfl
    destroyed := isDestroyed_onTerminal hf h n
    failure := fun m hfree => showsFailure_onTerminal (hn.imp_left fun hheld heq => ?_) h
    inUse := fun _ => Iff.rfl
    number := fun _ => rfl
    known := fun _ => rfl
    drawn := rfl
    registered := .refl _
    threads := fun _ => ha.continues rfl }
  exact hfree (heq ▸ hheld)

/-- The other threads stay where they are when one goes on. -/
theorem Accounted.goesOn (ha : Accounted h) (hs : h.stage? who = some stage)
    (hthreads : h'.threads = (h.setStage who stage').threads)
    (hlisted : who ∈ h'.registry.registered → stage.isListed = true → stage'.isListed = true)
    (hclosing : ∀ todo, stage' = .tearingDown todo → todo <:+ teardownPlan) (w : Handle) :
    Continues h h' w := by
  have hstage : h'.stage? w = (h.setStage who stage').stage? w := by
    rw [Host.stage?, hthreads, Host.stage?]
  by_cases hw : w = who
  · subst hw
    exact .goesOn hs (hstage.trans (stage?_setStage_self hs stage')) hlisted hclosing
  · exact ha.continues (hstage.trans (by rw [stage?_setStage, if_neg hw]))

theorem inUse_setStage (hs : h.stage? who = some stage)
    (hhas : stage'.hasTerminal = stage.hasTerminal ∨ h.terminalNumber? who = none) (n : Nat) :
    (h.setStage who stage').InUse n ↔ h.InUse n := by
  unfold InUse
  refine exists_congr fun w => ?_
  show (∃ s, h.terminalNumber? w = some n ∧ (h.setStage who stage').stage? w = some s ∧ _) ↔ _
  by_cases hw : w = who
  · subst hw
    rw [stage?_setStage_self hs, hs]
    rcases hhas with hhas | hnone
    · simp [hhas]
    · simp [hnone]
  · rw [stage?_setStage, if_neg hw]

/-- A thread goes on without letting go of a terminal, and its computer may be taken out of the registry. -/
theorem Accounted.setStage (ha : Accounted h) (hs : h.stage? who = some stage)
    (hhas : stage'.hasTerminal = stage.hasTerminal ∨ h.terminalNumber? who = none)
    (registry : Registry)
    (hregistered : registry.registered.Sublist h.registry.registered)
    (hlisted : who ∈ registry.registered → stage.isListed = true → stage'.isListed = true)
    (hclosing : ∀ todo, stage' = .tearingDown todo → todo <:+ teardownPlan) :
    Settles h (({ h with registry } : Host).setStage who stage') :=
  ha.repaints {
    length := rfl
    orphans := rfl
    destroyed := fun _ => rfl
    failure := fun _ _ => rfl
    inUse := inUse_setStage (h := { h with registry }) hs hhas
    number := fun _ => rfl
    known := fun _ => rfl
    drawn := rfl
    registered := hregistered
    threads := ha.goesOn hs rfl hlisted hclosing }

/-! ## 2. Constructions -/

theorem isDestroyed_of_append {id : UInt32} {t : Terminal}
    (ht : h'.terminals = h.terminals ++ [(id, t)]) :
    h'.isDestroyed h.terminals.length = t.destroyed ∧ h'.showsFailure h.terminals.length = t.errorMode := by
  unfold isDestroyed showsFailure
  rw [ht, List.getElem?_concat_length]
  exact ⟨rfl, rfl⟩

/-- What a construction does to the terminals that were there. -/
theorem Furnishes.old {terminal : Option Nat} (hf : Furnishes h h' terminal)
    (hm : m < h.terminals.length) :
    h'.isDestroyed m = h.isDestroyed m ∧ h'.showsFailure m = h.showsFailure m ∧
      h'.orphans.count m = h.orphans.count m := by
  refine ⟨by rw [isDestroyed, hf.getElem? hm, isDestroyed],
    by rw [showsFailure, hf.getElem? hm, showsFailure], ?_⟩
  cases hf with
  | nothing _ ho | given _ _ _ ho | destroyed _ _ _ ho => rw [ho]
  | kept _ _ _ ho =>
    have hne : h.terminals.length ≠ m := by omega
    rw [ho, List.count_append, List.count_singleton, beq_eq_false_iff_ne.mpr hne]
    rfl

/-- What a construction does to the terminal that it makes. -/
theorem Furnishes.new {terminal : Option Nat} (hf : Furnishes h h' terminal)
    (hbound : ∀ n ∈ h.orphans, n < h.terminals.length) (hm : h.terminals.length ≤ m)
    (hm' : m < h'.terminals.length) :
    m = h.terminals.length ∧
      ((terminal = some m ∧ h'.isDestroyed m = false ∧ m ∉ h'.orphans) ∨
        (terminal = none ∧ h'.showsFailure m = true ∧ h'.isDestroyed m = false ∧
          h'.orphans.count m = 1) ∨
        (terminal = none ∧ h'.showsFailure m = false ∧ h'.isDestroyed m = true ∧ m ∉ h'.orphans)) := by
  have hfree : h.terminals.length ∉ h.orphans := fun hmem => Nat.lt_irrefl _ (hbound _ hmem)
  have hlast {id : UInt32} {t : Terminal} (ht : h'.terminals = h.terminals ++ [(id, t)]) :
      m = h.terminals.length := by
    rw [ht, List.length_append, List.length_singleton] at hm'
    omega
  cases hf with
  | nothing ht =>
    rw [ht] at hm'
    omega
  | given ht hdestroyed _ ho =>
    obtain rfl := hlast ht
    rw [(isDestroyed_of_append ht).1, ho]
    exact ⟨rfl, .inl ⟨rfl, hdestroyed, hfree⟩⟩
  | destroyed ht hdestroyed hmode ho =>
    obtain rfl := hlast ht
    rw [(isDestroyed_of_append ht).1, (isDestroyed_of_append ht).2, ho]
    exact ⟨rfl, .inr (.inr ⟨rfl, hmode, hdestroyed, hfree⟩)⟩
  | kept ht hdestroyed hmode ho =>
    obtain rfl := hlast ht
    rw [(isDestroyed_of_append ht).1, (isDestroyed_of_append ht).2, ho]
    refine ⟨rfl, .inr (.inl ⟨rfl, hmode, hdestroyed, ?_⟩)⟩
    rw [List.count_append, List.count_eq_zero_of_not_mem hfree, List.count_singleton_self]

theorem InUse.lt (hn : h.InUse n) (ha : Apart h) : n < h.terminals.length := by
  obtain ⟨w, -, hw, -⟩ := hn
  exact ha.bound hw

/-- The books after a construction. -/
theorem Accounted.furnishes {terminal : Option Nat} (ha : Accounted h) (hf : Furnishes h h' terminal)
    (ht : Threaded h') (huse : ∀ m, h'.InUse m ↔ h.InUse m ∨ terminal = some m) : Settles h h' := by
  obtain ⟨hlength, hnew⟩ := hf.length
  have hmem (m : Nat) (hm : m < h.terminals.length) : m ∈ h'.orphans ↔ m ∈ h.orphans := by
    rw [← List.count_pos_iff, ← List.count_pos_iff, (hf.old hm).2.2]
  have hfree (m : Nat) (hm : m < h.terminals.length) (hno : ¬h.InUse m) : ¬h'.InUse m := by
    rintro hh
    rcases (huse m).mp hh with hh | heq
    · exact hno hh
    · have := (hnew m heq).1
      omega
  refine ⟨⟨{ ht with bound := ?_, held := ?_, kept := ?_, destroyed := ?_ }, hlength, hfree,
    fun m hm _ => (hf.old hm).2.1⟩, fun m hm => (huse m).mpr (.inl hm)⟩
  · intro n hn
    by_cases hlt : n < h.terminals.length
    · omega
    · cases hf with
      | kept ht _ _ ho =>
        rw [ho] at hn
        rcases List.mem_append.mp hn with hn | hn
        · exact absurd (ha.bound n hn) hlt
        · rw [List.mem_singleton.mp hn, ht]
          simp
      | nothing _ ho | given _ _ _ ho | destroyed _ _ _ ho =>
        rw [ho] at hn
        exact absurd (ha.bound n hn) hlt
  · intro n hn
    rcases (huse n).mp hn with hold | heq
    · have hlt := hold.lt ha.apart
      rw [(hf.old hlt).1, hmem n hlt]
      exact ha.held n hold
    · obtain ⟨rfl, hlt⟩ := hnew n heq
      obtain ⟨-, ⟨-, hdestroyed, hno⟩ | ⟨hnone, -⟩ | ⟨hnone, -⟩⟩ := hf.new ha.bound (Nat.le_refl _) hlt
      · exact ⟨hdestroyed, hno⟩
      · cases heq.symm.trans hnone
      · cases heq.symm.trans hnone
  · intro n hn hno hshows
    have hno' : ¬h.InUse n := fun hh => hno ((huse n).mpr (.inl hh))
    by_cases hlt : n < h.terminals.length
    · rw [(hf.old hlt).1, (hf.old hlt).2.2]
      exact ha.kept n hlt hno' ((hf.old hlt).2.1.symm.trans hshows)
    · obtain ⟨-, ⟨heq, -⟩ | ⟨-, -, hkept⟩ | ⟨-, hnot, -⟩⟩ := hf.new ha.bound (Nat.le_of_not_lt hlt) hn
      · exact absurd ((huse n).mpr (.inr heq)) hno
      · exact hkept
      · cases hshows.symm.trans hnot
  · intro n hn hno hshows
    have hno' : ¬h.InUse n := fun hh => hno ((huse n).mpr (.inl hh))
    by_cases hlt : n < h.terminals.length
    · rw [(hf.old hlt).1, hmem n hlt]
      exact ha.destroyed n hlt hno' ((hf.old hlt).2.1.symm.trans hshows)
    · obtain ⟨-, ⟨heq, -⟩ | ⟨-, hnot, -⟩ | ⟨-, -, hgone⟩⟩ := hf.new ha.bound (Nat.le_of_not_lt hlt) hn
      · exact absurd ((huse n).mpr (.inr heq)) hno
      · cases hshows.symm.trans hnot
      · exact hgone

theorem accounted_of_aborts (ha : Accounted h) (hab : Aborts h h') : Settles h h' := by
  have hscene : h'.threads = h.threads ∧ h'.computers = h.computers ∧ h'.registry = h.registry ∧
      h'.counters = h.counters := by
    rw [hab.rest]
    exact ⟨rfl, rfl, rfl, rfl⟩
  obtain ⟨hthreads, hcomputers, hregistry, hcounters⟩ := hscene
  have hcomputer (w : Handle) : h'.computer? w = h.computer? w := by
    rw [computer?, hcomputers, computer?]
  have hnumber (w : Handle) : h'.terminalNumber? w = h.terminalNumber? w := by
    rw [terminalNumber?, hcomputer, terminalNumber?]
  have hstage (w : Handle) : h'.stage? w = h.stage? w := by rw [stage?, hthreads, stage?]
  refine ha.furnishes hab.furnishes {
    drawn := fun hw => ?_, known := fun hs => ?_, closing := fun hs => ?_, listed := fun w hw => ?_,
    nodup := ?_, apart := ⟨fun hn => ?_, fun hn hn' => ?_⟩ } fun m => ?_
  · rw [hcounters]
    exact ha.drawn (hcomputer _ ▸ hw)
  · rw [hcomputer]
    exact ha.known ((hstage _).symm.trans hs)
  · exact ha.closing ((hstage _).symm.trans hs)
  · rw [hregistry] at hw
    rw [hstage]
    exact ha.listed w hw
  · rw [hregistry]
    exact ha.nodup
  · exact Nat.lt_of_lt_of_le (ha.apart.bound ((hnumber _).symm.trans hn)) hab.furnishes.length.1
  · exact ha.apart.apart ((hnumber _).symm.trans hn) ((hnumber _).symm.trans hn')
  · simp [InUse, hnumber, hstage]

/-- Who joins has not been there, and its thread is the only new one. -/
theorem Joins.stage? {terminal : Option Nat} (hj : Joins h h' who terminal) (hnone : h.stage? who = none)
    (w : Handle) : h'.stage? w = if w = who then some .betweenBoots else h.stage? w := by
  unfold Host.stage? at hnone ⊢
  rw [hj.threads, List.lookup_append]
  by_cases hw : w = who
  · subst hw
    rw [hnone, if_pos rfl]
    simp
  · rw [if_neg hw]
    cases h.threads.lookup w <;> simp [hw]

/-- Who joins has not been known. -/
theorem Joins.computer?_eq_none {terminal : Option Nat} (hj : Joins h h' who terminal) (ht : Threaded h) :
    h.computer? who = none := by
  cases hc : h.computer? who with
  | none => rfl
  | some c =>
    have hlt := ht.drawn (w := who) (by rw [hc]; rfl)
    rw [hj.generation] at hlt
    exact absurd hlt (Nat.lt_irrefl _)

theorem Joins.stage?_eq_none {terminal : Option Nat} (hj : Joins h h' who terminal) (ht : Threaded h) :
    h.stage? who = none := by
  cases hs : h.stage? who with
  | none => rfl
  | some stage =>
    have hknown := ht.known hs
    rw [hj.computer?_eq_none ht] at hknown
    cases hknown

theorem Joins.isSome_computer? {terminal : Option Nat} (hj : Joins h h' who terminal) (w : Handle) :
    (h'.computer? w).isSome = ((h.computer? w).isSome || decide (w = who)) := by
  have hw := congrArg Option.isSome (hj.owner w)
  rw [Option.isSome_map, Option.isSome_or, Option.isSome_map] at hw
  rw [hw]
  by_cases heq : who = w
  · simp [heq]
  · simp [heq, Ne.symm heq]

theorem Joins.terminalNumber? {terminal : Option Nat} (hj : Joins h h' who terminal) (ht : Threaded h)
    (w : Handle) :
    h'.terminalNumber? w = if w = who then terminal else h.terminalNumber? w := by
  have hunknown := hj.computer?_eq_none ht
  rw [terminalNumber?_eq_owner, terminalNumber?_eq_owner]
  show ((h'.computer? w).map (·.terminal)).join =
    if w = who then _ else ((h.computer? w).map (·.terminal)).join
  rw [hj.owner]
  by_cases heq : who = w
  · subst heq
    simp [hunknown]
  · simp [heq, Ne.symm heq]

theorem Joins.apart {terminal : Option Nat} (hj : Joins h h' who terminal) (ht : Threaded h) :
    Apart h' := by
  obtain ⟨hlength, hnew⟩ := hj.furnishes.length
  have hnumber := hj.terminalNumber? ht
  constructor
  · intro w n hn
    rw [hnumber] at hn
    split at hn
    · exact (hnew n hn).2
    · exact Nat.lt_of_lt_of_le (ht.apart.bound hn) hlength
  · intro w v n hn hn'
    rw [hnumber] at hn hn'
    split at hn <;> split at hn'
    · next hw hv => exact hw.trans hv.symm
    · have := ht.apart.bound hn'
      have := (hnew n hn).1
      omega
    · have := ht.apart.bound hn
      have := (hnew n hn').1
      omega
    · exact ht.apart.apart hn hn'

/-- The threads after a construction that succeeds. -/
theorem Threaded.joins {terminal : Option Nat} (ht : Threaded h) (hj : Joins h h' who terminal) :
    Threaded h' := by
  have hno := hj.stage?_eq_none ht
  have hstage := hj.stage? hno
  have hknown := hj.isSome_computer?
  refine { drawn := fun {w} hw => ?_, known := fun {w stage} hs => ?_, closing := fun {w todo} hs => ?_,
           listed := fun w hw => ?_, nodup := ?_, apart := hj.apart ht }
  · rw [hj.drawn]
    rw [hknown, Bool.or_eq_true, decide_eq_true_iff] at hw
    rcases hw with hw | rfl
    · exact Nat.lt_succ_of_lt (ht.drawn hw)
    · rw [hj.generation]
      exact Nat.lt_succ_self _
  · rw [hstage] at hs
    rw [hknown]
    split at hs
    · next heq => simp [heq]
    · simp [ht.known hs]
  · rw [hstage] at hs
    split at hs
    · cases hs
    · exact ht.closing hs
  · rw [hj.registered] at hw
    rw [hstage]
    split
    · exact ⟨_, rfl, rfl⟩
    · next hne =>
      refine ht.listed w ((List.mem_append.mp hw).resolve_right fun hmem => ?_)
      exact hne (List.mem_singleton.mp hmem)
  · rw [hj.registered]
    refine List.nodup_append.mpr ⟨ht.nodup, List.nodup_singleton who, fun v hv u hu => ?_⟩
    rw [List.mem_singleton.mp hu]
    rintro rfl
    obtain ⟨stage, hs, -⟩ := ht.listed v hv
    cases hs.symm.trans hno

/-- Who joins uses its terminal, and everybody else goes on using theirs. -/
theorem Joins.inUse {terminal : Option Nat} (hj : Joins h h' who terminal) (ht : Threaded h) (m : Nat) :
    h'.InUse m ↔ h.InUse m ∨ terminal = some m := by
  have hno := hj.stage?_eq_none ht
  have hstage := hj.stage? hno
  have hnumber := hj.terminalNumber? ht
  constructor
  · rintro ⟨w, stage, hn, hs, hhas⟩
    rw [hnumber] at hn
    rw [hstage] at hs
    by_cases hw : w = who
    · rw [if_pos hw] at hn
      exact .inr hn
    · rw [if_neg hw] at hn hs
      exact .inl ⟨w, stage, hn, hs, hhas⟩
  · rintro (⟨w, stage, hn, hs, hhas⟩ | hterminal)
    · have hw : w ≠ who := by
        rintro rfl
        cases hs.symm.trans hno
      exact ⟨w, stage, by rw [hnumber, if_neg hw, hn], by rw [hstage, if_neg hw, hs], hhas⟩
    · exact ⟨who, .betweenBoots, by rw [hnumber, if_pos rfl, hterminal], by rw [hstage, if_pos rfl], rfl⟩

theorem accounted_of_joins {terminal : Option Nat} (ha : Accounted h) (hj : Joins h h' who terminal) :
    Settles h h' :=
  ha.furnishes hj.furnishes (ha.toThreaded.joins hj) (hj.inUse ha.toThreaded)

theorem accounted_spawn (ha : Accounted h) (id : UInt32) (isDebugger : Bool) :
    Settles h (h.spawn id isDebugger).2 := by
  rcases hs : h.spawn id isDebugger with ⟨e | who, h₁⟩
  · have haborts := (aborts_of_spawn_error (congrArg Prod.fst hs)).1
    rw [hs] at haborts
    exact accounted_of_aborts ha haborts
  · obtain ⟨terminal, hj⟩ := joins_of_spawn_ok hs
    exact accounted_of_joins ha hj

theorem Accounted.yieldsTo (ha : Accounted h) (hy : YieldsTo h h') : Settles h h' := by
  cases hy with
  | same hs => exact ha.same hs
  | @spawns h₁ id isDebugger hbefore hafter =>
    have hfirst := ha.same hbefore
    have hspawn := accounted_spawn hfirst.accounted id isDebugger
    exact (hfirst.trans hspawn).trans (hspawn.accounted.same hafter)

/-! ## 3. Teardowns -/

/-- A terminal is let go of: it is kept if it shows a failure, and destroyed otherwise. -/
theorem Accounted.letsGo (ha : Accounted h) (hs : h.stage? who = some stage)
    (hhas : stage.hasTerminal = true) (hn : h.terminalNumber? who = some n) (hp : Persists h h')
    (hs' : h'.stage? who = some stage') (hhas' : stage'.hasTerminal = false)
    (hothers : ∀ w ≠ who, h'.stage? w = h.stage? w)
    (hrest : ∀ m ≠ n, h'.isDestroyed m = h.isDestroyed m ∧ h'.orphans.count m = h.orphans.count m)
    (hfailure : ∀ m, h'.showsFailure m = h.showsFailure m)
    (hit : h.showsFailure n = true ∧ h'.isDestroyed n = false ∧ h'.orphans.count n = 1 ∨
      h.showsFailure n = false ∧ h'.isDestroyed n = true ∧ n ∉ h'.orphans) : Audits h h' := by
  have huse (m : Nat) : h'.InUse m ↔ h.InUse m ∧ m ≠ n := by
    constructor
    · rintro ⟨w, stage₁, hw, hs₁, hhas₁⟩
      by_cases hwho : w = who
      · subst hwho
        cases hs'.symm.trans hs₁
        cases hhas'.symm.trans hhas₁
      · rw [hp.number] at hw
        refine ⟨⟨w, stage₁, hw, (hothers w hwho).symm.trans hs₁, hhas₁⟩, ?_⟩
        rintro rfl
        exact hwho (ha.apart.apart hw hn)
    · rintro ⟨⟨w, stage₁, hw, hs₁, hhas₁⟩, hne⟩
      have hwho : w ≠ who := by
        rintro rfl
        exact hne (Option.some.inj (hw.symm.trans hn))
      exact ⟨w, stage₁, (hp.number w).trans hw, (hothers w hwho).trans hs₁, hhas₁⟩
  have hused : h.InUse n := ⟨who, stage, hn, hs, hhas⟩
  have hlt : n < h.terminals.length := ha.apart.bound hn
  have hmem (m : Nat) (hm : m ≠ n) : m ∈ h'.orphans ↔ m ∈ h.orphans := by
    rw [← List.count_pos_iff, ← List.count_pos_iff, (hrest m hm).2]
  refine ⟨{ ha.toThreaded.persists hp with bound := ?_, held := ?_, kept := ?_, destroyed := ?_ },
    Nat.le_of_eq hp.length.symm, fun m _ hno hh => hno ((huse m).mp hh).1, fun m _ _ => hfailure m⟩
  · intro m hm
    rw [hp.length]
    by_cases heq : m = n
    · rwa [heq]
    · exact ha.bound m ((hmem m heq).mp hm)
  · intro m hm
    obtain ⟨hold, hne⟩ := (huse m).mp hm
    rw [(hrest m hne).1, hmem m hne]
    exact ha.held m hold
  · intro m hm hno hshows
    rw [hfailure] at hshows
    by_cases heq : m = n
    · subst heq
      rcases hit with ⟨-, hkept⟩ | ⟨hnot, -⟩
      · exact hkept
      · cases hshows.symm.trans hnot
    · rw [(hrest m heq).1, (hrest m heq).2]
      exact ha.kept m (hp.length ▸ hm) (fun hh => hno ((huse m).mpr ⟨hh, heq⟩)) hshows
  · intro m hm hno hshows
    rw [hfailure] at hshows
    by_cases heq : m = n
    · subst heq
      rcases hit with ⟨hnot, -⟩ | ⟨-, hgone⟩
      · cases hshows.symm.trans hnot
      · exact hgone
    · rw [(hrest m heq).1, hmem m heq]
      exact ha.destroyed m (hp.length ▸ hm) (fun hh => hno ((huse m).mpr ⟨hh, heq⟩)) hshows

theorem audits_releaseTerminal {todo : List TeardownStep} (ha : Accounted h)
    (hs : h.stage? who = some (.tearingDown (.releaseTerminal :: todo))) :
    Audits h ((h.releaseTerminal who).setStage who (.tearingDown todo)) := by
  have hclosing := ha.closing hs
  have hdone : (Stage.tearingDown todo).hasTerminal = false := by
    have hnodup : teardownPlan.Nodup := by decide
    have hno := (List.nodup_cons.mp (hnodup.sublist hclosing.sublist)).1
    simp [Stage.hasTerminal, Stage.awaits, hno]
  have hsuffix : ∀ todo', Stage.tearingDown todo = .tearingDown todo' → todo' <:+ teardownPlan := by
    rintro _ ⟨⟩
    exact (List.suffix_cons ..).trans hclosing
  have hlisted (hlist : (Stage.tearingDown (.releaseTerminal :: todo)).isListed = true) :
      (Stage.tearingDown todo).isListed = true := by
    simpa [Stage.isListed, Stage.awaits] using hlist
  have hothers (h₁ : Host) : ∀ w ≠ who, (h₁.setStage who (.tearingDown todo)).stage? w = h₁.stage? w :=
    fun w hw => by rw [stage?_setStage, if_neg hw]
  obtain ⟨hnone, heq⟩ | ⟨n, t, ht, hcases⟩ := releaseTerminal_cases h who
  · rw [heq]
    have hnumber : h.terminalNumber? who = none := ha.apart.terminalOf?_eq_none.mp hnone
    exact (ha.setStage hs (.inr hnumber) h.registry (.refl _) (fun _ => hlisted) hsuffix).toAudits
  · obtain ⟨hn, ht⟩ := terminalOf?_eq_some.mp ht
    obtain ⟨⟨id, t⟩, hentry, rfl⟩ := Option.map_eq_some_iff.mp ht
    have hused : h.InUse n := ⟨who, _, hn, hs, rfl⟩
    obtain ⟨hintact, hfree⟩ := ha.held n hused
    have hmode : h.showsFailure n = t.errorMode := by rw [showsFailure, hentry]; rfl
    rcases hcases with ⟨herror, heq⟩ | ⟨hcalm, heq⟩ <;> rw [heq]
    · refine ha.letsGo hs rfl hn ⟨rfl, fun _ => rfl, fun _ => rfl, rfl, .refl _,
        ha.goesOn hs rfl (fun _ => hlisted) hsuffix⟩ (stage?_setStage_self hs _) hdone
        (hothers { h with orphans := h.orphans ++ [n] }) (fun m hm => ⟨rfl, ?_⟩) (fun _ => rfl)
        (.inl ⟨?_, hintact, ?_⟩)
      · show (h.orphans ++ [n]).count m = _
        rw [List.count_append, List.count_singleton, beq_eq_false_iff_ne.mpr (Ne.symm hm)]
        rfl
      · rw [hmode, herror]
      · show (h.orphans ++ [n]).count n = 1
        rw [List.count_append, List.count_eq_zero_of_not_mem hfree, List.count_singleton_self]
    · refine ha.letsGo hs rfl hn ⟨List.length_modify .., fun _ => rfl, fun _ => rfl, rfl, .refl _,
        ha.goesOn hs rfl (fun _ => hlisted) hsuffix⟩ (stage?_setStage_self hs _) hdone
        (hothers ((h.onTerminal n Terminal.destroy).note who .terminalDestroyed)) (fun m hm => ⟨?_, rfl⟩)
        (fun m => showsFailure_onTerminal (f := Terminal.destroy) (.inr fun _ => rfl) h)
        (.inr ⟨?_, ?_, hfree⟩)
      · show (h.onTerminal n Terminal.destroy).isDestroyed m = _
        unfold isDestroyed
        rw [getElem?_onTerminal, if_neg (Ne.symm hm)]
      · rw [hmode, hcalm]
      · show (h.onTerminal n Terminal.destroy).isDestroyed n = true
        rw [isDestroyed, getElem?_onTerminal, if_pos rfl, hentry]
        rfl

theorem settles_retire {todo : List TeardownStep} (ha : Accounted h)
    (hs : h.stage? who = some (.tearingDown (.retire :: todo))) :
    Settles h ((h.teardownStep who .retire).setStage who (.tearingDown todo)) := by
  refine ha.setStage hs (.inl ?_) (h.registry.retire who).2 List.erase_sublist (fun hw => ?_) ?_
  · simp [Stage.hasTerminal, Stage.awaits]
  · exact absurd hw (List.Nodup.not_mem_erase ha.nodup)
  · rintro _ ⟨⟩
    exact (List.suffix_cons ..).trans (ha.closing hs)

/-! ## 4. Threads -/

theorem YieldsTo.stage? (hy : YieldsTo h h') (hs : h.stage? who = some stage) :
    h'.stage? who = some stage := by
  cases hy with
  | same heq => exact (stage?_of_scene heq who).trans hs
  | @spawns h₁ id isDebugger hbefore hafter =>
    rw [stage?_of_scene hafter]
    exact (keeps_spawn h₁ id isDebugger).stage stage ((stage?_of_scene hbefore who).trans hs)

/-- A step of a thread makes no step of the teardown but the one that is due. -/
theorem awaits_of_leads {changes : List Change} {step : TeardownStep}
    (hl : Leads who h stage changes stage') (hne : ∀ todo, stage ≠ .tearingDown (step :: todo)) :
    stage'.awaits step = stage.awaits step := by
  cases hl with
  | @runs _ stage' _ _ _ hin _ hy =>
    cases hy with
    | goesOn hprogram => cases hin <;> cases stage' <;> first | rfl | cases hprogram
    | ends | panics => cases hin <;> rfl
  | panicked | windsUp => cases step <;> rfl
  | @tearsDown due todo =>
    have hdue : due ≠ step := fun heq => hne todo (heq ▸ rfl)
    simp [Stage.awaits, hdue.symm]
  | _ => rfl

theorem closing_suffix_of_leads {changes : List Change} (hl : Leads who h stage changes stage')
    (hclosing : ∀ todo, stage = .tearingDown todo → todo <:+ teardownPlan) (todo : List TeardownStep)
    (hs' : stage' = .tearingDown todo) : todo <:+ teardownPlan := by
  subst hs'
  cases hl with
  | runs _ _ hy =>
    cases hy with
    | goesOn hprogram => cases hprogram
  | panicked | windsUp => exact List.suffix_rfl
  | tearsDown => exact (List.suffix_cons ..).trans (hclosing _ rfl)

/-- A step of a thread that is not about the terminal or the registry. -/
theorem Accounted.leads {h₀ : Host} {changes : List Change} (ha : Accounted h)
    (hs : h.stage? who = some stage) (hl : Leads who h₀ stage changes stage')
    (hretire : ∀ todo, stage ≠ .tearingDown (.retire :: todo))
    (hrelease : ∀ todo, stage ≠ .tearingDown (.releaseTerminal :: todo)) :
    Settles h (h.setStage who stage') := by
  refine ha.setStage hs (.inl (awaits_of_leads hl hrelease)) h.registry (.refl _) (fun _ hlisted => ?_)
    (closing_suffix_of_leads hl ?_)
  · exact (awaits_of_leads hl hretire).trans hlisted
  · rintro todo rfl
    exact ha.closing hs

/-- A failure is shown on the terminal of a computer whose thread has not let go of it. -/
theorem accounted_showFatal {t : Terminal} (ha : Accounted h) (ht : h.terminalOf? who = some (n, t))
    (hs : h.stage? who = some stage) (hhas : stage.hasTerminal = true) (message : String) :
    Settles h (h.showFatal who n message) := by
  have huse : h.InUse n := ⟨who, stage, (terminalOf?_eq_some.mp ht).1, hs, hhas⟩
  have hpaint : Settles h (h.onTerminal n (·.showFatal message)) :=
    ha.onTerminal (fun _ => rfl) (.inl huse)
  exact hpaint.trans (hpaint.accounted.same rfl)

theorem accounted_showDialog (ha : Accounted h) (terminal : Option Nat) (title message : String) :
    Settles h (h.showDialog terminal title message) :=
  ha.of_scene rfl

theorem Accounted.announces (ha : Accounted h) (hs : h.stage? who = some stage)
    (hhas : stage.hasTerminal = true) (hann : Announces who h h') : Settles h h' := by
  cases hann with
  | shows ht => exact accounted_showFatal ha ht hs hhas _
  | tells => exact accounted_showDialog ha ..

theorem accounted_programFinished (ha : Accounted h) (hs : h.stage? who = some stage)
    (hhas : stage.hasTerminal = true) : Settles h (h.programFinished who) := by
  have hfinish := ha.same (scene_finish h who)
  obtain heq | ⟨n, t, -, ht, heq⟩ := programFinished_cases h who <;> rw [heq]
  · exact hfinish
  · exact hfinish.trans (accounted_showFatal hfinish.accounted ht hs hhas _)

theorem accounted_programFailed (ha : Accounted h) (hs : h.stage? who = some stage)
    (hhas : stage.hasTerminal = true) (e : ScriptError) : Settles h (h.programFailed who e) := by
  have hshutdown := ha.same (scene_shutdown h who)
  obtain ⟨-, heq⟩ | ⟨-, hann⟩ := programFailed_cases h who e
  · rw [heq]
    exact .refl ha
  · exact hshutdown.trans (hshutdown.accounted.announces hs hhas hann)

theorem accounted_reportBootFailure (ha : Accounted h) (hs : h.stage? who = some stage)
    (hhas : stage.hasTerminal = true) (e : BootError) : Settles h (h.reportBootFailure who e) :=
  ha.announces hs hhas (announces_reportBootFailure h who e)

theorem accounted_exit (ha : Accounted h) (hs : h.stage? who = some stage)
    (hin : stage.isInProgram = true) (session : Session) (how : Exit) :
    Settles h (h.exit who session how) := by
  have hstages : stage.hasTerminal = true ∧ stage.isListed = true := by
    cases stage with
    | resuming | executing | held | suspended | waiting => exact ⟨rfl, rfl⟩
    | _ => cases hin
  have hleaving : (Stage.leaving (some session) .ordinary).hasTerminal = stage.hasTerminal :=
    hstages.1.symm
  have hleaves {h₁ : Host} (hsettles : Settles h h₁) (hs₁ : h₁.stage? who = some stage) :
      Settles h (h₁.setStage who (.leaving (some session) .ordinary)) :=
    hsettles.trans
      (hsettles.accounted.setStage hs₁ (.inl hleaving) h₁.registry (.refl _) (fun _ _ => rfl) nofun)
  cases how with
  | finished =>
    exact hleaves (accounted_programFinished ha hs hstages.1) ((keeps_programFinished h who).stage _ hs)
  | raised e =>
    exact hleaves (accounted_programFailed ha hs hstages.1 e) ((keeps_programFailed h who e).stage _ hs)
  | interrupted => exact hleaves (.refl ha) hs

/-- A teardown takes the computer out of the registry before it lets go of the terminal. -/
theorem hasTerminal_of_isListed {todo : List TeardownStep} (hclosing : todo <:+ teardownPlan)
    (hlisted : (Stage.tearingDown todo).isListed = true) : (Stage.tearingDown todo).hasTerminal = true := by
  have hall : ∀ k ≤ teardownPlan.length, (Stage.tearingDown (teardownPlan.drop k)).isListed = true →
      (Stage.tearingDown (teardownPlan.drop k)).hasTerminal = true := by decide
  rw [List.suffix_iff_eq_drop.mp hclosing] at hlisted ⊢
  exact hall _ (Nat.sub_le ..) hlisted

/-- A thread goes on after a change that has not been about its stage. -/
theorem Settles.goesOn {h₀ : Host} {changes : List Change} {stage'' : Stage} (hsettles : Settles h h₁)
    (hs₁ : h₁.stage? who = some stage) (hl : Leads who h₀ stage changes stage')
    (hs' : (h₁.setStage who stage'').stage? who = some stage')
    (hretire : ∀ todo, stage ≠ .tearingDown (.retire :: todo))
    (hrelease : ∀ todo, stage ≠ .tearingDown (.releaseTerminal :: todo)) :
    Settles h (h₁.setStage who stage'') := by
  obtain rfl := Option.some.inj ((stage?_setStage_self hs₁ _).symm.trans hs')
  exact hsettles.trans (hsettles.accounted.leads hs₁ hl hretire hrelease)

theorem settles_of_advances {changes : List Change} (ha : Accounted h)
    (hs : h.stage? who = some stage) (hin : stage.isInProgram = true) (hadv : Advances who h h')
    (hl : Leads who h stage changes stage') (hs' : h'.stage? who = some stage') : Settles h h' := by
  have hno (todo : List TeardownStep) : stage ≠ .tearingDown todo := by
    rintro rfl
    cases hin
  cases hadv with
  | exits session how _ hy =>
    have hbefore := ha.yieldsTo hy
    exact hbefore.trans (accounted_exit hbefore.accounted (hy.stage? hs) hin session how)
  | goesOn _ hy =>
    exact (ha.yieldsTo hy).goesOn (hy.stage? hs) hl hs' (fun _ => hno _) (fun _ => hno _)
  | stays hsame => exact ha.same hsame

/-- Whatever a thread does next. -/
theorem audits_of_step (ha : Accounted h) (hstep : Step h (some who) h') : Audits h h' := by
  obtain ⟨changes, stage, stage', hs, hl, -, hs'⟩ := makes_of_step hstep
  cases displays_of_step hstep hs with
  | program hin hadv => exact (settles_of_advances ha hs hin hadv hl hs').toAudits
  | @silent stage h₁ stage'' hsilent hsame =>
    have hretire (todo : List TeardownStep) : stage ≠ .tearingDown (.retire :: todo) := by
      rintro rfl
      cases hsilent
    have hrelease (todo : List TeardownStep) : stage ≠ .tearingDown (.releaseTerminal :: todo) := by
      rintro rfl
      cases hsilent
    have hs₁ : h₁.stage? who = some stage := (stage?_of_scene hsame who).trans hs
    exact ((ha.same hsame).goesOn hs₁ hl hs' hretire hrelease).toAudits
  | @resets todo session =>
    have hreset : Settles h (h.bootStep who session .resetTerminal).2 := by
      obtain ⟨-, heq⟩ | ⟨n, t, ht, heq⟩ := resetTerminal_cases h who session <;> rw [heq]
      · exact .refl ha
      · have huse : h.InUse n := ⟨who, _, (terminalOf?_eq_some.mp ht).1, hs, rfl⟩
        have hpaint : Settles h (h.onTerminal n Terminal.reset) :=
          ha.onTerminal (fun _ => rfl) (.inl huse)
        exact hpaint.trans (hpaint.accounted.same rfl)
    have hs₁ : (h.bootStep who session .resetTerminal).2.stage? who =
        some (.booting (.resetTerminal :: todo) session) :=
      stage?_bootStep hs session .resetTerminal
    exact (hreset.goesOn hs₁ hl hs' nofun nofun).toAudits
  | @fails e =>
    have hreport := accounted_reportBootFailure ha hs rfl e
    have hs₁ := (keeps_reportBootFailure h who e).stage _ hs
    obtain ⟨h₂, stage₂, hsame, heq⟩ := scene_judge_failed h who e
    rw [heq] at hs' ⊢
    have hs₂ := (stage?_of_scene hsame who).trans hs₁
    exact ((hreport.trans (hreport.accounted.same hsame)).goesOn hs₂ hl hs' nofun nofun).toAudits
  | @panics message =>
    obtain ⟨h₂, hsame, heq⟩ := scene_judge_panicked h who message
    rw [heq] at hs' ⊢
    have hs₂ : h₂.stage? who = some (.ended (.panicked message)) := (stage?_of_scene hsame who).trans hs
    have hdialog : Settles h h₂ := ha.of_scene (by rw [hsame]; rfl)
    exact (hdialog.goesOn hs₂ hl hs' nofun nofun).toAudits
  | retires => exact (settles_retire ha hs).toAudits
  | releases => exact audits_releaseTerminal ha hs

theorem settles_runTasks (ha : Accounted h) : Settles h h.runTasks.2 := by
  have hperform {h : Host} (ha : Accounted h) (d : Dialog) : Settles h (h.perform d) := by
    unfold perform
    split
    · exact ha.onTerminal (fun _ => rfl) (.inr fun _ => rfl)
    · exact ha.same rfl
  have hfold (dialogs : List Dialog) :
      ∀ {h₁ : Host}, Settles h h₁ → Settles h (dialogs.foldl perform h₁) := by
    induction dialogs with
    | nil => exact id
    | cons d dialogs ih => exact fun hs => ih (hs.trans (hperform hs.accounted d))
  have htake : Settles h { h with tasks := .empty } := ha.of_scene rfl
  exact hfold _ htake

/-- Whatever happens to a host. -/
theorem audits_of_passes (ha : Accounted h) (hp : Passes h mover h') : Audits h h' := by
  cases mover with
  | none =>
    rcases yieldsTo_of_passes hp with hy | rfl
    · exact (ha.yieldsTo hy).toAudits
    · exact (settles_runTasks ha).toAudits
  | some who =>
    cases hp with
    | step hstep => exact audits_of_step ha hstep

/-! ## 5. Journeys -/

/-- Each terminal that nobody uses was let go of at one moment of a trace, and shows what it showed then. -/
structure Followed (trace : List Moment) (h : Host) : Prop where
  accounted : Accounted h
  pending : ∀ n, (n < h.terminals.length → h.InUse n) → ∀ o ∈ trace, ¬o.LetsGo n
  once : ∀ n < h.terminals.length, ¬h.InUse n → ∃ past o later, trace = past ++ o :: later ∧
    o.LetsGo n ∧ (∀ o' ∈ past ++ later, ¬o'.LetsGo n) ∧
    (n < o.before.terminals.length → o.after.showsFailure n = o.before.showsFailure n) ∧
    h.showsFailure n = o.after.showsFailure n

theorem Followed.snoc {trace : List Moment} (hf : Followed trace h) (hacc : Audits h h') :
    Followed (trace ++ [⟨h, mover, h'⟩]) h' where
  accounted := hacc.accounted
  pending n hn o ho := by
    rcases List.mem_append.mp ho with ho | ho
    · refine hf.pending n (fun hlt => ?_) o ho
      by_contra hno
      exact hacc.free n hlt hno (hn (Nat.lt_of_lt_of_le hlt hacc.length))
    · obtain rfl := List.mem_singleton.mp ho
      exact fun hgo => hgo.2.1 (hn hgo.1)
  once n hn hno := by
    by_cases hold : n < h.terminals.length ∧ ¬h.InUse n
    · obtain ⟨past, o, later, rfl, hgo, hothers, hbefore, hafter⟩ := hf.once n hold.1 hold.2
      refine ⟨past, o, later ++ [⟨h, mover, h'⟩], by simp, hgo, fun o' ho' => ?_, hbefore,
        (hacc.failure n hold.1 hno).trans hafter⟩
      rw [← List.append_assoc] at ho'
      rcases List.mem_append.mp ho' with ho' | ho'
      · exact hothers o' ho'
      · obtain rfl := List.mem_singleton.mp ho'
        exact fun hgo' => hold.2 (hgo'.2.2 hold.1)
    · have huse (hlt : n < h.terminals.length) : h.InUse n := by
        by_contra hfree
        exact hold ⟨hlt, hfree⟩
      refine ⟨trace, ⟨h, mover, h'⟩, [], rfl, ⟨hn, hno, huse⟩, ?_,
        fun hlt => hacc.failure n hlt hno, rfl⟩
      rw [List.append_nil]
      exact hf.pending n huse

theorem accounted_new (setup : HostSetup) (tree : FileTree) (store : ConfigStore) :
    Accounted (.new setup tree store) where
  drawn := nofun
  known := nofun
  closing := nofun
  listed := nofun
  nodup := List.nodup_nil
  apart := ⟨nofun, nofun⟩
  bound := nofun
  held := by
    rintro n ⟨w, stage, hn, -⟩
    cases hn
  kept := nofun
  destroyed := nofun

theorem Journey.followed {setup : HostSetup} {tree : FileTree} {store : ConfigStore}
    {trace : List Moment} (hj : Journey (.new setup tree store) trace h) : Followed trace h := by
  induction hj with
  | refl => exact ⟨accounted_new .., fun _ _ _ ho => absurd ho List.not_mem_nil, nofun⟩
  | snoc _ hp ih => exact ih.snoc (audits_of_passes ih.accounted hp)

/-- A terminal is neither destroyed nor kept while its computer is registered. When all threads are at their
end, each terminal that was made for a construction is destroyed or kept, and not both; it was let go of at
one moment, and it is kept just if it was in error mode then. -/
theorem terminals_accounted_for (setup : HostSetup) (tree : FileTree) (store : ConfigStore)
    {trace : List Moment} (hj : Journey (.new setup tree store) trace h) :
    (∀ who ∈ h.registry.registered, ∀ n, h.terminalNumber? who = some n →
      h.isDestroyed n = false ∧ n ∉ h.orphans) ∧
    ((∀ who stage, h.stage? who = some stage → stage = .gone) → ∀ n < h.terminals.length,
      (h.isDestroyed n = true ∧ n ∉ h.orphans ∨ h.isDestroyed n = false ∧ h.orphans.count n = 1) ∧
      ∃ past o later, trace = past ++ o :: later ∧ o.LetsGo n ∧ (∀ o' ∈ past ++ later, ¬o'.LetsGo n) ∧
        (n < o.before.terminals.length → o.after.showsFailure n = o.before.showsFailure n) ∧
        (n ∈ h.orphans ↔ o.after.showsFailure n = true)) := by
  have hf := hj.followed
  have ha := hf.accounted
  constructor
  · intro who hwho n hn
    obtain ⟨stage, hs, hlisted⟩ := ha.listed who hwho
    refine ha.held n ⟨who, stage, hn, hs, ?_⟩
    cases stage with
    | tearingDown todo => exact hasTerminal_of_isListed (ha.closing hs) hlisted
    | gone => cases hlisted
    | _ => rfl
  · intro hgone n hn
    have hno : ¬h.InUse n := by
      rintro ⟨w, stage, -, hs, hhas⟩
      obtain rfl := hgone w stage hs
      cases hhas
    obtain ⟨past, o, later, htrace, hgo, hothers, hbefore, hafter⟩ := hf.once n hn hno
    suffices hfate : (h.isDestroyed n = true ∧ n ∉ h.orphans ∨
        h.isDestroyed n = false ∧ h.orphans.count n = 1) ∧ (n ∈ h.orphans ↔ h.showsFailure n = true) from
      ⟨hfate.1, past, o, later, htrace, hgo, hothers, hbefore, hafter ▸ hfate.2⟩
    cases hshows : h.showsFailure n with
    | true =>
      obtain ⟨hintact, hcount⟩ := ha.kept n hn hno hshows
      have hmem : n ∈ h.orphans := List.count_pos_iff.mp (hcount ▸ Nat.one_pos)
      exact ⟨.inr ⟨hintact, hcount⟩, fun _ => rfl, fun _ => hmem⟩
    | false =>
      obtain ⟨hdestroyed, hfree⟩ := ha.destroyed n hn hno hshows
      exact ⟨.inl ⟨hdestroyed, hfree⟩, fun hmem => absurd hmem hfree, nofun⟩

end

/-- Are all threads at their end, and are these the terminals that are kept, of so many? -/
def isClosedWith (h : Host) (kept : List Nat) (count : Nat) : Bool :=
  h.threads.all (·.2.isGone) && (h.orphans == kept && h.terminals.length == count)

/-- A strict host with a file where the data directory of another computer should be. -/
def crowded : Host :=
  .new strictSetup
    ⟨[(["rom"], .directory), (["computer"], .directory), (["computer", "2"], .file ⟨#[]⟩)], []⟩ default

/-- A program that finishes under strict compatibility leaves a terminal that is kept; the terminal of a
construction that fails is destroyed. -/
theorem terminals_accounted_for_crowded :
    ∃ trace h, Journey crowded trace h ∧ h.orphans = [0] ∧ h.isDestroyed 0 = false ∧
      h.isDestroyed 1 = true ∧ (∃ o ∈ trace, o.LetsGo 0 ∧ o.after.showsFailure 0 = true) ∧
      ∃ o ∈ trace, o.LetsGo 1 ∧ o.after.showsFailure 1 = false := by
  have hmoves : (((crowded.spawn 1 false).2.spawn 2 false).2.moveOn? finisher 42).any
      (·.2.isClosedWith [0] 2) := by decide +kernel
  obtain ⟨⟨history, h⟩, hmoves, hend⟩ := (Option.any_eq_true _ _).mp hmoves
  obtain ⟨hgone, hend⟩ := Bool.and_eq_true_iff.mp hend
  obtain ⟨hkept, hcount⟩ := Bool.and_eq_true_iff.mp hend
  obtain ⟨trace, hj, -⟩ := journey_of_moveOn? hmoves
  have hspawns : Journey crowded _ ((crowded.spawn 1 false).2.spawn 2 false).2 :=
    .snoc (.snoc .refl (.step (.spawns 1 false))) (.step (.spawns 2 false))
  have horphans : h.orphans = [0] := eq_of_beq hkept
  have hlength : h.terminals.length = 2 := eq_of_beq hcount
  have hover (who : Handle) (stage : Stage) (hs : h.stage? who = some stage) : stage = .gone := by
    obtain ⟨before, after, heq, -⟩ := List.lookup_eq_some_iff.mp hs
    have hstage := List.all_eq_true.mp hgone (who, stage) (heq ▸ by simp)
    cases stage with
    | gone => rfl
    | _ => cases hstage
  obtain ⟨-, hfate⟩ := terminals_accounted_for _ _ _ (hspawns.trans hj)
  obtain ⟨hfirst, past, o, later, htrace, hgo, -, -, hmode⟩ := hfate hover 0 (by omega)
  obtain ⟨hsecond, past', o', later', htrace', hgo', -, -, hmode'⟩ := hfate hover 1 (by omega)
  rw [horphans] at hfirst hsecond hmode hmode'
  refine ⟨_, h, hspawns.trans hj, horphans, ?_, ?_, ⟨o, ?_, hgo, hmode.mp (by simp)⟩, o', ?_, hgo', ?_⟩
  · simpa using hfirst
  · simpa using hsecond
  · rw [htrace]
    simp
  · rw [htrace']
    simp
  · simpa using hmode'

end Host

end ComputerHost
