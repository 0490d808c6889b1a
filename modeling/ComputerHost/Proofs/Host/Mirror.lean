import ComputerHost.Proofs.Host.Likeness
import ComputerHost.Proofs.Host.Owners
import ComputerHost.Proofs.Host.Wiring
import ComputerHost.Proofs.Store.Neighbours

/-!
# Hosts that look the same to a computer

Two hosts mirror each other for one of their computers if that computer, its thread, its transcript, its
devices, its timers and its settings are alike in both, whatever else is on the hosts (`Mirror`). What is
done for the computer on two such hosts leads to two such hosts again; here are the single changes that
everything is made of.

Results:
1. `Mirror.modify`, `Mirror.update`, `Mirror.blind`, `Mirror.log`, `Mirror.setStage`: the computer, its
   transcript and its thread.
2. `Mirror.setPeripheral`, `Mirror.retire`, `Mirror.release`, `Mirror.invalidateTimers`: devices and the
   registry.
3. `Mirror.draw`, `Mirror.schedule`, `Mirror.cancel`, `Mirror.sweep`, `Mirror.resolve`, `Mirror.fire`: timers.
4. `Mirror.save`: settings.
-/

namespace ComputerHost

/-- The failures of the interpreter do not depend on how many states were asked for. -/
structure Faults.Steady (f : Faults) : Prop where
  newState : ∀ n m, f.newState n = f.newState m
  newCoroutine : ∀ n m, f.newCoroutine n = f.newCoroutine m
  resume : ∀ n m, f.resume n = f.resume m

namespace Host

/-- The computers with these ids save nothing that a boot reads. -/
def BootsApart (h : Host) (ids : UInt32 → Prop) : Prop :=
  ∀ saved : List (UInt32 × ComputerConfig), (∀ s ∈ saved, ids s.1) →
    Host.startupSource? { h with tree := (h.store.saveAll h.tree saved).2 } = h.startupSource? ∧
      Host.readBios { h with tree := (h.store.saveAll h.tree saved).2 } = h.readBios

end Host

/-- A computer that is looked at, another one, the devices that the first may use, and the host that both
are on to begin with. -/
structure Ward where
  who : Handle
  other : Handle
  pool : String → Prop
  start : Host
  different : other.id ≠ who.id
  steady : start.setup.faults.Steady
  boots : start.BootsApart fun id => id = who.id ∨ id = other.id

namespace Ward

/-- Those of some timers that are the computer's. -/
def own (W : Ward) (entries : List TimerEntry) : List TimerEntry :=
  entries.filter fun e => e.owner == W.who

/-- What the store has come to by these saves. -/
structure Saves (W : Ward) (saved : List (UInt32 × ComputerConfig)) (kept : ConfigStore × FileTree) :
    Prop where
  kept : kept = W.start.store.saveAll W.start.tree saved
  ids : ∀ s ∈ saved, s.1 = W.who.id ∨ s.1 = W.other.id

end Ward

namespace Host

/-- Two hosts that look the same to a computer, but for the numbers of its timers. -/
structure Mirror (W : Ward) (ρ : Renaming) (h h' : Host) : Prop where
  increasing : ρ.Increasing
  setup : h.setup = W.start.setup
  setup' : h'.setup = W.start.setup
  clock : h'.clock = h.clock
  terminals : h'.terminals.length = h.terminals.length
  computer : Option.Rel (Computer.Alike W.pool ρ) (h.computer? W.who) (h'.computer? W.who)
  stage : Option.Rel (Stage.Alike W.pool ρ) (h.stage? W.who) (h'.stage? W.who)
  transcript : List.Forall₂ (LineAlike ρ) (h.transcript W.who.id) (h'.transcript W.who.id)
  devices : ∀ name, W.pool name → h'.peripheral? name = h.peripheral? name
  unlinked : ∀ name, W.pool name → h.link? name = none
  registered : h'.registry.registered.count W.who = h.registry.registered.count W.who
  freed : W.who ∈ h'.registry.freed ↔ W.who ∈ h.registry.freed
  pending : List.Forall₂ (TimerEntry.Alike ρ) (W.own h.timers.pending) (W.own h'.timers.pending)
  due : List.Forall₂ (TimerEntry.Alike ρ) (W.own h.due) (W.own h'.due)
  firing : List.Forall₂ (TimerEntry.Alike ρ) (W.own h.firing.toList) (W.own h'.firing.toList)
  cancelled : ∀ e ∈ W.own h.timers.pending, ∀ i, ρ e.id i →
    h'.timers.cancelled.count i = h.timers.cancelled.count e.id
  freedTimers : ∀ e ∈ W.own h.scheduled, ∀ i, ρ e.id i →
    (i ∈ h'.registry.freedTimers ↔ e.id ∈ h.registry.freedTimers)
  drawn : ∀ i i', ρ i i' → i.number < h.counters.timer ∧ i'.number < h'.counters.timer
  stores : ∃ saved saved', W.Saves saved (h.store, h.tree) ∧ W.Saves saved' (h'.store, h'.tree) ∧
    saved.filter (·.1 = W.who.id) = saved'.filter (·.1 = W.who.id)

/-- The second host differs from the first one in nothing that a program or a call sees. -/
inductive Blind (h : Host) : Host → Prop
  | mk {tasks : TaskQueue Dialog} {notices : List (String × String)}
      {terminals : List (UInt32 × Terminal)} {orphans : List Nat} {states : Nat}
      {journal : List JournalEntry} : terminals.length = h.terminals.length →
      Blind h { h with tasks, notices, terminals, orphans, states, journal }

section
variable {W : Ward} {ρ : Renaming} {h h' h₁ h₁' h₂ : Host} {i i' : TimerId}

/-! ## 1. The computer, its transcript and its thread -/

/-- Changing the computer in both hosts. -/
theorem Mirror.modify (hm : Mirror W ρ h h') (f f' : Computer → Computer)
    (hf : ∀ c, (f c).handle = c.handle) (hf' : ∀ c, (f' c).handle = c.handle)
    (ha : ∀ c c', c.Alike W.pool ρ c' → (f c).Alike W.pool ρ (f' c')) :
    Mirror W ρ (h.modify W.who f) (h'.modify W.who f') := by
  have hcomputer : Option.Rel (Computer.Alike W.pool ρ) ((h.modify W.who f).computer? W.who)
      ((h'.modify W.who f').computer? W.who) := by
    rw [computer?_modify h W.who f hf, computer?_modify h' W.who f' hf']
    have hold := hm.computer
    have hhandle {c : Computer} (hc : h.computer? W.who = some c) := handle_of_computer? hc
    have hhandle' {c : Computer} (hc : h'.computer? W.who = some c) := handle_of_computer? hc
    generalize h.computer? W.who = found at hold hhandle ⊢
    generalize h'.computer? W.who = found' at hold hhandle' ⊢
    cases hold with
    | none => exact .none
    | some hc =>
      rw [Option.map_some, Option.map_some, if_pos (hhandle rfl), if_pos (hhandle' rfl)]
      exact .some (ha _ _ hc)
  exact { hm with computer := hcomputer }

/-- Changing the computer in the same way in both hosts. -/
theorem Mirror.change (hm : Mirror W ρ h h') (f : Computer → Computer)
    (hf : ∀ c, (f c).handle = c.handle)
    (ha : ∀ c c', c.Alike W.pool ρ c' → (f c).Alike W.pool ρ (f c')) :
    Mirror W ρ (h.modify W.who f) (h'.modify W.who f) :=
  hm.modify f f hf hf ha

/-- Changing the computer in a way that has an answer. -/
theorem Mirror.update {α : Type} {r : α → α → Prop} (hm : Mirror W ρ h h')
    (f f' : Computer → α × Computer) (other : α)
    (hf : ∀ c, (f c).2.handle = c.handle) (hf' : ∀ c, (f' c).2.handle = c.handle)
    (ha : ∀ c c', c.Alike W.pool ρ c' → r (f c).1 (f' c').1 ∧ (f c).2.Alike W.pool ρ (f' c').2)
    (hother : r other other) :
    r (h.update W.who f other).1 (h'.update W.who f' other).1 ∧
      Mirror W ρ (h.update W.who f other).2 (h'.update W.who f' other).2 := by
  have hmodify := hm.modify _ _ hf hf' fun c c' hc => (ha c c' hc).2
  have hold := hm.computer
  unfold Host.update
  generalize h.computer? W.who = found at hold ⊢
  generalize h'.computer? W.who = found' at hold ⊢
  cases hold with
  | none => exact ⟨hother, hm⟩
  | some hc => exact ⟨(ha _ _ hc).1, hmodify⟩

theorem Mirror.ite {p p' : Prop} [Decidable p] [Decidable p'] (hp : p' ↔ p) (hm : p → Mirror W ρ h h')
    (hm₁ : ¬p → Mirror W ρ h₁ h₁') : Mirror W ρ (if p then h else h₁) (if p' then h' else h₁') := by
  by_cases h : p
  · rw [if_pos h, if_pos (hp.mpr h)]
    exact hm h
  · rw [if_neg h, if_neg (hp.not.mpr h)]
    exact hm₁ h

theorem Mirror.blind (hm : Mirror W ρ h h') (hb : Blind h h₁) (hb' : Blind h' h₁') :
    Mirror W ρ h₁ h₁' := by
  obtain ⟨hlength⟩ := hb
  obtain ⟨hlength'⟩ := hb'
  exact { hm with terminals := hlength'.trans (hm.terminals.trans hlength.symm) }

theorem transcript_log (h : Host) (id : UInt32) (lines : List String) (other : UInt32) :
    (h.log id lines).transcript other =
      if other = id then h.transcript id ++ lines else h.transcript other := by
  have hlookup (old : List (UInt32 × List String)) :
      (old.map fun p => if p.1 = id then (p.1, p.2 ++ lines) else (p.1, p.2)).lookup other =
        if other = id then (old.lookup id).map (· ++ lines) else old.lookup other := by
    induction old with
    | nil => simp
    | cons first rest ih =>
      obtain ⟨i, old⟩ := first
      rw [List.map_cons, List.lookup_cons, List.lookup_cons]
      by_cases hi : i = id <;> by_cases hother : other = id <;> grind
  unfold log transcript
  split
  · next hempty =>
    rw [List.isEmpty_iff.mp hempty, List.append_nil]
    split
    · next heq => rw [heq]
    · rfl
  · split
    · next hany =>
      show ((h.transcripts.map fun p => if p.1 = id then (p.1, p.2 ++ lines)
        else (p.1, p.2)).lookup other).getD [] = _
      rw [hlookup]
      split
      · cases hold : h.transcripts.lookup id with
        | none =>
          obtain ⟨entry, hentry, hid⟩ := List.any_eq_true.mp hany
          have hne := List.lookup_eq_none_iff.mp hold entry hentry
          exact absurd (eq_of_beq hid).symm (bne_iff_ne.mp hne)
        | some old => rfl
      · rfl
    · next hany =>
      have hnone : h.transcripts.lookup id = none := by
        refine List.lookup_eq_none_iff.mpr fun entry hentry => bne_iff_ne.mpr fun heq => hany ?_
        exact List.any_eq_true.mpr ⟨entry, hentry, beq_iff_eq.mpr heq.symm⟩
      dsimp only
      rw [List.lookup_append, List.lookup_cons]
      by_cases hother : other = id
      · subst hother
        simp [hnone]
      · simp [hother, beq_eq_false_iff_ne.mpr hother]

theorem log_frame (h : Host) (id : UInt32) (lines : List String) :
    h.log id lines = { h with transcripts := (h.log id lines).transcripts } := by
  unfold log
  split
  · rfl
  · split <;> rfl

theorem Mirror.log (hm : Mirror W ρ h h') {lines lines' : List String}
    (hl : List.Forall₂ (LineAlike ρ) lines lines') :
    Mirror W ρ (h.log W.who.id lines) (h'.log W.who.id lines') := by
  have htranscript : List.Forall₂ (LineAlike ρ) ((h.log W.who.id lines).transcript W.who.id)
      ((h'.log W.who.id lines').transcript W.who.id) := by
    rw [transcript_log, transcript_log, if_pos rfl, if_pos rfl]
    exact List.rel_append hm.transcript hl
  rw [log_frame h, log_frame h']
  exact { hm with transcript := htranscript }

theorem Mirror.setStage (hm : Mirror W ρ h h') {stage stage' : Stage}
    (hs : stage.Alike W.pool ρ stage') :
    Mirror W ρ (h.setStage W.who stage) (h'.setStage W.who stage') := by
  have hstage : Option.Rel (Stage.Alike W.pool ρ) ((h.setStage W.who stage).stage? W.who)
      ((h'.setStage W.who stage').stage? W.who) := by
    rw [stage?_setStage, stage?_setStage, if_pos rfl, if_pos rfl]
    have hold := hm.stage
    generalize h.stage? W.who = found at hold ⊢
    generalize h'.stage? W.who = found' at hold ⊢
    cases hold with
    | none => exact .none
    | some => exact .some hs
  exact { hm with stage := hstage }

/-! ## 2. Devices and the registry -/

/-- Setting a device of the computer in both hosts. -/
theorem Mirror.setPeripheral (hm : Mirror W ρ h h') {name : String} (hn : W.pool name) (d : Device) :
    Mirror W ρ (h.setPeripheral name (.device d)) (h'.setPeripheral name (.device d)) := by
  have hunlinked (other : String) (ho : W.pool other) :
      (h.setPeripheral name (.device d)).link? other = none := by
    unfold link?
    rw [peripheral?_setPeripheral]
    split
    · cases h.peripheral? name <;> rfl
    · exact hm.unlinked other ho
  have hdevices (other : String) (ho : W.pool other) :
      (h'.setPeripheral name (.device d)).peripheral? other =
        (h.setPeripheral name (.device d)).peripheral? other := by
    rw [peripheral?_setPeripheral, peripheral?_setPeripheral, hm.devices name hn, hm.devices other ho]
  exact { hm with devices := hdevices, unlinked := hunlinked }

theorem Mirror.retire (hm : Mirror W ρ h h') :
    Mirror W ρ { h with registry := (h.registry.retire W.who).2 }
      { h' with registry := (h'.registry.retire W.who).2 } := by
  refine { hm with registered := ?_, freed := ?_ }
  · show (h'.registry.registered.erase W.who).count W.who = (h.registry.registered.erase W.who).count W.who
    rw [List.count_erase_self, List.count_erase_self, hm.registered]
  · show W.who ∈ h'.registry.freed.add W.who ↔ W.who ∈ h.registry.freed.add W.who
    rw [Tombstones.mem_add, Tombstones.mem_add]
    simp

theorem Mirror.release (hm : Mirror W ρ h h') :
    Mirror W ρ { h with registry := h.registry.release W.who }
      { h' with registry := h'.registry.release W.who } := by
  refine { hm with freed := ?_ }
  show W.who ∈ (h'.registry.freed.forget W.who).2 ↔ W.who ∈ (h.registry.freed.forget W.who).2
  rw [Tombstones.mem_forget, Tombstones.mem_forget]
  simp

theorem Mirror.resolves (hm : Mirror W ρ h h') :
    h'.registry.resolves W.who = h.registry.resolves W.who := by
  have hmem : W.who ∈ h'.registry.registered ↔ W.who ∈ h.registry.registered := by
    rw [← List.count_pos_iff, ← List.count_pos_iff, hm.registered]
  unfold Registry.resolves
  simp only [hm.freed, hmem]

/-- Marking timers in one host and their counterparts in the other. -/
theorem Mirror.invalidateTimers (hm : Mirror W ρ h h') {ids ids' : List TimerId}
    (hids : List.Forall₂ ρ ids ids') :
    Mirror W ρ { h with registry := h.registry.invalidateTimers ids }
      { h' with registry := h'.registry.invalidateTimers ids' } := by
  refine { hm with freedTimers := fun e he i hρ => ?_ }
  show i ∈ h'.registry.freedTimers.addAll ids' ↔ e.id ∈ h.registry.freedTimers.addAll ids
  rw [Tombstones.mem_addAll, Tombstones.mem_addAll, hm.increasing.mem_iff hids hρ,
    hm.freedTimers e he i hρ]

/-! ## 3. Timers -/

theorem mem_own {entries : List TimerEntry} {e : TimerEntry} :
    e ∈ W.own entries ↔ e ∈ entries ∧ e.owner = W.who := by
  simp [Ward.own]

theorem own_cons_of_eq {entry : TimerEntry} {later : List TimerEntry} (ho : entry.owner = W.who) :
    W.own (entry :: later) = entry :: W.own later :=
  List.filter_cons_of_pos (beq_iff_eq.mpr ho)

theorem own_cons_of_ne {entry : TimerEntry} {later : List TimerEntry} (ho : entry.owner ≠ W.who) :
    W.own (entry :: later) = W.own later :=
  List.filter_cons_of_neg (beq_iff_eq.not.mpr ho)

theorem Mirror.counterparts (hm : Mirror W ρ h h') :
    List.Forall₂ (TimerEntry.Alike ρ) (W.own h.scheduled) (W.own h'.scheduled) := by
  unfold Ward.own scheduled underway
  simp only [List.filter_append]
  exact List.rel_append hm.pending (List.rel_append hm.due hm.firing)

theorem counterpart_of_forall₂ {entries entries' : List TimerEntry} {e : TimerEntry}
    (hall : List.Forall₂ (TimerEntry.Alike ρ) entries entries') (he : e ∈ entries) :
    ∃ e' ∈ entries', ρ e.id e'.id := by
  induction hall with
  | nil => cases he
  | cons hfirst _ ih =>
    rcases List.mem_cons.mp he with rfl | he
    · obtain ⟨hid, -⟩ := hfirst
      exact ⟨_, List.mem_cons_self, hid⟩
    · obtain ⟨e', he', hid⟩ := ih he
      exact ⟨e', List.mem_cons_of_mem _ he', hid⟩

/-- Drawing a timer in each host. From then on they are counterparts. -/
theorem Mirror.draw (hm : Mirror W ρ h h') :
    Mirror W (ρ.drawn ⟨h.counters.timer⟩ ⟨h'.counters.timer⟩)
      { h with counters := h.counters.newTimer.2 } { h' with counters := h'.counters.newTimer.2 } := by
  have hsub (i i' : TimerId) (hi : ρ i i') : ρ.drawn ⟨h.counters.timer⟩ ⟨h'.counters.timer⟩ i i' := .inl hi
  have hold {e : TimerEntry} (he : e ∈ W.own h.scheduled) {i : TimerId}
      (hi : ρ.drawn ⟨h.counters.timer⟩ ⟨h'.counters.timer⟩ e.id i) : ρ e.id i := by
    rcases hi with hi | ⟨hnew, -⟩
    · exact hi
    · obtain ⟨e', -, hid⟩ := counterpart_of_forall₂ hm.counterparts he
      exact absurd (congrArg TimerId.number hnew) (Nat.ne_of_lt (hm.drawn _ _ hid).1)
  have hpending {e : TimerEntry} (he : e ∈ W.own h.timers.pending) : e ∈ W.own h.scheduled :=
    mem_own.mpr ⟨List.mem_append_left _ (mem_own.mp he).1, (mem_own.mp he).2⟩
  exact { hm with
    increasing := Renaming.increasing_drawn hm.increasing hm.drawn
    computer := optionRel_imp (fun _ _ hc => hc.mono hsub) hm.computer
    stage := optionRel_imp (fun _ _ hs => hs.mono hsub) hm.stage
    transcript := hm.transcript.imp fun _ _ hl => hl.mono hsub
    pending := hm.pending.imp fun _ _ he => he.mono hsub
    due := hm.due.imp fun _ _ he => he.mono hsub
    firing := hm.firing.imp fun _ _ he => he.mono hsub
    cancelled := fun e he i hi => hm.cancelled e he i (hold (hpending he) hi)
    freedTimers := fun e he i hi => hm.freedTimers e he i (hold he hi)
    drawn := by
      rintro i i' (hi | ⟨rfl, rfl⟩)
      · exact (hm.drawn i i' hi).imp Nat.lt_succ_of_lt Nat.lt_succ_of_lt
      · exact ⟨Nat.lt_succ_self _, Nat.lt_succ_self _⟩ }

theorem before_iff_of_alike {a a' b b' : TimerEntry} (hi : ρ.Increasing) (ha : a.Alike ρ a')
    (hb : b.Alike ρ b') : a'.before b' = a.before b := by
  obtain ⟨hida, -⟩ := ha
  obtain ⟨hidb, -⟩ := hb
  have hlt := hi _ _ _ _ hidb hida
  rw [Bool.eq_iff_iff, TimerEntry.before_iff, TimerEntry.before_iff]
  dsimp only
  omega

theorem forall₂_place {entries entries' : List TimerEntry} {entry entry' : TimerEntry}
    (hi : ρ.Increasing) (hall : List.Forall₂ (TimerEntry.Alike ρ) entries entries')
    (he : entry.Alike ρ entry') : List.Forall₂ (TimerEntry.Alike ρ)
      (TimerService.place entry entries) (TimerService.place entry' entries') := by
  induction hall with
  | nil => exact .cons he .nil
  | cons hfirst hrest ih =>
    unfold TimerService.place
    rw [before_iff_of_alike hi hfirst he]
    split
    · exact .cons hfirst ih
    · exact .cons he (.cons hfirst hrest)

/-- Giving the service a timer of the computer in one host, and its counterpart in the other. -/
theorem Mirror.schedule (hm : Mirror W ρ h h') (hs : TimerService.Sorted h.timers.pending)
    (hs' : TimerService.Sorted h'.timers.pending) {e e' : Event} (hi : ρ i i') (he : Event.Alike ρ e e')
    (hcancelled : h'.timers.cancelled.count i' = h.timers.cancelled.count i)
    (hfreed : i' ∈ h'.registry.freedTimers ↔ i ∈ h.registry.freedTimers) {fireAt fireAt' : Nat}
    (hfire : fireAt = fireAt') :
    Mirror W ρ (h.schedule W.who i fireAt e) (h'.schedule W.who i' fireAt' e') := by
  subst hfire
  have hown {h : Host} (hs : TimerService.Sorted h.timers.pending) (i : TimerId) (e : Event) :
      W.own (h.schedule W.who i fireAt e).timers.pending =
        TimerService.place ⟨fireAt, i, W.who, e⟩ (W.own h.timers.pending) :=
    TimerService.filter_place hs (beq_self_eq_true _)
  have hnew {e₁ : TimerEntry} (he₁ : e₁ ∈ W.own (h.schedule W.who i fireAt e).timers.pending) :
      e₁.id = i ∨ e₁ ∈ W.own h.timers.pending := by
    rw [hown hs] at he₁
    exact (List.mem_cons.mp ((TimerService.perm_place _ _).subset he₁)).imp_left
      (congrArg TimerEntry.id)
  have hcounterpart {i₁ : TimerId} (hi₁ : ρ i i₁) : i₁ = i' := (hm.increasing.inj hi₁ hi).mp rfl
  refine { hm with pending := ?_, cancelled := fun e₁ he₁ i₁ hi₁ => ?_,
                   freedTimers := fun e₁ he₁ i₁ hi₁ => ?_ }
  · rw [hown hs, hown hs']
    exact forall₂_place hm.increasing hm.pending (.mk hi he)
  · rcases hnew he₁ with heq | he₁
    · rw [heq] at hi₁ ⊢
      rw [hcounterpart hi₁]
      exact hcancelled
    · exact hm.cancelled e₁ he₁ i₁ hi₁
  · obtain ⟨hmem, howner⟩ := mem_own.mp he₁
    rcases List.mem_append.mp hmem with hmem | hmem
    · rcases hnew (mem_own.mpr ⟨hmem, howner⟩) with heq | he₁
      · rw [heq] at hi₁ ⊢
        rw [hcounterpart hi₁]
        exact hfreed
      · obtain ⟨hmem, howner⟩ := mem_own.mp he₁
        exact hm.freedTimers e₁ (mem_own.mpr ⟨List.mem_append_left _ hmem, howner⟩) i₁ hi₁
    · exact hm.freedTimers e₁ (mem_own.mpr ⟨List.mem_append_right _ hmem, howner⟩) i₁ hi₁

/-- Nobody else has a timer of this number waiting. -/
def Sole (W : Ward) (h : Host) (i : TimerId) : Prop := ∀ e ∈ h.timers.pending, e.id = i → e.owner = W.who

theorem any_pending (hs : Sole W h i) :
    h.timers.pending.any (·.id == i) = (W.own h.timers.pending).any (·.id == i) := by
  rw [Bool.eq_iff_iff, List.any_eq_true, List.any_eq_true]
  refine ⟨fun ⟨e, he, hid⟩ => ⟨e, mem_own.mpr ⟨he, hs e he (eq_of_beq hid)⟩, hid⟩, fun ⟨e, he, hid⟩ => ?_⟩
  exact ⟨e, (mem_own.mp he).1, hid⟩

theorem any_of_forall₂ {entries entries' : List TimerEntry} (hi : ρ.Increasing) (hρ : ρ i i')
    (hall : List.Forall₂ (TimerEntry.Alike ρ) entries entries') :
    entries'.any (·.id == i') = entries.any (·.id == i) := by
  induction hall with
  | nil => rfl
  | cons hfirst _ ih =>
    obtain ⟨hid, -⟩ := hfirst
    have hbeq := hi.inj hid hρ
    rw [List.any_cons, List.any_cons, ih]
    congr 1
    rw [Bool.eq_iff_iff, beq_iff_eq, beq_iff_eq]
    exact hbeq.symm

/-- Cancelling a timer in one host and its counterpart in the other. -/
theorem Mirror.cancel (hm : Mirror W ρ h h') (hρ : ρ i i') (hs : Sole W h i) (hs' : Sole W h' i') :
    Mirror W ρ { h with timers := h.timers.cancel i } { h' with timers := h'.timers.cancel i' } := by
  have hany : h'.timers.pending.any (·.id == i') = h.timers.pending.any (·.id == i) := by
    rw [any_pending hs, any_pending hs', any_of_forall₂ hm.increasing hρ hm.pending]
  unfold TimerService.cancel
  rw [hany]
  cases hwaits : h.timers.pending.any (·.id == i) with
  | false => exact { hm with }
  | true =>
    obtain ⟨e, he, hid⟩ := List.any_eq_true.mp (any_pending hs ▸ hwaits)
    obtain rfl := eq_of_beq hid
    have hcount := hm.cancelled e he i' hρ
    have hcontains : h'.timers.cancelled.contains i' = h.timers.cancelled.contains e.id := by
      rw [Bool.eq_iff_iff, List.contains_iff_mem, List.contains_iff_mem, ← List.count_pos_iff,
        ← List.count_pos_iff, hcount]
    rw [hcontains]
    cases h.timers.cancelled.contains e.id with
    | true => exact { hm with }
    | false =>
      refine { hm with cancelled := fun e₁ he₁ i₁ hi₁ => ?_ }
      have hbeq := hm.increasing.inj hi₁ hρ
      show (i' :: h'.timers.cancelled).count i₁ = (e.id :: h.timers.cancelled).count e₁.id
      rw [List.count_cons, List.count_cons, hm.cancelled e₁ he₁ i₁ hi₁]
      by_cases heq : e₁.id = e.id
      · rw [if_pos (by simp [hbeq.mp heq]), if_pos (by simp [heq])]
      · have hne : ¬i₁ = i' := fun heq' => heq (hbeq.mpr heq')
        rw [if_neg (by simpa using Ne.symm hne), if_neg (by simpa using Ne.symm heq)]

/-- Which of some timers fire, and which of their counterparts. -/
theorem forall₂_select {entries entries' : List TimerEntry} (hi : ρ.Increasing)
    (hall : List.Forall₂ (TimerEntry.Alike ρ) entries entries') (cancelled cancelled' : List TimerId)
    (hsame : ∀ e ∈ entries, ∀ i, ρ e.id i → cancelled'.count i = cancelled.count e.id) :
    List.Forall₂ (TimerEntry.Alike ρ) (TimerService.select entries cancelled).1
        (TimerService.select entries' cancelled').1 ∧
      ∀ i i', ρ i i' → cancelled'.count i' = cancelled.count i →
        (TimerService.select entries' cancelled').2.count i' =
          (TimerService.select entries cancelled).2.count i := by
  induction hall generalizing cancelled cancelled' with
  | nil => exact ⟨.nil, fun _ _ _ hc => hc⟩
  | @cons first first' rest rest' hfirst hrest ih =>
    rw [List.forall_mem_cons] at hsame
    have hid : ρ first.id first'.id := by
      obtain ⟨hid, -⟩ := hfirst
      exact hid
    have hcontains : cancelled'.contains first'.id = cancelled.contains first.id := by
      rw [Bool.eq_iff_iff, List.contains_iff_mem, List.contains_iff_mem, ← List.count_pos_iff,
        ← List.count_pos_iff, hsame.1 _ hid]
    have herase (i i' : TimerId) (hρ : ρ i i') (hc : cancelled'.count i' = cancelled.count i) :
        (cancelled'.erase first'.id).count i' = (cancelled.erase first.id).count i := by
      have hbeq := hi.inj hρ hid
      rw [List.count_erase, List.count_erase, hc]
      by_cases heq : i = first.id
      · rw [if_pos (by simp [hbeq.mp heq]), if_pos (by simp [heq])]
      · have hne : ¬i' = first'.id := fun heq' => heq (hbeq.mpr heq')
        rw [if_neg (by simpa using Ne.symm hne), if_neg (by simpa using Ne.symm heq)]
    unfold TimerService.select
    rw [hcontains]
    split
    · obtain ⟨hfired, hleft⟩ := ih (cancelled.erase first.id) (cancelled'.erase first'.id)
        fun e he i hρ => herase e.id i hρ (hsame.2 e he i hρ)
      exact ⟨hfired, fun i i' hρ hc => hleft i i' hρ (herase i i' hρ hc)⟩
    · obtain ⟨hfired, hleft⟩ := ih cancelled cancelled' hsame.2
      exact ⟨.cons hfirst hfired, hleft⟩

theorem own_due (hs : TimerService.Sorted h.timers.pending) :
    W.own (h.timers.pending.takeWhile (·.fireAt ≤ h.clock)) =
      (W.own h.timers.pending).filter (·.fireAt ≤ h.clock) := by
  rw [TimerService.takeWhile_eq_filter hs]
  exact List.filter_comm ..

theorem own_later (hs : TimerService.Sorted h.timers.pending) :
    W.own (h.timers.pending.dropWhile (·.fireAt ≤ h.clock)) =
      (W.own h.timers.pending).filter (fun e => !decide (e.fireAt ≤ h.clock)) := by
  rw [TimerService.dropWhile_eq_filter hs]
  exact List.filter_comm ..

/-- Of the timers of the computer a sweep takes out those that it would take out without the others. -/
theorem sweep_own (ha : TimersApart h) :
    W.own (TimerService.select (h.timers.pending.takeWhile (·.fireAt ≤ h.clock)) h.timers.cancelled).1 =
        (TimerService.select ((W.own h.timers.pending).filter (·.fireAt ≤ h.clock)) h.timers.cancelled).1 ∧
      ∀ i, h.HasTimer W.who i →
        (TimerService.select ((W.own h.timers.pending).filter (·.fireAt ≤ h.clock))
          h.timers.cancelled).2.count i = h.sweep.timers.cancelled.count i := by
  have hhas {e : TimerEntry} (he : e ∈ h.timers.pending.takeWhile (·.fireAt ≤ h.clock)) :
      h.HasTimer e.owner e.id :=
    .inr ⟨e, List.mem_append_left _ ((List.takeWhile_sublist _).subset he), rfl, rfl⟩
  have hselect := TimerService.filter_select (h.timers.pending.takeWhile (·.fireAt ≤ h.clock))
    (p := fun e => e.owner == W.who) (q := h.HasTimer W.who)
    (fun e he howner => eq_of_beq howner ▸ hhas he)
    (fun e he howner hw => howner (beq_iff_eq.mpr (ha.one _ _ _ (hhas he) hw)))
    h.timers.cancelled h.timers.cancelled fun _ _ => rfl
  rw [← own_due ha.sorted]
  exact hselect

/-- Taking out the timers whose moment has come in both hosts. -/
theorem Mirror.sweep (hm : Mirror W ρ h h') (ha : TimersApart h) (ha' : TimersApart h') :
    Mirror W ρ h.sweep h'.sweep := by
  have hfilter {p : TimerEntry → Bool} (hp : ∀ e e', e.Alike ρ e' → p e = p e') :
      List.Forall₂ (TimerEntry.Alike ρ) ((W.own h.timers.pending).filter p)
        ((W.own h'.timers.pending).filter p) := by
    refine List.rel_filter (fun e e' he => ?_) hm.pending
    show p e = true ↔ p e' = true
    rw [hp e e' he]
  have hfireAt {e e' : TimerEntry} (he : e.Alike ρ e') : e.fireAt = e'.fireAt := by
    obtain ⟨-, -⟩ := he
    rfl
  have hnow := hfilter (p := fun e => e.fireAt ≤ h.clock) fun e e' he => by rw [hfireAt he]
  have hlater := hfilter (p := fun e => !decide (e.fireAt ≤ h.clock)) fun e e' he => by
    rw [hfireAt he]
  obtain ⟨hfired, hleft⟩ := forall₂_select hm.increasing hnow h.timers.cancelled h'.timers.cancelled
    fun e he i hi => hm.cancelled e (List.mem_of_mem_filter he) i hi
  obtain ⟨hown, hcount⟩ := sweep_own (W := W) ha
  obtain ⟨hown', hcount'⟩ := sweep_own (W := W) ha'
  rw [hm.clock] at hcount'
  have hpending : List.Forall₂ (TimerEntry.Alike ρ) (W.own h.sweep.timers.pending)
      (W.own h'.sweep.timers.pending) := by
    show List.Forall₂ _ (W.own (h.timers.pending.dropWhile (·.fireAt ≤ h.clock)))
      (W.own (h'.timers.pending.dropWhile (·.fireAt ≤ h'.clock)))
    rw [own_later ha.sorted, own_later ha'.sorted, hm.clock]
    exact hlater
  refine { hm with pending := hpending, due := ?_, cancelled := fun e he i hi => ?_,
                   freedTimers := fun e he i hi => ?_ }
  · show List.Forall₂ _ (W.own (h.due ++ _)) (W.own (h'.due ++ _))
    unfold Ward.own at hown hown' ⊢
    rw [List.filter_append, List.filter_append, hown, hown', hm.clock]
    exact List.rel_append hm.due hfired
  · obtain ⟨e', he', hi'⟩ := counterpart_of_forall₂ hpending he
    obtain rfl := (hm.increasing.inj hi hi').mp rfl
    obtain ⟨hmem, howner⟩ := mem_own.mp he
    obtain ⟨hmem', howner'⟩ := mem_own.mp he'
    have hold := (List.dropWhile_sublist _).subset hmem
    have hold' := (List.dropWhile_sublist _).subset hmem'
    rw [← hcount _ (.inr ⟨e, List.mem_append_left _ hold, howner, rfl⟩),
      ← hcount' _ (.inr ⟨e', List.mem_append_left _ hold', howner', rfl⟩)]
    exact hleft _ _ hi' (hm.cancelled e (mem_own.mpr ⟨hold, howner⟩) _ hi')
  · obtain ⟨hmem, howner⟩ := mem_own.mp he
    exact hm.freedTimers e (mem_own.mpr ⟨(subperm_sweep h).subset hmem, howner⟩) i hi

/-- Looking for the owner of a timer of the computer in one host and of its counterpart in the other. -/
theorem Mirror.resolve (hm : Mirror W ρ h h') {entry entry' : TimerEntry} {due due' : List TimerEntry}
    (hfiring : h.firing = none) (hfiring' : h'.firing = none) (hdue : h.due = entry :: due)
    (hdue' : h'.due = entry' :: due') (ho : entry.owner = W.who) (ho' : entry'.owner = W.who) :
    Mirror W ρ (Change.resolve.on h) (Change.resolve.on h') := by
  have halike := hm.due
  rw [hdue, hdue', own_cons_of_eq ho, own_cons_of_eq ho'] at halike
  obtain ⟨hentry, hlater⟩ := List.forall₂_cons.mp halike
  have hmem : entry ∈ W.own h.scheduled := mem_own.mpr ⟨mem_scheduled_of_due hdue, ho⟩
  have hold {e : TimerEntry} (he : e ∈ W.own (Change.resolve.on h).scheduled) : e ∈ W.own h.scheduled :=
    mem_own.mpr ((mem_own.mp he).imp_left fun he => (subperm_resolve h).subset he)
  obtain @⟨i, e, hid, hevent⟩ := id hentry
  have hreaches : h'.Reaches { entry with id := i, event := e } ↔ h.Reaches entry := by
    unfold Reaches
    dsimp only
    rw [hm.freedTimers entry hmem i hid, ho, hm.resolves]
  obtain ⟨freedTimers, hfreed, heq⟩ := resolve_of_cons hfiring hdue
  obtain ⟨freedTimers', hfreed', heq'⟩ := resolve_of_cons hfiring' hdue'
  rw [heq] at hold ⊢
  rw [heq']
  refine { hm with due := hlater, firing := ?_, freedTimers := fun e he i hi => ?_ }
  · by_cases hr : h.Reaches entry
    · rw [if_pos hr, if_pos (hreaches.mpr hr)]
      show List.Forall₂ _ (W.own [entry]) (W.own [_])
      rw [own_cons_of_eq ho, own_cons_of_eq ho']
      exact .cons hentry .nil
    · rw [if_neg hr, if_neg (hreaches.not.mpr hr)]
      exact .nil
  · show i ∈ freedTimers' ↔ e.id ∈ freedTimers
    rw [hfreed, hfreed', hm.freedTimers e (hold he) i hi, Ne, Ne, hm.increasing.inj hi hid]

theorem handle_timerFired (c : Computer) (i : TimerId) (e : Event) :
    (c.timerFired i e).handle = c.handle :=
  (Computer.grows_timerFired c i e).handle

/-- A timer of the computer fires in one host and its counterpart in the other. -/
theorem Mirror.fire (hm : Mirror W ρ h h') {entry entry' : TimerEntry} (hfiring : h.firing = some entry)
    (hfiring' : h'.firing = some entry') (ho : entry.owner = W.who) (ho' : entry'.owner = W.who) :
    Mirror W ρ (Change.fire.on h) (Change.fire.on h') := by
  have halike : List.Forall₂ (TimerEntry.Alike ρ) (W.own [entry]) (W.own [entry']) := by
    have hfirings := hm.firing
    rwa [hfiring, hfiring'] at hfirings
  rw [own_cons_of_eq ho, own_cons_of_eq ho'] at halike
  obtain @⟨i, e, hid, hevent⟩ := (List.forall₂_cons.mp halike).1
  have hover : Mirror W ρ { h with firing := none } { h' with firing := none } := by
    refine { hm with firing := .nil, freedTimers := fun e he i hi => ?_ }
    obtain ⟨he, howner⟩ := mem_own.mp he
    refine hm.freedTimers e (mem_own.mpr ⟨?_, howner⟩) i hi
    have hsub : h.timers.pending ++ (h.due ++ []) ⊆ h.scheduled :=
      ((List.nil_sublist _).append_left _).append_left _ |>.subset
    exact hsub he
  rw [fire_of_some hfiring, fire_of_some hfiring']
  dsimp only
  rw [ho]
  exact hover.modify _ _ (fun c => handle_timerFired c _ _) (fun c => handle_timerFired c _ _)
    fun c c' hc => hc.timerFired hm.increasing hid hevent

/-! ## 4. Settings -/

/-- Saving the same settings of the computer in both hosts. -/
theorem Mirror.save (hm : Mirror W ρ h h') (config : ComputerConfig) :
    Mirror W ρ
      { h with store := (h.store.save h.tree W.who.id config).2.1,
               tree := (h.store.save h.tree W.who.id config).2.2 }
      { h' with store := (h'.store.save h'.tree W.who.id config).2.1,
                tree := (h'.store.save h'.tree W.who.id config).2.2 } := by
  have hsaves {store : ConfigStore} {tree : FileTree} {saved : List (UInt32 × ComputerConfig)}
      (hs : W.Saves saved (store, tree)) :
      W.Saves (saved ++ [(W.who.id, config)]) (store.save tree W.who.id config).2 := by
    refine ⟨?_, fun s hmem => ?_⟩
    · rw [ConfigStore.saveAll_append, ← hs.kept]
      rfl
    · rcases List.mem_append.mp hmem with hmem | hmem
      · exact hs.ids s hmem
      · exact .inl (by rw [List.mem_singleton.mp hmem])
  obtain ⟨saved, saved', hs, hs', heq⟩ := hm.stores
  refine { hm with stores := ⟨_, _, hsaves hs, hsaves hs', ?_⟩ }
  rw [List.filter_append, List.filter_append, heq]

/-- Boots read the same in both hosts. -/
theorem Mirror.boots (hm : Mirror W ρ h h') :
    h'.startupSource? = h.startupSource? ∧ h'.readBios = h.readBios := by
  have hreads {h : Host} (hsetup : h.setup = W.start.setup) {saved : List (UInt32 × ComputerConfig)}
      (hs : W.Saves saved (h.store, h.tree)) :
      h.startupSource? = W.start.startupSource? ∧ h.readBios = W.start.readBios := by
    obtain ⟨hsource, hbios⟩ := W.boots saved hs.ids
    rw [← hsource, ← hbios, ← hs.kept]
    unfold startupSource? readBios Host.config
    rw [hsetup]
    exact ⟨rfl, rfl⟩
  obtain ⟨saved, saved', hs, hs', -⟩ := hm.stores
  obtain ⟨hsource, hbios⟩ := hreads hm.setup hs
  obtain ⟨hsource', hbios'⟩ := hreads hm.setup' hs'
  exact ⟨hsource'.trans hsource.symm, hbios'.trans hbios.symm⟩

end

end Host

end ComputerHost
