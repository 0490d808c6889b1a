import ComputerHost.Proofs.Host.Mirror
import ComputerHost.Proofs.Host.Scope

/-!
# What is done for others

What a host does for one computer leaves another one alone (`Untouched`) if the two have no peripherals in
common: its own state, its thread, its transcript, its devices, its timers and its settings stay as they
are. So two hosts that mirror each other for a computer still do when something has been done for others
on either.

Results:
1. `untouched_of_works`: whatever is done in the scope of the other computers.
2. `untouched_resolve`, `untouched_fire`: the timers of others.
3. `Mirror.untouched`: hosts that mirror each other.
-/

namespace ComputerHost

namespace Ward

/-- What may be changed while something is done for the other computer. -/
def others (W : Ward) (h : Host) : Scope where
  who := some W.other
  shows := True
  reaches w := w ≠ W.who
  names name := ¬W.pool name
  timers id := ¬h.HasTimer W.who id
  leaves := True
  isOpen := False
  reaches_of_open := False.elim
  names_of_open := False.elim
  timers_of_open := False.elim

end Ward

namespace Host

/-- Nothing has happened to the computer. -/
structure Untouched (W : Ward) (h h' : Host) : Prop where
  setup : h'.setup = h.setup
  clock : h'.clock = h.clock
  terminals : h'.terminals.length = h.terminals.length
  computer : h'.computer? W.who = h.computer? W.who
  stage : h'.stage? W.who = h.stage? W.who
  transcript : h'.transcript W.who.id = h.transcript W.who.id
  devices : ∀ name, W.pool name → h'.peripheral? name = h.peripheral? name
  registered : h'.registry.registered.count W.who = h.registry.registered.count W.who
  freed : W.who ∈ h'.registry.freed ↔ W.who ∈ h.registry.freed
  pending : W.own h'.timers.pending = W.own h.timers.pending
  due : W.own h'.due = W.own h.due
  firing : W.own h'.firing.toList = W.own h.firing.toList
  cancelled : ∀ id, h.HasTimer W.who id →
    h'.timers.cancelled.count id = h.timers.cancelled.count id
  freedTimers : ∀ id, h.HasTimer W.who id →
    (id ∈ h'.registry.freedTimers ↔ id ∈ h.registry.freedTimers)
  counted : h.counters.timer ≤ h'.counters.timer
  saves : ∃ saved, (∀ s ∈ saved, s.1 = W.other.id) ∧
    (h'.store, h'.tree) = h.store.saveAll h.tree saved

section
variable {W : Ward} {ρ : Renaming} {h h' h₁ h₁' h₂ : Host} {i : TimerId}

/-! ## 1. In the scope of others -/

theorem Untouched.refl (W : Ward) (h : Host) : Untouched W h h where
  setup := rfl
  clock := rfl
  terminals := rfl
  computer := rfl
  stage := rfl
  transcript := rfl
  devices _ _ := rfl
  registered := rfl
  freed := .rfl
  pending := rfl
  due := rfl
  firing := rfl
  cancelled _ _ := rfl
  freedTimers _ _ := .rfl
  counted := Nat.le_refl _
  saves := ⟨[], nofun, rfl⟩

theorem own_scheduled (W : Ward) (h : Host) :
    W.own h.scheduled = W.own h.timers.pending ++ (W.own h.due ++ W.own h.firing.toList) := by
  unfold Ward.own scheduled underway
  rw [List.filter_append, List.filter_append]

theorem hasTimer_iff_own : h.HasTimer W.who i ↔
    (h.Owns W.who i ∨ h.debounceOf? W.who = some i) ∨ ∃ e ∈ W.own h.scheduled, e.id = i := by
  simp only [mem_own, and_assoc]
  rfl

theorem Untouched.scheduled (hu : Untouched W h h') : W.own h'.scheduled = W.own h.scheduled := by
  rw [own_scheduled, own_scheduled, hu.pending, hu.due, hu.firing]

theorem Untouched.hasTimer (hu : Untouched W h h') : h'.HasTimer W.who i ↔ h.HasTimer W.who i := by
  have howns : h'.Owns W.who i ↔ h.Owns W.who i := by
    unfold Owns timersOf takenTimersOf
    rw [hu.computer]
  have hdebounce : h'.debounceOf? W.who = h.debounceOf? W.who := by
    unfold debounceOf?
    rw [hu.computer]
  rw [hasTimer_iff_own, hasTimer_iff_own, hu.scheduled, howns, hdebounce]

theorem Untouched.trans (hu : Untouched W h h') (hu' : Untouched W h' h₁) : Untouched W h h₁ where
  setup := hu'.setup.trans hu.setup
  clock := hu'.clock.trans hu.clock
  terminals := hu'.terminals.trans hu.terminals
  computer := hu'.computer.trans hu.computer
  stage := hu'.stage.trans hu.stage
  transcript := hu'.transcript.trans hu.transcript
  devices name hn := (hu'.devices name hn).trans (hu.devices name hn)
  registered := hu'.registered.trans hu.registered
  freed := hu'.freed.trans hu.freed
  pending := hu'.pending.trans hu.pending
  due := hu'.due.trans hu.due
  firing := hu'.firing.trans hu.firing
  cancelled id hid := (hu'.cancelled id (hu.hasTimer.mpr hid)).trans (hu.cancelled id hid)
  freedTimers id hid := (hu'.freedTimers id (hu.hasTimer.mpr hid)).trans (hu.freedTimers id hid)
  counted := hu.counted.trans hu'.counted
  saves := by
    obtain ⟨saved, hids, heq⟩ := hu.saves
    obtain ⟨later, hids', heq'⟩ := hu'.saves
    refine ⟨saved ++ later, List.forall_mem_append.mpr ⟨hids, hids'⟩, ?_⟩
    rw [heq', ConfigStore.saveAll_append, ← heq]

theorem untouched_modify {w : Handle} (hne : w ≠ W.who) {f : Computer → Computer}
    (hf : ∀ c, (f c).handle = c.handle) (h : Host) : Untouched W h (h.modify w f) :=
  { Untouched.refl W h with computer := computer?_modify_other hne hf h }

theorem count_cancel {s : TimerService} {id : TimerId} (hne : i ≠ id) :
    (s.cancel id).cancelled.count i = s.cancelled.count i := by
  unfold TimerService.cancel
  split
  · exact List.count_cons_of_ne hne.symm
  · rfl

/-- One change in the scope of others. -/
theorem untouched_of_touches (hdifferent : W.other ≠ W.who) (ht : Touches (W.others h) h₁ h₂)
    (hu : Untouched W h h₁) : Untouched W h₁ h₂ := by
  have hrefl := Untouched.refl W h₁
  cases ht with
  | computer hr hf => exact untouched_modify hr (fun c => (hf c).1) h₁
  | deed => exact { hrefl with }
  | terminal => exact { hrefl with terminals := List.length_modify .. }
  | @transcript w lines hw =>
    obtain rfl := Option.some.inj hw
    have htranscript : (h₁.log W.other.id lines).transcript W.who.id = h₁.transcript W.who.id := by
      rw [transcript_log, if_neg W.different.symm]
    rw [log_frame]
    exact { hrefl with transcript := htranscript }
  | @stage w stage hw =>
    obtain rfl := Option.some.inj hw
    have hstage : (h₁.setStage W.other stage).stage? W.who = h₁.stage? W.who := by
      rw [stage?_setStage, if_neg hdifferent.symm]
    exact { hrefl with stage := hstage }
  | @peripheral name p hn =>
    have hdevices (other : String) (ho : W.pool other) :
        (h₁.setPeripheral name p).peripheral? other = h₁.peripheral? other := by
      rw [peripheral?_setPeripheral, if_neg]
      rintro rfl
      exact hn ho
    exact { hrefl with devices := hdevices }
  | references hregistered hfreed htimers =>
    exact { hrefl with
      registered := by rw [hregistered]
      freed := by rw [hfreed]
      freedTimers := fun _ _ => by rw [htimers] }
  | @retires w hw =>
    obtain rfl := Option.some.inj hw
    refine { hrefl with registered := ?_, freed := ?_ }
    · exact List.count_erase_of_ne hdifferent.symm
    · show W.who ∈ h₁.registry.freed.add W.other ↔ _
      rw [Tombstones.mem_add, or_iff_right hdifferent.symm]
  | @releases w hw =>
    obtain rfl := Option.some.inj hw
    refine { hrefl with freed := ?_ }
    show W.who ∈ (h₁.registry.freed.forget W.other).2 ↔ _
    rw [Tombstones.mem_forget, and_iff_right hdifferent.symm]
  | @invalidates ids hids =>
    refine { hrefl with freedTimers := fun id hid => ?_ }
    show id ∈ h₁.registry.freedTimers.addAll ids ↔ _
    rw [Tombstones.mem_addAll]
    exact or_iff_right fun hmem => hids id hmem (hu.hasTimer.mp hid)
  | numbers => exact { hrefl with counted := Nat.le_succ _ }
  | @schedules entry hr =>
    have hne : ¬(entry.owner == W.who) = true := fun heq => hr (eq_of_beq heq)
    exact { hrefl with pending := TimerService.filter_place_of_not hne }
  | @cancels id hid =>
    refine { hrefl with pending := congrArg _ (TimerService.pending_cancel ..),
                        cancelled := fun i hi => count_cancel ?_ }
    rintro rfl
    exact hid (hu.hasTimer.mp hi)
  | @saves w config hw =>
    obtain rfl := Option.some.inj hw
    exact { hrefl with saves := ⟨[(W.other.id, config)], by simp, rfl⟩ }
  | dialog => exact { hrefl with }
  | orphan => exact { hrefl with }
  | state => exact { hrefl with }
  | message ho => exact ho.elim
  | spawns ho => exact ho.elim
  | other ho => exact ho.elim

theorem Ward.other_ne (W : Ward) : W.other ≠ W.who := fun heq => W.different (congrArg _ heq)

/-- Whatever is done in the scope of others. -/
theorem untouched_of_works (hw : Works (W.others h) h h') : Untouched W h h' := by
  induction hw with
  | refl => exact .refl W h
  | tail _ ht ih => exact ih.trans (untouched_of_touches (Ward.other_ne W) ht ih)

/-! ## 2. The timers of others -/

theorem untouched_resolve (ha : TimersApart h) {entry : TimerEntry} {due : List TimerEntry}
    (hfiring : h.firing = none) (hdue : h.due = entry :: due) (ho : entry.owner ≠ W.who) :
    Untouched W h (Change.resolve.on h) := by
  obtain ⟨freedTimers, hfreed, heq⟩ := resolve_of_cons hfiring hdue
  rw [heq]
  refine { Untouched.refl W h with due := ?_, firing := ?_, freedTimers := fun id hid => ?_ }
  · rw [hdue, own_cons_of_ne ho]
  · rw [hfiring]
    split
    · exact own_cons_of_ne ho
    · rfl
  · refine (hfreed id).trans (and_iff_right ?_)
    rintro rfl
    have hentry : h.HasTimer entry.owner entry.id :=
      .inr ⟨entry, mem_scheduled_of_due hdue, rfl, rfl⟩
    exact ho (ha.one _ _ _ hentry hid)

theorem untouched_fire {entry : TimerEntry} (hfiring : h.firing = some entry)
    (ho : entry.owner ≠ W.who) : Untouched W h (Change.fire.on h) := by
  have hover : Untouched W h { h with firing := none } := by
    refine { Untouched.refl W h with firing := ?_ }
    rw [hfiring]
    exact (own_cons_of_ne ho).symm
  rw [fire_of_some hfiring]
  exact hover.trans (untouched_modify ho (fun c => handle_timerFired c _ _) _)

/-! ## 3. Hosts that mirror each other -/

/-- The saves of others make no difference to what was saved for the computer. -/
theorem Untouched.saved (hu : Untouched W h h') {saved : List (UInt32 × ComputerConfig)}
    (hs : W.Saves saved (h.store, h.tree)) : ∃ later, W.Saves later (h'.store, h'.tree) ∧
      later.filter (·.1 = W.who.id) = saved.filter (·.1 = W.who.id) := by
  obtain ⟨later, hids, heq⟩ := hu.saves
  have hnone : later.filter (·.1 = W.who.id) = [] :=
    List.filter_eq_nil_iff.mpr fun s hmem hown =>
      W.different ((hids s hmem).symm.trans (of_decide_eq_true hown))
  refine ⟨saved ++ later, ⟨?_, fun s hmem => ?_⟩, ?_⟩
  · rw [ConfigStore.saveAll_append, ← hs.kept]
    exact heq
  · exact (List.mem_append.mp hmem).elim (hs.ids s) fun hmem => .inr (hids s hmem)
  · rw [List.filter_append, hnone, List.append_nil]

/-- Two hosts that mirror each other for a computer still do when something is done for others. -/
theorem Mirror.untouched (hm : Mirror W ρ h h') (hu : Untouched W h h₁) (hu' : Untouched W h' h₁') :
    Mirror W ρ h₁ h₁' := by
  have hhas {e : TimerEntry} {i : TimerId} (he : e ∈ W.own h.scheduled) (hi : ρ e.id i) :
      h.HasTimer W.who e.id ∧ h'.HasTimer W.who i := by
    obtain ⟨e', he', hi'⟩ := counterpart_of_forall₂ hm.counterparts he
    obtain rfl := (hm.increasing.inj hi hi').mp rfl
    obtain ⟨hmem, howner⟩ := mem_own.mp he
    obtain ⟨hmem', howner'⟩ := mem_own.mp he'
    exact ⟨.inr ⟨e, hmem, howner, rfl⟩, .inr ⟨e', hmem', howner', rfl⟩⟩
  refine ⟨hm.increasing, hu.setup.trans hm.setup, hu'.setup.trans hm.setup', ?_, ?_, ?_, ?_, ?_,
    fun name hn => ?_, fun name hn => ?_, ?_, hu'.freed.trans (hm.freed.trans hu.freed.symm), ?_, ?_, ?_,
    fun e he i hi => ?_, fun e he i hi => ?_, fun i i' hi => ?_, ?_⟩
  · rw [hu.clock, hu'.clock, hm.clock]
  · rw [hu.terminals, hu'.terminals, hm.terminals]
  · rw [hu.computer, hu'.computer]
    exact hm.computer
  · rw [hu.stage, hu'.stage]
    exact hm.stage
  · rw [hu.transcript, hu'.transcript]
    exact hm.transcript
  · rw [hu.devices name hn, hu'.devices name hn, hm.devices name hn]
  · unfold link?
    rw [hu.devices name hn]
    exact hm.unlinked name hn
  · rw [hu.registered, hu'.registered, hm.registered]
  · rw [hu.pending, hu'.pending]
    exact hm.pending
  · rw [hu.due, hu'.due]
    exact hm.due
  · rw [hu.firing, hu'.firing]
    exact hm.firing
  · rw [hu.pending] at he
    obtain ⟨hmem, howner⟩ := mem_own.mp he
    obtain ⟨hhas, hhas'⟩ := hhas (mem_own.mpr ⟨List.mem_append_left _ hmem, howner⟩) hi
    rw [hu.cancelled _ hhas, hu'.cancelled _ hhas', hm.cancelled e he i hi]
  · rw [hu.scheduled] at he
    obtain ⟨hhas, hhas'⟩ := hhas he hi
    rw [hu.freedTimers _ hhas, hu'.freedTimers _ hhas', hm.freedTimers e he i hi]
  · exact (hm.drawn i i' hi).imp (Nat.lt_of_lt_of_le · hu.counted) (Nat.lt_of_lt_of_le · hu'.counted)
  · obtain ⟨saved, saved', hs, hs', heq⟩ := hm.stores
    obtain ⟨later, hlater, hfilter⟩ := hu.saved hs
    obtain ⟨later', hlater', hfilter'⟩ := hu'.saved hs'
    exact ⟨later, later', hlater, hlater', by rw [hfilter, hfilter', heq]⟩

end

end Host

end ComputerHost
