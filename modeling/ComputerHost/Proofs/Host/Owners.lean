import ComputerHost.Proofs.Host.TimerMarks

/-!
# Whose timers are whose

All computers draw their timers from one counter and leave them with one service. Still a number is never
drawn twice, so every timer is that of one computer (`TimersApart`), and the service keeps the timers in
the order in which they fire. For the timers of one computer the service is then as good as one of its
own: putting a timer in, taking out those that are due and dropping the cancelled ones can be told from
the timers of that computer alone.

Results:
1. `filter_place`, `takeWhile_eq_filter`, `filter_select`: the service and the timers of one computer.
2. `timersApart_on`, `timersApart_of_evolves`: every timer is that of one computer.
-/

namespace ComputerHost

namespace TimerService

/-! ## 1. The timers of one computer -/

section
variable {entries : List TimerEntry} {entry : TimerEntry} {p : TimerEntry → Bool} {now : Nat}

/-- A timer that comes before all others is put in front. -/
theorem place_of_before (hall : ∀ e ∈ entries, ¬e.before entry = true) :
    place entry entries = entry :: entries := by
  cases entries with
  | nil => rfl
  | cons first rest =>
    unfold place
    rw [if_neg (hall first List.mem_cons_self)]

/-- Among some of the timers a new one of them gets its place as among all. -/
theorem filter_place (hs : Sorted entries) (hp : p entry = true) :
    (place entry entries).filter p = place entry (entries.filter p) := by
  induction entries with
  | nil => simp [place, hp]
  | cons first rest ih =>
    obtain ⟨hfirst, hrest⟩ := List.pairwise_cons.mp hs
    by_cases hbefore : first.before entry = true
    · have hplace : place entry (first :: rest) = first :: place entry rest := by
        rw [place, if_pos hbefore]
      rw [hplace]
      by_cases hown : p first = true
      · rw [List.filter_cons_of_pos hown, List.filter_cons_of_pos hown, ih hrest, place, if_pos hbefore]
      · rw [List.filter_cons_of_neg hown, List.filter_cons_of_neg hown, ih hrest]
    · -- Everything from here on comes after the new timer.
      rw [place, if_neg hbefore, List.filter_cons_of_pos hp, place_of_before]
      intro e he hle
      rcases List.mem_cons.mp (List.mem_filter.mp he).1 with rfl | he
      · exact hbefore hle
      · exact hbefore (TimerEntry.before_trans (hfirst e he) hle)

theorem filter_place_of_not (hp : ¬p entry = true) :
    (place entry entries).filter p = entries.filter p := by
  induction entries with
  | nil => simp [place, hp]
  | cons first rest ih =>
    unfold place
    split
    · by_cases hown : p first = true
      · rw [List.filter_cons_of_pos hown, List.filter_cons_of_pos hown, ih]
      · rw [List.filter_cons_of_neg hown, List.filter_cons_of_neg hown, ih]
    · rw [List.filter_cons_of_neg hp]

/-- What is due stands in front. -/
theorem takeWhile_eq_filter (hs : Sorted entries) :
    entries.takeWhile (fun e => e.fireAt ≤ now) = entries.filter (fun e => e.fireAt ≤ now) := by
  induction entries with
  | nil => rfl
  | cons first rest ih =>
    obtain ⟨hfirst, hrest⟩ := List.pairwise_cons.mp hs
    by_cases hdue : first.fireAt ≤ now
    · rw [List.takeWhile_cons_of_pos (by simpa using hdue), List.filter_cons_of_pos (by simpa using hdue),
        ih hrest]
    · rw [List.takeWhile_cons_of_neg (by simpa using hdue), List.filter_cons_of_neg (by simpa using hdue)]
      refine (List.filter_eq_nil_iff.mpr fun e he => ?_).symm
      have hlater := TimerEntry.before_iff.mp (hfirst e he)
      simp only [decide_eq_true_eq]
      omega

theorem dropWhile_eq_filter (hs : Sorted entries) :
    entries.dropWhile (fun e => e.fireAt ≤ now) = entries.filter (fun e => !decide (e.fireAt ≤ now)) := by
  induction entries with
  | nil => rfl
  | cons first rest ih =>
    obtain ⟨hfirst, hrest⟩ := List.pairwise_cons.mp hs
    by_cases hdue : first.fireAt ≤ now
    · rw [List.dropWhile_cons_of_pos (by simpa using hdue), List.filter_cons_of_neg (by simpa using hdue),
        ih hrest]
    · rw [List.dropWhile_cons_of_neg (by simpa using hdue)]
      refine (List.filter_eq_self.mpr fun e he => ?_).symm
      rcases List.mem_cons.mp he with rfl | he
      · simpa using hdue
      · have hlater := TimerEntry.before_iff.mp (hfirst e he)
        simp only [Bool.not_eq_true', decide_eq_false_iff_not]
        omega

end

/-- Which of some timers fire does not depend on others, if those have other numbers; nor does what
becomes of the cancelled numbers that these timers may have. -/
theorem filter_select (entries : List TimerEntry) {p : TimerEntry → Bool} {q : TimerId → Prop}
    (hown : ∀ e ∈ entries, p e = true → q e.id) (hothers : ∀ e ∈ entries, ¬p e = true → ¬q e.id)
    (cancelled cancelled' : List TimerId) (hsame : ∀ i, q i → cancelled'.count i = cancelled.count i) :
    (select entries cancelled).1.filter p = (select (entries.filter p) cancelled').1 ∧
      ∀ i, q i → (select (entries.filter p) cancelled').2.count i =
        (select entries cancelled).2.count i := by
  induction entries generalizing cancelled cancelled' with
  | nil => exact ⟨rfl, hsame⟩
  | cons first rest ih =>
    rw [List.forall_mem_cons] at hown hothers
    by_cases hp : p first = true
    · have hq := hown.1 hp
      have hmem : cancelled'.contains first.id = cancelled.contains first.id := by
        rw [Bool.eq_iff_iff, List.contains_iff_mem, List.contains_iff_mem, ← List.count_pos_iff,
          ← List.count_pos_iff, hsame _ hq]
      rw [List.filter_cons_of_pos hp]
      unfold select
      rw [hmem]
      split
      · refine ih hown.2 hothers.2 _ _ fun i hi => ?_
        rw [List.count_erase, List.count_erase, hsame i hi]
      · obtain ⟨hfired, hleft⟩ := ih hown.2 hothers.2 _ _ hsame
        refine ⟨?_, hleft⟩
        dsimp only
        rw [List.filter_cons_of_pos hp, hfired]
    · have hq := hothers.1 hp
      rw [List.filter_cons_of_neg hp]
      conv => enter [1, 1]; rw [select]
      conv => enter [2, i, hi, 2]; rw [select]
      split
      · refine ih hown.2 hothers.2 _ _ fun i hi => ?_
        have hne : first.id ≠ i := fun heq => hq (heq ▸ hi)
        rw [List.count_erase_of_ne hne.symm, hsame i hi]
      · obtain ⟨hfired, hleft⟩ := ih hown.2 hothers.2 _ _ hsame
        refine ⟨?_, hleft⟩
        dsimp only
        rw [List.filter_cons_of_neg hp, hfired]

end TimerService

/-- The computer that a change draws a timer for. -/
def Change.drawer? : Change → Option Handle
  | .startTimer w _ | .debounce w _ _ => some w
  | _ => none

namespace Host

/-! ## 2. Every timer is that of one computer -/

/-- A computer has a timer or waits for it as the debounced event, or the service has it for the computer
or has handed it over. -/
def HasTimer (h : Host) (who : Handle) (id : TimerId) : Prop :=
  (h.Owns who id ∨ h.debounceOf? who = some id) ∨ ∃ e ∈ h.scheduled, e.owner = who ∧ e.id = id

/-- A timer was cancelled before its moment, or its computer is gone. -/
def IsMarked (h : Host) (id : TimerId) : Prop :=
  id ∈ h.timers.cancelled ∨ id ∈ h.registry.freedTimers

/-- Every timer has been drawn and is that of one computer, and the service has its timers in order. -/
structure TimersApart (h : Host) : Prop where
  drawn : ∀ who id, h.HasTimer who id → id.number < h.counters.timer
  one : ∀ who who' id, h.HasTimer who id → h.HasTimer who' id → who = who'
  sorted : TimerService.Sorted h.timers.pending
  marked : ∀ id, h.IsMarked id → id.number < h.counters.timer

section
variable {h h' h₀ : Host} {who w : Handle} {id : TimerId} {trace : List (Host × Change)}

theorem timersApart_new (setup : HostSetup) (tree : FileTree) (store : ConfigStore) :
    TimersApart (Host.new setup tree store) := by
  have hnone (who : Handle) (id : TimerId) : ¬(Host.new setup tree store).HasTimer who id := by
    rintro (((hn | hn) | hn) | ⟨e, he, -⟩)
    · cases hn
    · cases hn
    · cases hn
    · cases he
  refine ⟨fun who id hid => absurd hid (hnone who id), fun who _ id hid => absurd hid (hnone who id),
    .nil, fun id hid => ?_⟩
  rcases hid with hid | hid
  · cases hid
  · exact absurd hid (Tombstones.not_mem_empty id)

theorem debounce_drawn_on {x : Change} (hi : (x.on h).debounceOf? who = some id) :
    h.debounceOf? who = some id ∨ (∃ ms e, x = .debounce who ms e) ∧ id = ⟨h.counters.timer⟩ := by
  have hd := differs_on x h
  have hsame (hx : ¬x.Touches (.debounce who)) : h.debounceOf? who = some id :=
    (hd.agrees (.debounce who) hx).symm.trans hi
  cases x with
  | debounce w ms e =>
    by_cases hw : who = w
    · subst hw
      change (h.debounce who ms e).2.debounceOf? who = some id at hi
      rw [debounceOf?_debounce] at hi
      split at hi
      · exact .inr ⟨⟨ms, e, rfl⟩, (Option.some.inj hi).symm⟩
      · exact .inl hi
    · exact .inl (hsame (by simpa [Change.Touches] using hw))
  | fire => exact .inl (debounceOf?_fire hi)
  | teardown w step =>
    cases step with
    | cancelDebounce =>
      rw [Change.on, debounceOf?_cancelDebounce] at hi
      split at hi
      · cases hi
      · exact .inl hi
    | _ => exact .inl (hsame not_false)
  | _ =>
    exact .inl (hsame (by simp [Change.Touches, Aspect.OfSpawn, Aspect.OfWiring, Aspect.OfResolution]))

theorem owner_on {x : Change} {e : TimerEntry} (he : e ∈ (x.on h).scheduled) :
    e ∈ h.scheduled ∨ x.drawer? = some e.owner ∧ e.id = ⟨h.counters.timer⟩ := by
  have hd := differs_on x h
  have hnew {entry : TimerEntry} {pending : List TimerEntry}
      (hs : pending = h.scheduled ∨ pending.Perm (entry :: h.scheduled)) (he : e ∈ pending) :
      e ∈ h.scheduled ∨ e = entry :=
    hs.elim (fun heq => .inl (heq ▸ he)) fun hperm => (List.mem_cons.mp (hperm.subset he)).symm
  cases x with
  | startTimer w ms =>
    refine (hnew (scheduled_startTimer h w ms) he).imp_right ?_
    rintro rfl
    exact ⟨rfl, rfl⟩
  | debounce w ms event =>
    refine (hnew (scheduled_debounce h w ms event) he).imp_right ?_
    rintro rfl
    exact ⟨rfl, rfl⟩
  | teardown w step =>
    refine ((scheduled_on _ h).added e he).imp_right fun hadded => ?_
    have hcounted := hd.agrees .numbering (by cases step <;> exact not_false)
    exact absurd hcounted (Nat.ne_of_gt hadded.2)
  | _ =>
    refine ((scheduled_on _ h).added e he).imp_right fun hadded => ?_
    have hcounted := hd.agrees .numbering
      (by simp [Change.Touches, Aspect.OfSpawn, Aspect.OfWiring, Aspect.OfResolution, Aspect.OfFiring])
    exact absurd hcounted (Nat.ne_of_gt hadded.2)

/-- Whoever has a timer after a change had it before, or has just drawn it. -/
theorem hasTimer_on {x : Change} (hi : (x.on h).HasTimer who id) :
    h.HasTimer who id ∨ x.drawer? = some who ∧ id = ⟨h.counters.timer⟩ := by
  rcases hi with (hi | hi) | ⟨e, he, rfl, rfl⟩
  · rcases owns_on hi with hi | ⟨ms, rfl, hnew, -⟩
    · exact .inl (.inl (.inl hi))
    · exact .inr ⟨rfl, hnew⟩
  · rcases debounce_drawn_on hi with hi | ⟨⟨ms, e, rfl⟩, hnew⟩
    · exact .inl (.inl (.inr hi))
    · exact .inr ⟨rfl, hnew⟩
  · exact (owner_on he).imp_left fun he => .inr ⟨e, he, rfl, rfl⟩

theorem counters_of_drawer {x : Change} (hx : x.drawer? = some who) (h : Host) :
    (x.on h).counters.timer = h.counters.timer + 1 := by
  cases x with
  | startTimer w ms => exact counters_startTimer h w ms
  | debounce w ms e => exact counters_debounce h w ms e
  | _ => cases hx

/-- The service keeps its order. -/
theorem sorted_on (hs : TimerService.Sorted h.timers.pending) (x : Change) :
    TimerService.Sorted (x.on h).timers.pending := by
  have hsame (ht : ¬x.Touches .service) : TimerService.Sorted (x.on h).timers.pending := by
    rw [((differs_on x h).agrees .service ht).1]
    exact hs
  have hplace {pending : List TimerEntry} (hp : pending = h.timers.pending ∨
      ∃ entry, pending = TimerService.place entry h.timers.pending) : TimerService.Sorted pending := by
    obtain rfl | ⟨entry, rfl⟩ := hp
    · exact hs
    · exact TimerService.sorted_place hs
  cases x with
  | startTimer w ms => exact hplace (pending_startTimer h w ms)
  | debounce w ms e => exact hplace (pending_debounce h w ms e)
  | cancelTimer w id => exact hplace (.inl (pending_cancelTimer h w id))
  | sweep => exact hs.sublist (List.dropWhile_sublist _)
  | resolve => exact timers_resolve h ▸ hs
  | fire => exact timers_fire h ▸ hs
  | teardown w step =>
    cases step with
    | cancelDebounce => exact hplace (.inl (pending_cancelDebounce h w))
    | _ => exact hsame not_false
  | _ => exact hsame (by simp [Change.Touches, Aspect.OfSpawn, Aspect.OfWiring])

/-- A change leaves every timer that of one computer. -/
theorem timersApart_on (ha : TimersApart h) (x : Change) : TimersApart (x.on h) := by
  have hcounted := (scheduled_on x h).counted
  have hold {who : Handle} {id : TimerId} (hi : h.HasTimer who id) (hnew : id = ⟨h.counters.timer⟩) :
      False :=
    Nat.lt_irrefl _ (hnew ▸ ha.drawn who id hi)
  refine ⟨fun who id hi => ?_, fun who who' id hi hi' => ?_, sorted_on ha.sorted x, fun id hi => ?_⟩
  · rcases hasTimer_on hi with hi | ⟨hx, rfl⟩
    · exact Nat.lt_of_lt_of_le (ha.drawn who id hi) hcounted
    · rw [counters_of_drawer hx]
      exact Nat.lt_succ_self _
  · rcases hasTimer_on hi with hi | ⟨hx, hnew⟩ <;> rcases hasTimer_on hi' with hi' | ⟨hx', hnew'⟩
    · exact ha.one who who' id hi hi'
    · exact (hold hi hnew').elim
    · exact (hold hi' hnew).elim
    · exact Option.some.inj (hx.symm.trans hx')
  · refine Nat.lt_of_lt_of_le ?_ hcounted
    rcases hi with hi | hi
    · rcases cancelled_on hi with hi | ⟨hknows, -⟩
      · exact ha.marked id (.inl hi)
      · obtain ⟨e, he, rfl⟩ := List.mem_map.mp hknows
        exact ha.drawn e.owner e.id (.inr ⟨e, he, rfl, rfl⟩)
    · rcases mem_freedTimers_on.mp hi with ⟨hi, -⟩ | ⟨w, -, hi⟩
      · exact ha.marked id (.inr hi)
      · exact ha.drawn w id (.inl (.inl (.inr hi)))

theorem timersApart_of_quiet (ha : TimersApart h) (hq : Quiet h h') : TimersApart h' := by
  have htimers : h'.timers = h.timers := (hq.agrees .service not_false).1
  have hcounted : h'.counters.timer = h.counters.timer := hq.agrees .numbering not_false
  have hfreed : h'.registry.freedTimers = h.registry.freedTimers := hq.agrees .freedTimers not_false
  have hhas {who : Handle} {id : TimerId} (hi : h'.HasTimer who id) : h.HasTimer who id := by
    rcases hi with ((hi | hi) | hi) | ⟨e, he, hsame⟩
    · exact .inl (.inl (.inl ((hq.agrees (.timers who) not_false) ▸ hi)))
    · exact .inl (.inl (.inr ((hq.agrees (.taken who) not_false) ▸ hi)))
    · exact .inl (.inr ((hq.agrees (.debounce who) not_false).symm.trans hi))
    · exact .inr ⟨e, scheduled_of_differs hq not_false ▸ he, hsame⟩
  refine ⟨fun who id hi => hcounted ▸ ha.drawn who id (hhas hi),
    fun who who' id hi hi' => ha.one who who' id (hhas hi) (hhas hi'), htimers ▸ ha.sorted,
    fun id hi => ?_⟩
  unfold IsMarked at hi
  rw [htimers, hfreed] at hi
  exact hcounted ▸ ha.marked id hi

theorem timersApart_of_evolves (he : Evolves h₀ trace h) (ha : TimersApart h₀) : TimersApart h := by
  induction he with
  | refl => exact ha
  | change _ ih => exact timersApart_on ih _
  | quiet _ hq ih => exact timersApart_of_quiet ih hq

end

end Host

end ComputerHost
