import Mathlib.Data.Finset.Dedup
import Mathlib.Data.Finset.Insert
import Mathlib.Data.Set.Card
import ComputerHost.Proofs.Timer.Service

/-!
# The timer service on a heap

A timer service can keep its timers in no order at all, as long as it can always find a greatest one, for
an order in which the timer that fires first is the greatest. `Heap` is such a service: a multiset of
timers, and a set of cancelled ids. Which of several greatest timers it takes is left open. `Heap.Runs` are
the runs of it, one pop after the other, and every one of them comes to the same as the sorted list.

Results:
1. `cmp_eq_gt_iff`, `pops_iff`: the greatest timer is the first one of the list.
2. `drains_iff`, `runs_iff`: one sweep, and whole histories.
3. `live_timers_once`: what a history of the service hands over, and what it keeps.
-/

namespace ComputerHost

/-- How timers are compared in a heap: the greater one fires first. -/
def TimerEntry.cmp (a b : TimerEntry) : Ordering :=
  (compare b.fireAt a.fireAt).then (compare b.id.number a.id.number)

namespace TimerService

/-- A timer service on a heap. -/
structure Heap where
  entries : Multiset TimerEntry
  cancelled : Finset TimerId

/-- A greatest timer is taken out of a heap. -/
def Pops (entries : Multiset TimerEntry) (e : TimerEntry) (rest : Multiset TimerEntry) : Prop :=
  entries = e ::ₘ rest ∧ ∀ x ∈ rest, x.cmp e ≠ .gt

/-- A sweep of a heap: one timer after the other is popped until the greatest one is not due. -/
inductive Heap.Drains (now : Nat) : Heap → List TimerEntry → Heap → Prop
  | done {s : Heap} : (∀ e rest, Pops s.entries e rest → now < e.fireAt) → Drains now s [] s
  | drop {s s' : Heap} {e : TimerEntry} {rest : Multiset TimerEntry} {fired : List TimerEntry} :
      Pops s.entries e rest → e.fireAt ≤ now → e.id ∈ s.cancelled →
      Drains now ⟨rest, s.cancelled.erase e.id⟩ fired s' → Drains now s fired s'
  | fire {s s' : Heap} {e : TimerEntry} {rest : Multiset TimerEntry} {fired : List TimerEntry} :
      Pops s.entries e rest → e.fireAt ≤ now → e.id ∉ s.cancelled →
      Drains now ⟨rest, s.cancelled⟩ fired s' → Drains now s (e :: fired) s'

/-- One call to a service on a heap, with what it hands over. -/
inductive Heap.Step : Heap → Call → List TimerEntry → Heap → Prop
  | schedule (s : Heap) (entry : TimerEntry) :
      Step s (.schedule entry) [] ⟨entry ::ₘ s.entries, s.cancelled⟩
  | mark {s : Heap} {id : TimerId} :
      (∃ e ∈ s.entries, e.id = id) → Step s (.cancel id) [] ⟨s.entries, insert id s.cancelled⟩
  | ignore {s : Heap} {id : TimerId} : (∀ e ∈ s.entries, e.id ≠ id) → Step s (.cancel id) [] s
  | sweep {s s' : Heap} {now : Nat} {fired : List TimerEntry} :
      Drains now s fired s' → Step s (.sweep now) fired s'

/-- What calls to an empty service on a heap may hand over, and what they may leave. -/
inductive Heap.Runs : List Call → List TimerEntry → Heap → Prop
  | start : Runs [] [] ⟨0, ∅⟩
  | call {calls : List Call} {call : Call} {handed fired : List TimerEntry} {s s' : Heap} :
      Runs calls handed s → Step s call fired s' → Runs (calls ++ [call]) (handed ++ fired) s'

/-- The service without the order of its timers. -/
def heap (s : TimerService) : Heap := ⟨s.pending, s.cancelled.toFinset⟩

section
variable {s : TimerService} {g g' : Heap} {e entry : TimerEntry} {rest : Multiset TimerEntry} {id : TimerId}
  {now : Nat} {calls : List Call} {call : Call} {fired handed : List TimerEntry}

/-! ## 1. The greatest timer -/

theorem cmp_eq_gt_iff {a b : TimerEntry} : a.cmp b = .gt ↔ a.Earlier b := by
  unfold TimerEntry.cmp TimerEntry.Earlier
  rw [Ordering.then_eq_gt, Nat.compare_eq_gt, Nat.compare_eq_eq, Nat.compare_eq_gt,
    eq_comm (a := b.fireAt)]

/-- Of timers in order, the first one is popped. -/
theorem pops_iff {first : TimerEntry} {later : List TimerEntry}
    (ho : (first :: later).Pairwise TimerEntry.Earlier) :
    Pops (first :: later : List TimerEntry) e rest ↔ e = first ∧ rest = later := by
  constructor
  · rintro ⟨heq, hgreatest⟩
    have he : e = first := by
      by_contra hne
      have hmem : first ∈ e ::ₘ rest := heq ▸ List.mem_cons_self
      have hlater : e ∈ (first :: later : List TimerEntry) := by
        have hself : e ∈ e ::ₘ rest := Multiset.mem_cons_self e rest
        rwa [← heq] at hself
      rcases Multiset.mem_cons.mp hmem with hsame | hmem
      · exact hne hsame.symm
      · rcases List.mem_cons.mp hlater with hsame | hlater
        · exact hne hsame
        · exact hgreatest first hmem (cmp_eq_gt_iff.mpr ((List.pairwise_cons.mp ho).1 e hlater))
    subst he
    refine ⟨rfl, ?_⟩
    rw [← Multiset.cons_coe, Multiset.cons_inj_right] at heq
    exact heq.symm
  · rintro ⟨rfl, rfl⟩
    refine ⟨rfl, ?_⟩
    intro x hx hgt
    have hback := (List.pairwise_cons.mp ho).1 x hx
    have hx' := cmp_eq_gt_iff.mp hgt
    unfold TimerEntry.Earlier at hback hx'
    omega

theorem not_pops_zero : ¬Pops 0 e rest := by
  rintro ⟨heq, -⟩
  exact Multiset.zero_ne_cons heq

/-! ## 2. Runs -/

theorem drains_zero {cancelled : Finset TimerId} :
    Heap.Drains now ⟨0, cancelled⟩ fired g ↔ fired = [] ∧ g = ⟨0, cancelled⟩ := by
  constructor
  · intro hdrains
    cases hdrains with
    | done => exact ⟨rfl, rfl⟩
    | drop hpops | fire hpops => exact absurd hpops not_pops_zero
  · rintro ⟨rfl, rfl⟩
    exact .done fun e rest hpops => absurd hpops not_pops_zero

/-- A sweep of a heap goes on from the first of its timers to the others. -/
theorem drains_cons {first : TimerEntry} {later : List TimerEntry} {cancelled : Finset TimerId}
    (ho : (first :: later).Pairwise TimerEntry.Earlier) :
    Heap.Drains now ⟨(first :: later : List TimerEntry), cancelled⟩ fired g ↔
      if first.fireAt ≤ now then
        if first.id ∈ cancelled then Heap.Drains now ⟨later, cancelled.erase first.id⟩ fired g
        else ∃ others, fired = first :: others ∧ Heap.Drains now ⟨later, cancelled⟩ others g
      else fired = [] ∧ g = ⟨(first :: later : List TimerEntry), cancelled⟩ := by
  have hfirst : Pops (first :: later : List TimerEntry) first later := (pops_iff ho).mpr ⟨rfl, rfl⟩
  constructor
  · intro hdrains
    cases hdrains with
    | done hlate =>
      rw [if_neg (Nat.not_le.mpr (hlate first later hfirst))]
      exact ⟨rfl, rfl⟩
    | drop hpops hdue hmarked hothers =>
      obtain ⟨rfl, rfl⟩ := (pops_iff ho).mp hpops
      rwa [if_pos hdue, if_pos hmarked]
    | fire hpops hdue hmarked hothers =>
      obtain ⟨rfl, rfl⟩ := (pops_iff ho).mp hpops
      rw [if_pos hdue, if_neg hmarked]
      exact ⟨_, rfl, hothers⟩
  · intro hcase
    split at hcase
    · next hdue =>
      split at hcase
      · next hmarked => exact .drop hfirst hdue hmarked hcase
      · next hmarked =>
        obtain ⟨others, rfl, hothers⟩ := hcase
        exact .fire hfirst hdue hmarked hothers
    · next hlate =>
      obtain ⟨rfl, rfl⟩ := hcase
      refine .done fun e rest hpops => ?_
      obtain ⟨rfl, -⟩ := (pops_iff ho).mp hpops
      exact Nat.lt_of_not_le hlate

/-- A sweep of a heap comes to the sweep of the list. -/
theorem drains_iff (ho : s.pending.Pairwise TimerEntry.Earlier) (hn : s.cancelled.Nodup) :
    Heap.Drains now s.heap fired g ↔ fired = (s.sweep now).1 ∧ g = (s.sweep now).2.heap := by
  obtain ⟨pending, cancelled⟩ := s
  induction pending generalizing cancelled fired with
  | nil => exact drains_zero
  | cons first later ih =>
    have herase : cancelled.toFinset.erase first.id = (cancelled.erase first.id).toFinset := by
      ext id
      simp [hn.mem_erase_iff]
    refine (drains_cons ho).trans ?_
    rw [sweep_cons, herase]
    simp only [List.mem_toFinset]
    split
    · split
      · exact ih _ ho.of_cons (hn.erase _)
      · constructor
        · rintro ⟨others, rfl, hothers⟩
          obtain ⟨rfl, rfl⟩ := (ih _ ho.of_cons hn).mp hothers
          exact ⟨rfl, rfl⟩
        · rintro ⟨rfl, rfl⟩
          exact ⟨_, rfl, (ih _ ho.of_cons hn).mpr ⟨rfl, rfl⟩⟩
    · exact Iff.rfl

theorem heap_schedule (s : TimerService) (entry : TimerEntry) :
    (s.schedule entry).heap = ⟨entry ::ₘ s.heap.entries, s.heap.cancelled⟩ :=
  congrArg (Heap.mk · _) (Multiset.coe_eq_coe.mpr (perm_place entry s.pending))

theorem heap_cancel (s : TimerService) (id : TimerId) :
    (s.cancel id).heap = if ∃ e ∈ s.pending, e.id = id then
      ⟨s.heap.entries, insert id s.heap.cancelled⟩ else s.heap := by
  have hmarks : (s.cancel id).cancelled.toFinset = if ∃ e ∈ s.pending, e.id = id then
      insert id s.cancelled.toFinset else s.cancelled.toFinset := by
    ext i
    rw [List.mem_toFinset, mem_cancelled_cancel]
    split
    · next hwaits => simp [hwaits, or_comm]
    · next hwaits => simp [hwaits]
  unfold heap
  rw [pending_cancel, hmarks]
  split <;> rfl

/-- A call to a heap comes to the call to the list. -/
theorem step_iff (ho : Orderly s) :
    Heap.Step s.heap call fired g ↔ fired = s.handsOver call ∧ g = (s.on call).heap := by
  cases call with
  | schedule entry =>
    show _ ↔ fired = [] ∧ g = (s.schedule entry).heap
    rw [heap_schedule]
    constructor
    · rintro ⟨⟩
      exact ⟨rfl, rfl⟩
    · rintro ⟨rfl, rfl⟩
      exact .schedule _ entry
  | cancel id =>
    show _ ↔ fired = [] ∧ g = (s.cancel id).heap
    rw [heap_cancel]
    constructor
    · intro hstep
      cases hstep with
      | mark hwaits => exact ⟨rfl, (if_pos hwaits).symm⟩
      | ignore hno => exact ⟨rfl, (if_neg fun ⟨e, he, heq⟩ => hno e he heq).symm⟩
    · rintro ⟨rfl, rfl⟩
      split
      · next hwaits => exact .mark hwaits
      · next hno => exact .ignore fun e he heq => hno ⟨e, he, heq⟩
  | sweep now =>
    refine Iff.trans ?_ (drains_iff ho.ordered ho.nodup)
    constructor
    · rintro ⟨⟩
      assumption
    · exact .sweep

theorem runs_snoc :
    Heap.Runs (calls ++ [call]) handed g ↔ ∃ earlier g₁ fired, Heap.Runs calls earlier g₁ ∧
      Heap.Step g₁ call fired g ∧ handed = earlier ++ fired := by
  constructor
  · intro hruns
    generalize heq : calls ++ [call] = all at hruns
    cases hruns with
    | start => simp at heq
    | call hruns hstep =>
      obtain ⟨rfl, hlast⟩ := List.append_inj' heq rfl
      cases hlast
      exact ⟨_, _, _, hruns, hstep, rfl⟩
  · rintro ⟨earlier, g₁, fired, hruns, hstep, rfl⟩
    exact .call hruns hstep

/-- Every run on a heap hands over the same timers in the same order as the list, and there is one. -/
theorem runs_iff (hd : Distinct calls) :
    Heap.Runs calls handed g ↔ handed = handedOver calls ∧ g = (after calls).heap := by
  induction calls using List.reverseRecOn generalizing handed g with
  | nil =>
    constructor
    · intro hruns
      generalize heq : ([] : List Call) = none at hruns
      cases hruns with
      | start => exact ⟨rfl, rfl⟩
      | call => simp at heq
    · rintro ⟨rfl, rfl⟩
      exact .start
  | append_singleton calls call ih =>
    have ho := (tracks_after calls hd.past).orderly
    rw [runs_snoc, handedOver_snoc, after_snoc]
    constructor
    · rintro ⟨earlier, g₁, fired, hruns, hstep, rfl⟩
      obtain ⟨rfl, rfl⟩ := (ih hd.past).mp hruns
      obtain ⟨rfl, rfl⟩ := (step_iff ho).mp hstep
      exact ⟨rfl, rfl⟩
    · rintro ⟨rfl, rfl⟩
      exact ⟨_, _, _, (ih hd.past).mpr ⟨rfl, rfl⟩, (step_iff ho).mpr ⟨rfl, rfl⟩, rfl⟩

/-! ## 3. Histories -/

theorem pendingCount_eq (ht : Tracks calls s) : s.pendingCount = {e | Waits e calls}.ncard := by
  have hset : {e | Waits e calls} = (s.pending.toFinset : Set TimerEntry) := by
    ext e
    simp [ht.pending]
  rw [hset, Set.ncard_coe_finset, List.toFinset_card_of_nodup ht.orderly.distinct.of_map]
  rfl

/-- The service after any calls, as long as no two timers are scheduled with the same id. A sweep, at
whatever time, hands over the timers that wait, whose moment has come and that were not cancelled while
they waited, in the order of their moments and, for the same moment, of their numbers; those of a later
moment go on waiting. No timer is ever handed over twice. Only timers that wait are marked as cancelled, so
there is no mark when none waits, and the count is that of the timers that wait. All of this is so for a
heap that pops some greatest timer at a time, too, which hands over the same timers in the same order. -/
theorem live_timers_once (calls : List Call) (hd : Distinct calls) :
    (∀ now,
      (∀ e, e ∈ ((after calls).sweep now).1 ↔ Waits e calls ∧ e.fireAt ≤ now ∧ ¬Withdrawn e calls) ∧
      ((after calls).sweep now).1.Pairwise TimerEntry.Earlier ∧
      ∀ e, Waits e calls → now < e.fireAt → e ∈ ((after calls).sweep now).2.pending) ∧
    ((handedOver calls).map (·.id)).Nodup ∧
    (∀ id ∈ (after calls).cancelled, ∃ e, Waits e calls ∧ e.id = id) ∧
    ((after calls).pending = [] → (after calls).cancelled = []) ∧
    (after calls).pendingCount = {e | Waits e calls}.ncard ∧
    ∀ handed g, Heap.Runs calls handed g ↔ handed = handedOver calls ∧ g = (after calls).heap := by
  have ht := tracks_after calls hd
  refine ⟨?_, nodup_handedOver hd, ?_, ?_, pendingCount_eq ht, fun handed g => runs_iff hd⟩
  · intro now
    refine ⟨?_, ordered_sweep ht.orderly now, ?_⟩
    · intro e
      rw [mem_sweep_fst ht.orderly, ← ht.pending]
      constructor
      · rintro ⟨hwaits, hdue, hunmarked⟩
        exact ⟨hwaits, hdue, fun hw => hunmarked ((ht.cancelled e hwaits).mpr hw)⟩
      · rintro ⟨hwaits, hdue, hno⟩
        exact ⟨hwaits, hdue, fun hm => hno ((ht.cancelled e hwaits).mp hm)⟩
    · intro e hwaits hlater
      exact (mem_pending_sweep ht.orderly).mpr ⟨(ht.pending e).mpr hwaits, hlater⟩
  · intro id hm
    obtain ⟨e, he, heq⟩ := ht.orderly.marked id hm
    exact ⟨e, (ht.pending e).mp he, heq⟩
  · intro hnone
    refine List.eq_nil_iff_forall_not_mem.mpr ?_
    intro id hm
    obtain ⟨e, he, -⟩ := ht.orderly.marked id hm
    rw [hnone] at he
    cases he

/-- Three timers, two of them for the same moment; one is cancelled in time, and one too late. -/
def crossing : List Call :=
  let timer (number fireAt : Nat) : TimerEntry := ⟨fireAt, ⟨number⟩, ⟨7, 1⟩, Event.terminate⟩
  [.schedule (timer 3 20), .schedule (timer 1 30), .schedule (timer 2 20), .cancel ⟨1⟩, .cancel ⟨9⟩,
    .sweep 25, .cancel ⟨2⟩]

theorem live_timers_once_crossing :
    (handedOver crossing).map (·.id.number) = [2, 3] ∧ ((handedOver crossing).map (·.id)).Nodup ∧
      ((after crossing).sweep 30).1 = [] ∧ ((after crossing).sweep 30).2 = empty ∧
      ∀ e, Waits e crossing → 29 < e.fireAt → e ∈ ((after crossing).sweep 29).2.pending := by
  obtain ⟨hsweep, hnodup, -⟩ := live_timers_once crossing (by decide)
  exact ⟨by decide, hnodup, by decide, by decide, (hsweep 29).2.2⟩

end

end TimerService

end ComputerHost
