import Mathlib.Data.List.Induction
import Mathlib.Data.List.Nodup
import Mathlib.Data.List.TakeWhile
import ComputerHost.TimerService
import ComputerHost.Proofs.Since

/-!
# The timer service over a history

A cancelled timer is only marked, and the mark is used up when its moment has come. So which timers wait
and which of them are marked is said of a whole history of calls: `Waits` says that a timer was scheduled
and not taken out since, `Withdrawn` that it was cancelled while it waited. An `Orderly` service keeps its
timers in the order in which they will fire, each id once, and marks only timers that wait.

Results:
1. `perm_place`, `sorted_place`, `sublist_select`, `pending_cancel`: one call.
2. `sweep_cons`, `sweep_eq`: a sweep as a loop, and in one go.
3. `orderly_sweep`, `tracks_after`: the invariant, along every history.
4. `nodup_handedOver`: no timer is handed over twice.
-/

namespace ComputerHost

/-- Does a timer fire before another one? Of two for the same moment the one with the smaller number
does. -/
def TimerEntry.Earlier (a b : TimerEntry) : Prop :=
  a.fireAt < b.fireAt ∨ a.fireAt = b.fireAt ∧ a.id.number < b.id.number

namespace TimerEntry

theorem before_iff {a b : TimerEntry} : a.before b = true ↔
    a.fireAt < b.fireAt ∨ a.fireAt = b.fireAt ∧ a.id.number ≤ b.id.number := by
  simp [before]

theorem before_trans {a b c : TimerEntry} (hab : a.before b = true) (hbc : b.before c = true) :
    a.before c = true := by
  rw [before_iff] at *
  omega

theorem before_of_not {a b : TimerEntry} (hn : ¬a.before b = true) : b.before a = true := by
  rw [before_iff] at *
  omega

theorem before_of_earlier {a b : TimerEntry} (he : a.Earlier b) : a.before b = true :=
  before_iff.mpr (he.imp_right fun hlater => ⟨hlater.1, Nat.le_of_lt hlater.2⟩)

theorem earlier_of_before {a b : TimerEntry} (hb : a.before b = true) (hne : a.id ≠ b.id) :
    a.Earlier b := by
  rcases before_iff.mp hb with hlt | ⟨heq, hle⟩
  · exact .inl hlt
  · exact .inr ⟨heq, Nat.lt_of_le_of_ne hle fun hn => hne (congrArg TimerId.mk hn)⟩

theorem fireAt_le_of_earlier {a b : TimerEntry} (he : a.Earlier b) : a.fireAt ≤ b.fireAt := by
  rcases he with hlt | ⟨heq, -⟩
  · exact Nat.le_of_lt hlt
  · exact Nat.le_of_eq heq

end TimerEntry

namespace TimerService

/-- The timers stand in the order in which they fire. -/
def Sorted (entries : List TimerEntry) : Prop :=
  entries.Pairwise fun a b => a.before b = true

/-- A call to the service. -/
inductive Call where
  | schedule (entry : TimerEntry)
  | cancel (id : TimerId)
  /-- Take out the timers whose moment has come. -/
  | sweep (now : Nat)
deriving DecidableEq, Repr

/-- The service after a call. -/
def on (s : TimerService) : Call → TimerService
  | .schedule entry => s.schedule entry
  | .cancel id => s.cancel id
  | .sweep now => (s.sweep now).2

/-- The service after several calls. -/
def after (calls : List Call) : TimerService := calls.foldl on empty

/-- What a call hands over. -/
def handsOver (s : TimerService) : Call → List TimerEntry
  | .sweep now => (s.sweep now).1
  | _ => []

/-- What a service and several calls hand over, in order. -/
def handsOverAll (s : TimerService) : List Call → List TimerEntry
  | [] => []
  | call :: later => s.handsOver call ++ (s.on call).handsOverAll later

/-- What a history has handed over, in order. -/
def handedOver (calls : List Call) : List TimerEntry := empty.handsOverAll calls

def Call.scheduled? : Call → Option TimerEntry
  | .schedule entry => some entry
  | _ => none

/-- The timers that were scheduled, in order. -/
def scheduledIn (calls : List Call) : List TimerEntry := calls.filterMap Call.scheduled?

/-- No two timers are scheduled with the same id. -/
def Distinct (calls : List Call) : Prop := ((scheduledIn calls).map (·.id)).Nodup

/-- A sweep takes out the timer, whether it hands it over or not. -/
def TakesOut (e : TimerEntry) (call : Call) : Prop := ∃ now, call = .sweep now ∧ e.fireAt ≤ now

/-- A timer was scheduled, and no sweep has taken it out since. -/
def Waits (e : TimerEntry) : List Call → Prop := Since (· = .schedule e) (TakesOut e)

/-- A timer was cancelled while it waited, and no sweep has taken it out since. -/
def Withdrawn (e : TimerEntry) : List Call → Prop :=
  SinceWhen (fun past call => call = .cancel e.id ∧ Waits e past) (TakesOut e)

/-- The timers are in order, each id once, and only timers that wait are marked as cancelled. -/
structure Orderly (s : TimerService) : Prop where
  ordered : s.pending.Pairwise TimerEntry.Earlier
  distinct : (s.pending.map (·.id)).Nodup
  marked : ∀ id ∈ s.cancelled, ∃ e ∈ s.pending, e.id = id
  nodup : s.cancelled.Nodup

/-- What a history says about the service that it has led to. -/
structure Tracks (calls : List Call) (s : TimerService) : Prop where
  orderly : Orderly s
  pending : ∀ e, e ∈ s.pending ↔ Waits e calls
  cancelled : ∀ e ∈ s.pending, e.id ∈ s.cancelled ↔ Withdrawn e calls

instance (calls : List Call) : Decidable (Distinct calls) :=
  inferInstanceAs (Decidable (List.Nodup _))

section
variable {s : TimerService} {e entry : TimerEntry} {id : TimerId} {now : Nat} {calls : List Call}
  {call : Call}

/-! ## 1. One call -/

theorem perm_place (entry : TimerEntry) (entries : List TimerEntry) :
    (place entry entries).Perm (entry :: entries) := by
  induction entries with
  | nil => exact .refl _
  | cons first rest ih =>
    unfold place
    split
    · exact (ih.cons first).trans (.swap entry first rest)
    · exact .refl _

theorem sorted_place {entries : List TimerEntry} (hs : Sorted entries) :
    Sorted (place entry entries) := by
  induction entries with
  | nil => exact List.pairwise_singleton _ entry
  | cons first rest ih =>
    obtain ⟨hfirst, hrest⟩ := List.pairwise_cons.mp hs
    unfold place
    split
    · next hbefore =>
      refine List.pairwise_cons.mpr ⟨fun e he => ?_, ih hrest⟩
      rcases List.mem_cons.mp ((perm_place entry rest).mem_iff.mp he) with rfl | he
      · exact hbefore
      · exact hfirst e he
    · next hbefore =>
      have hafter := TimerEntry.before_of_not hbefore
      refine List.pairwise_cons.mpr ⟨fun e he => ?_, hs⟩
      rcases List.mem_cons.mp he with rfl | he
      · exact hafter
      · exact TimerEntry.before_trans hafter (hfirst e he)

/-- Timers with different ids that are sorted fire one after the other. -/
theorem ordered_of_sorted {entries : List TimerEntry} (hs : Sorted entries)
    (hd : (entries.map (·.id)).Nodup) : entries.Pairwise TimerEntry.Earlier :=
  (List.Pairwise.and hs (List.pairwise_map.mp hd)).imp fun ⟨hb, hne⟩ =>
    TimerEntry.earlier_of_before hb hne

theorem sublist_select (entries : List TimerEntry) (cancelled : List TimerId) :
    (select entries cancelled).1.Sublist entries := by
  induction entries generalizing cancelled with
  | nil => exact .refl _
  | cons entry rest ih =>
    unfold select
    split
    · exact (ih _).cons entry
    · exact (ih _).cons_cons entry

theorem pending_cancel (s : TimerService) (id : TimerId) : (s.cancel id).pending = s.pending := by
  unfold cancel
  split <;> rfl

/-- An id is marked by a cancel, if it waits. -/
theorem mem_cancelled_cancel {i : TimerId} :
    i ∈ (s.cancel id).cancelled ↔ i ∈ s.cancelled ∨ i = id ∧ ∃ e ∈ s.pending, e.id = id := by
  unfold cancel
  split
  · next hc =>
    simp only [Bool.and_eq_true, List.any_eq_true, beq_iff_eq] at hc
    simp [hc.1, or_comm]
  · next hc =>
    simp only [Bool.and_eq_true, List.any_eq_true, beq_iff_eq, Bool.not_eq_true',
      List.contains_eq_mem, decide_eq_false_iff_not, not_and, not_not] at hc
    refine ⟨.inl, ?_⟩
    rintro (hm | ⟨rfl, hwaits⟩)
    · exact hm
    · exact hc hwaits

/-! ## 2. Sweeping -/

/-- The sweep of a service goes on from its first timer to the others. -/
theorem sweep_cons (entry : TimerEntry) (rest : List TimerEntry) (cancelled : List TimerId)
    (now : Nat) : sweep ⟨entry :: rest, cancelled⟩ now =
      if entry.fireAt ≤ now then
        if entry.id ∈ cancelled then sweep ⟨rest, cancelled.erase entry.id⟩ now
        else (entry :: (sweep ⟨rest, cancelled⟩ now).1, (sweep ⟨rest, cancelled⟩ now).2)
      else ([], ⟨entry :: rest, cancelled⟩) := by
  unfold sweep
  by_cases hdue : entry.fireAt ≤ now
  · by_cases hc : entry.id ∈ cancelled <;> simp [hdue, hc, select]
  · simp [hdue, select]

/-- Marks are used up by the timers that are taken out. -/
theorem filter_erase {cancelled : List TimerId} (hn : cancelled.Nodup) (hdue : entry.fireAt ≤ now)
    (rest : List TimerEntry) :
    ((cancelled.erase entry.id).filter fun id => ∀ e ∈ rest, e.fireAt ≤ now → e.id ≠ id) =
      cancelled.filter fun id => ∀ e ∈ entry :: rest, e.fireAt ≤ now → e.id ≠ id := by
  rw [hn.erase_eq_filter, List.filter_filter]
  refine List.filter_congr fun id _ => Bool.eq_iff_iff.mpr ?_
  simp only [Bool.and_eq_true, decide_eq_true_eq, bne_iff_ne, List.forall_mem_cons]
  constructor
  · rintro ⟨hrest, hne⟩
    exact ⟨fun _ => hne.symm, hrest⟩
  · rintro ⟨hne, hrest⟩
    exact ⟨hrest, (hne hdue).symm⟩

/-- A sweep hands over the timers whose moment has come and that are not marked, and it leaves the later
timers, and the marks that it did not use up. -/
theorem sweep_eq (ho : Orderly s) (now : Nat) :
    s.sweep now = (s.pending.filter fun e => e.fireAt ≤ now ∧ e.id ∉ s.cancelled,
      ⟨s.pending.filter (now < ·.fireAt),
        s.cancelled.filter fun id => ∀ e ∈ s.pending, e.fireAt ≤ now → e.id ≠ id⟩) := by
  obtain ⟨ordered, distinct, -, nodup⟩ := ho
  obtain ⟨pending, cancelled⟩ := s
  induction pending generalizing cancelled with
  | nil => simp [sweep, select]
  | cons entry rest ih =>
    obtain ⟨hfirst, hrest⟩ := List.pairwise_cons.mp ordered
    obtain ⟨hnew, hdistinct⟩ := List.nodup_cons.mp distinct
    dsimp only at ordered nodup ih ⊢
    rw [sweep_cons]
    by_cases hdue : entry.fireAt ≤ now
    · have hgone : ¬now < entry.fireAt := Nat.not_lt.mpr hdue
      rw [if_pos hdue, ← filter_erase nodup hdue]
      split
      · next hc =>
        have hfired : (rest.filter fun e => e.fireAt ≤ now ∧ e.id ∉ cancelled.erase entry.id) =
            rest.filter fun e => e.fireAt ≤ now ∧ e.id ∉ cancelled := by
          refine List.filter_congr fun e he => ?_
          have hne : e.id ≠ entry.id := fun heq => hnew (List.mem_map.mpr ⟨e, he, heq⟩)
          simp [nodup.mem_erase_iff, hne]
        rw [ih _ hrest hdistinct (nodup.erase _), hfired]
        simp [hc, hgone]
      · next hc =>
        rw [ih _ hrest hdistinct nodup, List.erase_of_not_mem hc]
        simp [hc, hdue, hgone]
    · have hlate (e : TimerEntry) (he : e ∈ entry :: rest) : now < e.fireAt := by
        rcases List.mem_cons.mp he with rfl | he
        · omega
        · have hle := TimerEntry.fireAt_le_of_earlier (hfirst e he)
          omega
      rw [if_neg hdue, List.filter_eq_nil_iff.mpr fun e he => ?_,
        List.filter_eq_self.mpr fun e he => decide_eq_true (hlate e he),
        List.filter_eq_self.mpr fun id _ => decide_eq_true fun e he hnow => ?_]
      · exact absurd hnow (Nat.not_le.mpr (hlate e he))
      · simp [Nat.not_le.mpr (hlate e he)]

theorem mem_sweep_fst (ho : Orderly s) :
    e ∈ (s.sweep now).1 ↔ e ∈ s.pending ∧ e.fireAt ≤ now ∧ e.id ∉ s.cancelled := by
  rw [sweep_eq ho]
  simp

theorem mem_pending_sweep (ho : Orderly s) :
    e ∈ (s.sweep now).2.pending ↔ e ∈ s.pending ∧ now < e.fireAt := by
  rw [sweep_eq ho]
  simp

/-- The marks of timers that go on waiting are left. -/
theorem mem_cancelled_sweep (ho : Orderly s) (he : e ∈ (s.sweep now).2.pending) :
    e.id ∈ (s.sweep now).2.cancelled ↔ e.id ∈ s.cancelled := by
  obtain ⟨hwaits, hlater⟩ := (mem_pending_sweep ho).mp he
  rw [sweep_eq ho]
  simp only [List.mem_filter, decide_eq_true_eq, and_iff_left_iff_imp]
  intro hmarked e' he' hdue heq
  have hsame := List.inj_on_of_nodup_map ho.distinct he' hwaits heq
  rw [hsame] at hdue
  omega

theorem ordered_sweep (ho : Orderly s) (now : Nat) :
    (s.sweep now).1.Pairwise TimerEntry.Earlier := by
  rw [sweep_eq ho]
  exact ho.ordered.filter _

/-! ## 3. The invariant -/

theorem orderly_empty : Orderly empty where
  ordered := .nil
  distinct := List.nodup_nil
  marked _ hm := nomatch hm
  nodup := List.nodup_nil

theorem orderly_schedule (ho : Orderly s) (hnew : ∀ e ∈ s.pending, e.id ≠ entry.id) :
    Orderly (s.schedule entry) := by
  have hdistinct : ((place entry s.pending).map (·.id)).Nodup := by
    refine ((perm_place entry s.pending).map (·.id)).nodup_iff.mpr ?_
    refine List.nodup_cons.mpr ⟨?_, ho.distinct⟩
    intro hm
    obtain ⟨e, he, heq⟩ := List.mem_map.mp hm
    exact hnew e he heq
  have hsorted : Sorted (place entry s.pending) :=
    sorted_place (ho.ordered.imp TimerEntry.before_of_earlier)
  constructor
  case ordered => exact ordered_of_sorted hsorted hdistinct
  case distinct => exact hdistinct
  case marked =>
    intro id hm
    obtain ⟨e, he, heq⟩ := ho.marked id hm
    exact ⟨e, (perm_place entry s.pending).symm.subset (List.mem_cons_of_mem _ he), heq⟩
  case nodup => exact ho.nodup

theorem orderly_cancel (ho : Orderly s) (id : TimerId) : Orderly (s.cancel id) where
  ordered := (pending_cancel s id).symm ▸ ho.ordered
  distinct := (pending_cancel s id).symm ▸ ho.distinct
  marked i hm := by
    rw [pending_cancel]
    rcases mem_cancelled_cancel.mp hm with hm | ⟨rfl, hwaits⟩
    · exact ho.marked i hm
    · exact hwaits
  nodup := by
    unfold cancel
    split
    · next hc =>
      simp only [Bool.and_eq_true, Bool.not_eq_true', List.contains_eq_mem,
        decide_eq_false_iff_not] at hc
      exact List.nodup_cons.mpr ⟨hc.2, ho.nodup⟩
    · exact ho.nodup

theorem orderly_sweep (ho : Orderly s) (now : Nat) : Orderly (s.sweep now).2 where
  ordered := by
    rw [sweep_eq ho]
    exact ho.ordered.filter _
  distinct := by
    rw [sweep_eq ho]
    exact ho.distinct.sublist (List.filter_sublist.map _)
  marked id hm := by
    rw [sweep_eq ho] at hm ⊢
    simp only [List.mem_filter, decide_eq_true_eq] at hm ⊢
    obtain ⟨hmarked, hunused⟩ := hm
    obtain ⟨e, he, heq⟩ := ho.marked id hmarked
    exact ⟨e, ⟨he, Nat.lt_of_not_le fun hdue => hunused e he hdue heq⟩, heq⟩
  nodup := by
    rw [sweep_eq ho]
    exact ho.nodup.filter _

theorem after_snoc (calls : List Call) (call : Call) :
    after (calls ++ [call]) = (after calls).on call :=
  List.foldl_append

theorem scheduledIn_snoc (calls : List Call) (call : Call) :
    scheduledIn (calls ++ [call]) = scheduledIn calls ++ call.scheduled?.toList := by
  cases call <;> simp [scheduledIn, Call.scheduled?]

theorem waits_snoc :
    Waits e (calls ++ [call]) ↔ call = .schedule e ∨ Waits e calls ∧ ¬TakesOut e call :=
  since_concat

theorem withdrawn_snoc :
    Withdrawn e (calls ++ [call]) ↔
      (call = .cancel e.id ∧ Waits e calls) ∨ Withdrawn e calls ∧ ¬TakesOut e call :=
  sinceWhen_concat

@[simp] theorem takesOut_sweep : TakesOut e (.sweep now) ↔ e.fireAt ≤ now := by
  simp [TakesOut]

@[simp] theorem not_takesOut_schedule : ¬TakesOut e (.schedule entry) := by
  simp [TakesOut]

@[simp] theorem not_takesOut_cancel : ¬TakesOut e (.cancel id) := by
  simp [TakesOut]

theorem mem_scheduledIn_of_waits (hw : Waits e calls) : e ∈ scheduledIn calls := by
  obtain ⟨_, hmem, rfl⟩ := hw.exists_mem
  exact List.mem_filterMap.mpr ⟨.schedule e, hmem, rfl⟩

theorem mem_scheduledIn_of_withdrawn (hw : Withdrawn e calls) : e ∈ scheduledIn calls := by
  obtain ⟨past, x, later, rfl, ⟨-, hwaits⟩, -⟩ := hw
  have hpast := mem_scheduledIn_of_waits hwaits
  simp only [scheduledIn, List.filterMap_append, List.mem_append] at hpast ⊢
  exact .inl hpast

theorem Distinct.past (hd : Distinct (calls ++ [call])) : Distinct calls := by
  unfold Distinct at hd
  rw [scheduledIn_snoc, List.map_append] at hd
  exact hd.of_append_left

/-- A timer that is scheduled has a new id. -/
theorem Distinct.new (hd : Distinct (calls ++ [.schedule entry])) :
    ∀ e ∈ scheduledIn calls, e.id ≠ entry.id := by
  intro e he heq
  unfold Distinct at hd
  rw [scheduledIn_snoc, List.map_append] at hd
  exact List.disjoint_of_nodup_append hd (List.mem_map_of_mem he) (by simp [Call.scheduled?, heq])

theorem tracks_empty : Tracks [] empty where
  orderly := orderly_empty
  pending _ := iff_of_false List.not_mem_nil not_since_nil
  cancelled _ he := nomatch he

theorem tracks_schedule (ht : Tracks calls s) (hnew : ∀ e ∈ scheduledIn calls, e.id ≠ entry.id) :
    Tracks (calls ++ [.schedule entry]) (s.schedule entry) where
  orderly := by
    refine orderly_schedule ht.orderly ?_
    intro e he
    exact hnew e (mem_scheduledIn_of_waits ((ht.pending e).mp he))
  pending e := by
    rw [waits_snoc, ← ht.pending]
    refine (perm_place entry s.pending).mem_iff.trans ?_
    simp [eq_comm]
  cancelled e he := by
    rw [withdrawn_snoc]
    rcases List.mem_cons.mp ((perm_place entry s.pending).subset he) with rfl | he
    · refine iff_of_false ?_ ?_
      · intro hm
        obtain ⟨e', he', heq⟩ := ht.orderly.marked e.id hm
        exact hnew e' (mem_scheduledIn_of_waits ((ht.pending e').mp he')) heq
      · rintro (⟨hcall, -⟩ | ⟨hw, -⟩)
        · cases hcall
        · exact hnew e (mem_scheduledIn_of_withdrawn hw) rfl
    · rw [← ht.cancelled e he]
      simp [schedule]

theorem tracks_cancel (ht : Tracks calls s) (id : TimerId) :
    Tracks (calls ++ [.cancel id]) (s.cancel id) where
  orderly := orderly_cancel ht.orderly id
  pending e := by
    rw [pending_cancel, waits_snoc, ht.pending]
    simp
  cancelled e he := by
    rw [pending_cancel] at he
    rw [mem_cancelled_cancel, withdrawn_snoc, ht.cancelled e he, ← ht.pending]
    constructor
    · rintro (hw | ⟨rfl, -⟩)
      · exact .inr ⟨hw, not_takesOut_cancel⟩
      · exact .inl ⟨rfl, he⟩
    · rintro (⟨hcall, -⟩ | ⟨hw, -⟩)
      · cases hcall
        exact .inr ⟨rfl, e, he, rfl⟩
      · exact .inl hw

theorem tracks_sweep (ht : Tracks calls s) (now : Nat) :
    Tracks (calls ++ [.sweep now]) (s.sweep now).2 where
  orderly := orderly_sweep ht.orderly now
  pending e := by
    rw [mem_pending_sweep ht.orderly, waits_snoc, ht.pending]
    simp
  cancelled e he := by
    obtain ⟨hwaits, hlater⟩ := (mem_pending_sweep ht.orderly).mp he
    rw [mem_cancelled_sweep ht.orderly he, withdrawn_snoc, ht.cancelled e hwaits]
    simp [hlater]

theorem tracks_after (calls : List Call) (hd : Distinct calls) : Tracks calls (after calls) := by
  induction calls using List.reverseRecOn with
  | nil => exact tracks_empty
  | append_singleton calls call ih =>
    have ht := ih hd.past
    rw [after_snoc]
    cases call with
    | schedule entry => exact tracks_schedule ht hd.new
    | cancel id => exact tracks_cancel ht id
    | sweep now => exact tracks_sweep ht now

/-! ## 4. What is handed over -/

theorem handsOverAll_snoc (s : TimerService) (calls : List Call) (call : Call) :
    s.handsOverAll (calls ++ [call]) =
      s.handsOverAll calls ++ (calls.foldl on s).handsOver call := by
  induction calls generalizing s with
  | nil => simp [handsOverAll]
  | cons first later ih =>
    show s.handsOver first ++ (s.on first).handsOverAll (later ++ [call]) = _
    rw [ih, ← List.append_assoc]
    rfl

theorem handedOver_snoc (calls : List Call) (call : Call) :
    handedOver (calls ++ [call]) = handedOver calls ++ (after calls).handsOver call :=
  handsOverAll_snoc empty calls call

/-- What was handed over was scheduled, and does not wait any more. -/
theorem gone_of_handedOver (hd : Distinct calls) (he : e ∈ handedOver calls) :
    e ∈ scheduledIn calls ∧ ¬Waits e calls := by
  induction calls using List.reverseRecOn with
  | nil => cases he
  | append_singleton calls call ih =>
    rw [handedOver_snoc] at he
    rw [scheduledIn_snoc, waits_snoc]
    rcases List.mem_append.mp he with he | he
    · obtain ⟨hscheduled, hgone⟩ := ih hd.past he
      refine ⟨List.mem_append_left _ hscheduled, ?_⟩
      rintro (rfl | ⟨hw, -⟩)
      · exact hd.new e hscheduled rfl
      · exact hgone hw
    · cases call with
      | sweep now =>
        have ht := tracks_after calls hd.past
        obtain ⟨hwaits, hdue, -⟩ := (mem_sweep_fst ht.orderly).mp he
        refine ⟨List.mem_append_left _ (mem_scheduledIn_of_waits ((ht.pending e).mp hwaits)), ?_⟩
        simp [hdue]
      | schedule | cancel => cases he

theorem nodup_handedOver (hd : Distinct calls) : ((handedOver calls).map (·.id)).Nodup := by
  induction calls using List.reverseRecOn with
  | nil => exact List.nodup_nil
  | append_singleton calls call ih =>
    rw [handedOver_snoc, List.map_append]
    cases call with
    | sweep now =>
      have ht := tracks_after calls hd.past
      refine (ih hd.past).append ?_ ?_
      · show ((after calls).sweep now).1.map (·.id) |>.Nodup
        rw [sweep_eq ht.orderly]
        exact ht.orderly.distinct.sublist (List.filter_sublist.map _)
      · intro id hearlier hnow
        obtain ⟨e, he, rfl⟩ := List.mem_map.mp hearlier
        obtain ⟨e', he', heq⟩ := List.mem_map.mp hnow
        obtain ⟨hscheduled, hgone⟩ := gone_of_handedOver hd.past he
        have hwaits := (ht.pending e').mp ((mem_sweep_fst ht.orderly).mp he').1
        -- Ids are given once, so it would be the same timer, which does not wait any more.
        have hsame := List.inj_on_of_nodup_map hd.past (mem_scheduledIn_of_waits hwaits) hscheduled heq
        exact hgone (hsame ▸ hwaits)
    | schedule | cancel => simpa [handsOver] using ih hd.past

end

end TimerService

end ComputerHost
