import Mathlib.Data.List.Induction
import ComputerHost.TaskQueue

/-!
# The order of tasks

A queue of tasks grows while it is worked off, by the tasks that run and by whoever queues more in between.
Still the order is settled by a rule that mentions no queue: the tasks stand in the order in which they are
queued, and what the `n`-th one queues comes in when it has run, before what comes from outside at that
position (`order`). Without calls from outside this is the forest level by level (`levels`).

`Record` keeps what has been done, and at which position each task came from outside. `Runs` is the loop of a
drain, one task at a time.

Results:
1. `length_of_runs`: the nodes of a forest bound every loop.
2. `drain_eq_levels`: a drain goes level by level.
3. `keepsOrder_on`, `keepsOrder_after`: the invariant, along every history.
4. `tasks_run_breadth_first`: what has been done and what waits after a history.
-/

namespace ComputerHost

namespace Task

variable {α : Type}

mutual
/-- The work of a task and of all that comes of it. -/
def works : Task α → List α
  | .mk w ts => w :: worksOfAll ts

/-- The work of some tasks and of all that comes of them. -/
def worksOfAll : List (Task α) → List α
  | [] => []
  | t :: ts => t.works ++ worksOfAll ts
end

theorem worksOfAll_append (ts us : List (Task α)) :
    worksOfAll (ts ++ us) = worksOfAll ts ++ worksOfAll us := by
  induction ts with
  | nil => rfl
  | cons t ts ih => rw [List.cons_append, worksOfAll, worksOfAll, ih, List.append_assoc]

theorem works_eq (t : Task α) : t.works = t.work :: worksOfAll t.next := by
  cases t
  rw [works]
  rfl

mutual
theorem length_works : ∀ t : Task α, t.works.length = t.size
  | .mk w ts => by
    rw [works, size, List.length_cons, length_worksOfAll ts]
    omega

theorem length_worksOfAll : ∀ ts : List (Task α), (worksOfAll ts).length = sizes ts
  | [] => rfl
  | t :: ts => by
    rw [worksOfAll, sizes, List.length_append, length_works t, length_worksOfAll ts]
end

/-- What some tasks queue is smaller than the tasks. -/
theorem sizes_next_lt (t : Task α) (ts : List (Task α)) :
    sizes ((t :: ts).flatMap next) < sizes (t :: ts) := by
  have hle (us : List (Task α)) : sizes (us.flatMap next) + us.length = sizes us := by
    induction us with
    | nil => rfl
    | cons u us ih =>
      rw [List.flatMap_cons, sizes_append, List.length_cons, sizes, size_eq]
      omega
  have heq := hle (t :: ts)
  rw [List.length_cons] at heq
  omega

/-- The work of tasks, then that of the tasks that these queue, and so on. -/
def levels : List (Task α) → List α
  | [] => []
  | t :: ts => (t :: ts).map work ++ levels ((t :: ts).flatMap next)
termination_by ts => sizes ts
decreasing_by exact sizes_next_lt t ts

end Task

namespace TaskQueue

variable {α : Type}

/-- A call of a queue. -/
inductive Call (α : Type) where
  | queue (t : Task α)
  | runNext
  | runPending

/-- A queue and what has become of it so far. -/
structure Record (α : Type) where
  /-- What was done, in order. -/
  done : List α
  queue : TaskQueue α
  /-- What came from outside, and how many tasks had run then. -/
  given : List (Nat × Task α)

namespace Record

/-- An empty queue, before anything was done. -/
def start : Record α := ⟨[], empty, []⟩

/-- A queue after a call. -/
def on (s : Record α) : Call α → Record α
  | .queue t => { s with queue := s.queue.push t, given := s.given ++ [(s.done.length, t)] }
  | .runNext =>
    match s.queue.runNext? with
    | some (w, queue) => { s with done := s.done ++ [w], queue }
    | none => s
  | .runPending =>
    { s with done := s.done ++ s.queue.runPending.1, queue := s.queue.runPending.2 }

/-- A queue after several calls. -/
def after (calls : List (Call α)) : Record α := calls.foldl on start

theorem after_snoc (calls : List (Call α)) (call : Call α) :
    after (calls ++ [call]) = (after calls).on call :=
  List.foldl_append

/-- The tasks that came from outside when so many had run. -/
def givenAt (s : Record α) (n : Nat) : List (Task α) :=
  (s.given.filter (·.1 == n)).map (·.2)

end Record

/-- The tasks that are queued by the time that `n` have run, in order, if this comes from outside. -/
def order (given : Nat → List (Task α)) : Nat → List (Task α)
  | 0 => given 0
  | n + 1 => order given n ++ ((order given n)[n]?.elim [] Task.next ++ given (n + 1))

/-- All tasks that have been queued, in order. -/
def Record.queued (s : Record α) : List (Task α) := order s.givenAt s.done.length

/-- Tasks run one after the other. -/
inductive Runs : TaskQueue α → List α → TaskQueue α → Prop
  | refl (q : TaskQueue α) : Runs q [] q
  | step {q q₁ q₂ : TaskQueue α} {w : α} {ws : List α} :
      q.runNext? = some (w, q₁) → Runs q₁ ws q₂ → Runs q (w :: ws) q₂

/-- Running what waits in a queue comes to this, and no loop goes on for longer. -/
structure Drains (q : TaskQueue α) (ws : List α) (q' : TaskQueue α) : Prop where
  runs : Runs q ws q'
  isEmpty : q' = empty
  count : ws.length = (Task.worksOfAll q.waiting).length
  levels : ws = Task.levels q.waiting
  longest : ∀ vs q'', Runs q vs q'' → vs.length ≤ ws.length

/-- What was done and what waits is what was queued, in order, and all of it once. -/
structure KeepsOrder (s : Record α) : Prop where
  done : s.done = (s.queued.take s.done.length).map Task.work
  waiting : s.queue.waiting = s.queued.drop s.done.length
  /-- Nothing has come from outside at a later position. -/
  past : ∀ n, s.done.length < n → s.givenAt n = []
  /-- A task that has run was queued before. -/
  reached : ∀ n < s.done.length, n < (order s.givenAt n).length
  once : (s.done ++ Task.worksOfAll s.queue.waiting).Perm (Task.worksOfAll (s.given.map (·.2)))

open Record

section
variable {q q' : TaskQueue α} {ws : List α} {s s' : Record α} {given given' : Nat → List (Task α)}
  {m n : Nat} {t : Task α} {rest : List (Task α)}

/-! ## 1. Loops -/

theorem runNext?_cons (t : Task α) (rest : List (Task α)) :
    runNext? ⟨t :: rest⟩ = some (t.work, ⟨rest ++ t.next⟩) := rfl

theorem runNext?_eq_some {w : α} (hr : q.runNext? = some (w, q')) :
    ∃ t rest, q = ⟨t :: rest⟩ ∧ w = t.work ∧ q' = ⟨rest ++ t.next⟩ := by
  obtain ⟨_ | ⟨t, rest⟩⟩ := q
  · cases hr
  · cases hr
    exact ⟨t, rest, rfl, rfl, rfl⟩

/-- Every round of a loop takes one node away. -/
theorem length_of_runs (hr : Runs q ws q') :
    ws.length + Task.sizes q'.waiting = Task.sizes q.waiting := by
  induction hr with
  | refl => exact Nat.zero_add _
  | step hnext _ ih =>
    obtain ⟨t, rest, rfl, -, rfl⟩ := runNext?_eq_some hnext
    rw [Task.sizes_append] at ih
    rw [List.length_cons, Task.sizes, Task.size_eq]
    omega

/-! ## 2. Drains -/

theorem drain_cons (t : Task α) (rest : List (Task α)) :
    drain (t :: rest) = t.work :: drain (rest ++ t.next) := by
  rw [drain]

/-- A drain is a loop that ends with an empty queue. -/
theorem runs_drain (ts : List (Task α)) : Runs ⟨ts⟩ (drain ts) empty := by
  induction ts using drain.induct with
  | case1 =>
    rw [drain]
    exact .refl _
  | case2 t rest ih =>
    rw [drain_cons]
    exact .step (runNext?_cons t rest) ih

theorem drain_append (ts us : List (Task α)) :
    drain (ts ++ us) = ts.map Task.work ++ drain (us ++ ts.flatMap Task.next) := by
  induction ts generalizing us with
  | nil => simp
  | cons t ts ih =>
    rw [List.cons_append, drain_cons, List.append_assoc, ih]
    simp

theorem drain_eq_levels (ts : List (Task α)) : drain ts = Task.levels ts := by
  induction ts using Task.levels.induct with
  | case1 => rw [drain, Task.levels]
  | case2 t ts ih =>
    have hall := drain_append (t :: ts) []
    rw [List.append_nil, List.nil_append] at hall
    rw [hall, ih, Task.levels]

theorem drains_runPending (q : TaskQueue α) : Drains q q.runPending.1 q.runPending.2 := by
  have hcount : q.runPending.1.length = Task.sizes q.waiting := length_of_runs (runs_drain q.waiting)
  refine ⟨runs_drain q.waiting, rfl, ?_, drain_eq_levels q.waiting, ?_⟩
  · rw [hcount, Task.length_worksOfAll]
  · intro vs q'' hr
    have hloop := length_of_runs hr
    omega

/-! ## 3. Orders -/

theorem order_congr (hg : ∀ k ≤ n, given k = given' k) : order given n = order given' n := by
  induction n with
  | zero => exact hg 0 (Nat.le_refl 0)
  | succ n ih =>
    rw [order, order, ih fun k hk => hg k (Nat.le_succ_of_le hk), hg (n + 1) (Nat.le_refl _)]

theorem order_prefix (hmn : m ≤ n) : order given m <+: order given n := by
  induction hmn with
  | refl => exact List.prefix_rfl
  | step _ ih => exact ih.trans (List.prefix_append ..)

/-- One more task from outside is the last one. -/
theorem order_snoc (hpast : ∀ k < n, given' k = given k) (hlast : given' n = given n ++ [t]) :
    order given' n = order given n ++ [t] := by
  cases n with
  | zero => exact hlast
  | succ n =>
    rw [order, order, hlast, order_congr fun k hk => hpast k (Nat.lt_succ_of_le hk)]
    simp only [List.append_assoc]

theorem order_succ (ht : (order given n)[n]? = some t) (hnone : given (n + 1) = []) :
    order given (n + 1) = order given n ++ t.next := by
  rw [order, ht, hnone, List.append_nil]
  rfl

theorem givenAt_snoc (s : Record α) (t : Task α) (n : Nat) :
    (s.on (.queue t)).givenAt n =
      s.givenAt n ++ if s.done.length = n then [t] else [] := by
  unfold on givenAt
  rw [List.filter_append, List.map_append]
  by_cases hn : s.done.length = n <;> simp [hn]

/-- What has been queued by a position decides what is done up to there. -/
theorem KeepsOrder.take_done (hs : KeepsOrder s) (hn : n < s.done.length) :
    s.done.take (n + 1) = ((order s.givenAt n).take (n + 1)).map Task.work := by
  obtain ⟨later, hprefix⟩ : order s.givenAt n <+: s.queued := order_prefix (Nat.le_of_lt hn)
  have hqueued : s.queued.take (n + 1) = (order s.givenAt n).take (n + 1) := by
    rw [← hprefix, List.take_append_of_le_length (hs.reached n hn)]
  rw [hs.done, ← List.map_take, List.take_take, Nat.min_eq_left hn, hqueued]

theorem KeepsOrder.length_queued (hs : KeepsOrder s) :
    s.done.length + s.queue.size = s.queued.length := by
  have hdone := congrArg List.length hs.done
  have hwaiting := congrArg List.length hs.waiting
  rw [List.length_map, List.length_take] at hdone
  rw [List.length_drop] at hwaiting
  unfold size
  omega

theorem keepsOrder_start : KeepsOrder (start : Record α) where
  done := rfl
  waiting := rfl
  past _ _ := rfl
  reached n hn := absurd hn (Nat.not_lt_zero n)
  once := .refl _

theorem keepsOrder_queue (hs : KeepsOrder s) (t : Task α) : KeepsOrder (s.on (.queue t)) := by
  have hbefore (k : Nat) (hk : k < s.done.length) : (s.on (.queue t)).givenAt k = s.givenAt k := by
    rw [givenAt_snoc, if_neg (Nat.ne_of_gt hk), List.append_nil]
  have hqueued : (s.on (.queue t)).queued = s.queued ++ [t] := by
    refine order_snoc (n := s.done.length) hbefore ?_
    rw [givenAt_snoc, if_pos rfl]
  have hlength : s.done.length ≤ s.queued.length := hs.length_queued ▸ Nat.le_add_right ..
  constructor
  · rw [hqueued]
    show s.done = ((s.queued ++ [t]).take s.done.length).map Task.work
    rw [List.take_append_of_le_length hlength]
    exact hs.done
  · rw [hqueued]
    show s.queue.waiting ++ [t] = (s.queued ++ [t]).drop s.done.length
    rw [List.drop_append_of_le_length hlength, hs.waiting]
  · intro n (hn : s.done.length < n)
    rw [givenAt_snoc, if_neg (Nat.ne_of_lt hn), hs.past n hn, List.append_nil]
  · intro n hn
    rw [order_congr fun k hk => hbefore k (Nat.lt_of_le_of_lt hk hn)]
    exact hs.reached n hn
  · show (s.done ++ Task.worksOfAll (s.queue.waiting ++ [t])).Perm
      (Task.worksOfAll ((s.given ++ [(s.done.length, t)]).map (·.2)))
    rw [List.map_append, Task.worksOfAll_append, Task.worksOfAll_append, ← List.append_assoc]
    exact hs.once.append_right _

/-- The first task that waits runs. -/
theorem keepsOrder_run (hs : KeepsOrder s) (hw : s.queue.waiting = t :: rest) :
    KeepsOrder { s with done := s.done ++ [t.work], queue := ⟨rest ++ t.next⟩ } := by
  have hdrop : s.queued.drop s.done.length = t :: rest := hs.waiting.symm.trans hw
  have ht : s.queued[s.done.length]? = some t := by
    rw [← List.head?_drop, hdrop]
    rfl
  have hlt : s.done.length < s.queued.length := (List.getElem?_eq_some_iff.mp ht).1
  have hqueued : order s.givenAt (s.done.length + 1) = s.queued ++ t.next :=
    order_succ ht (hs.past _ (Nat.lt_succ_self _))
  have hlength : (s.done ++ [t.work]).length = s.done.length + 1 := List.length_append
  have hthis : queued { s with done := s.done ++ [t.work], queue := ⟨rest ++ t.next⟩ } =
      s.queued ++ t.next := by
    rw [← hqueued, ← hlength]
    rfl
  constructor
  · rw [hthis]
    show s.done ++ [t.work] = ((s.queued ++ t.next).take (s.done ++ [t.work]).length).map Task.work
    rw [hlength, List.take_append_of_le_length hlt, List.take_add_one, ht, List.map_append, ← hs.done]
    rfl
  · rw [hthis]
    show rest ++ t.next = (s.queued ++ t.next).drop (s.done ++ [t.work]).length
    rw [hlength, List.drop_append_of_le_length hlt, ← List.tail_drop, hdrop]
    rfl
  · intro n (hn : (s.done ++ [t.work]).length < n)
    rw [hlength] at hn
    exact hs.past n (Nat.lt_of_succ_lt hn)
  · intro n (hn : n < (s.done ++ [t.work]).length)
    rw [hlength] at hn
    rcases Nat.lt_succ_iff_lt_or_eq.mp hn with hn | rfl
    · exact hs.reached n hn
    · exact hlt
  · refine .trans ?_ hs.once
    show ((s.done ++ [t.work]) ++ Task.worksOfAll (rest ++ t.next)).Perm _
    rw [hw, Task.worksOfAll, Task.works_eq, Task.worksOfAll_append, List.append_assoc, List.singleton_append,
      List.cons_append]
    exact List.Perm.append_left s.done (List.perm_append_comm.cons t.work)

theorem keepsOrder_drain (ts : List (Task α)) (hs : KeepsOrder s) (hw : s.queue.waiting = ts) :
    KeepsOrder { s with done := s.done ++ drain ts, queue := empty } := by
  induction ts using drain.induct generalizing s with
  | case1 =>
    have hempty : s.queue = empty := congrArg TaskQueue.mk hw
    rw [drain, List.append_nil, ← hempty]
    exact hs
  | case2 t rest ih =>
    have hrest := ih (keepsOrder_run hs hw) rfl
    rw [drain_cons, List.append_cons]
    exact hrest

theorem keepsOrder_on (hs : KeepsOrder s) (call : Call α) : KeepsOrder (s.on call) := by
  cases call with
  | queue t => exact keepsOrder_queue hs t
  | runNext =>
    show KeepsOrder (match s.queue.runNext? with
      | some (w, queue) => { s with done := s.done ++ [w], queue }
      | none => s)
    split
    · next w queue hnext =>
      obtain ⟨t, rest, hq, rfl, rfl⟩ := runNext?_eq_some hnext
      exact keepsOrder_run hs (congrArg TaskQueue.waiting hq)
    · exact hs
  | runPending => exact keepsOrder_drain s.queue.waiting hs rfl

theorem keepsOrder_after (calls : List (Call α)) : KeepsOrder (after calls) := by
  induction calls using List.reverseRecOn with
  | nil => exact keepsOrder_start
  | append_singleton calls call ih =>
    rw [after_snoc]
    exact keepsOrder_on ih call

/-! ## 4. Every history -/

/-- After every history of calls: the tasks that have run are the first of those that were queued, and the
others wait, so that none is skipped and none runs twice. A drain ends, empties the queue and runs every
node of what waits, level by level. And it does not matter by which calls tasks are run: two histories in
which the same tasks come from outside at the same positions do the same as far as both have come. -/
theorem tasks_run_breadth_first (calls others : List (Call α)) :
    (after calls).done =
      ((after calls).queued.take (after calls).done.length).map Task.work ∧
    (after calls).queue.waiting = (after calls).queued.drop (after calls).done.length ∧
    (after calls).done.length + (after calls).queue.size = (after calls).queued.length ∧
    ((after calls).done ++ Task.worksOfAll (after calls).queue.waiting).Perm
      (Task.worksOfAll ((after calls).given.map (·.2))) ∧
    Drains (after calls).queue (after calls).queue.runPending.1 (after calls).queue.runPending.2 ∧
    (∀ n ≤ (after calls).done.length, n ≤ (after others).done.length →
      (∀ k < n, (after calls).givenAt k = (after others).givenAt k) →
      (after calls).done.take n = (after others).done.take n) ∧
    ((after calls).done.length = (after others).done.length →
      (∀ k, (after calls).givenAt k = (after others).givenAt k) →
      (after calls).done = (after others).done ∧ (after calls).queue = (after others).queue) := by
  have hs := keepsOrder_after calls
  have hs' := keepsOrder_after others
  refine ⟨hs.done, hs.waiting, hs.length_queued, hs.once, drains_runPending _, ?_, ?_⟩
  · intro n hn hn' hgiven
    cases n with
    | zero => rfl
    | succ n =>
      rw [hs.take_done hn, hs'.take_done hn', order_congr fun k hk => hgiven k (Nat.lt_succ_of_le hk)]
  · intro hlength hgiven
    have hqueued : (after calls).queued = (after others).queued := by
      unfold queued
      rw [hlength, order_congr fun k _ => hgiven k]
    constructor
    · rw [hs.done, hs'.done, hlength, hqueued]
    · refine congrArg TaskQueue.mk ?_
      rw [hs.waiting, hs'.waiting, hlength, hqueued]

end

/-- A task that queues two others, and one more from outside when it has run; `how` is the rest. -/
def interrupted (how : List (Call String)) : List (Call String) :=
  [.queue (.mk "a" [.mk "b" [.leaf "e"], .leaf "c"]), .runNext, .queue (.leaf "d")] ++ how

/-- Run one by one or all at once, what comes from outside in between runs before the second level. -/
theorem tasks_run_breadth_first_interrupted :
    (∀ k, (after (interrupted [.runPending])).givenAt k =
      (after (interrupted (List.replicate 4 .runNext))).givenAt k) ∧
    (after (interrupted [.runPending])).done.take 3 = ["a", "b", "c"] ∧
    (after (interrupted [.runPending])).done = ["a", "b", "c", "d", "e"] ∧
    (after (interrupted [.runPending])).queue = empty := by
  have hlength : (after (interrupted [.runPending])).done.length = 5 := by
    have hdrain := (tasks_run_breadth_first (interrupted []) []).2.2.2.2.1
    show ((after (interrupted [])).done ++
      (after (interrupted [])).queue.runPending.1).length = 5
    rw [List.length_append, hdrain.count]
    rfl
  obtain ⟨-, -, -, -, -, hfirst, hall⟩ := tasks_run_breadth_first (interrupted [.runPending])
    (interrupted (List.replicate 4 .runNext))
  obtain ⟨hdone, hqueue⟩ := hall hlength fun k => rfl
  exact ⟨fun k => rfl, hfirst 3 (hlength ▸ by decide) (by decide) fun k _ => rfl, hdone, hqueue⟩

end TaskQueue

end ComputerHost
