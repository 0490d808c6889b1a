import Mathlib.Data.List.Induction
import Mathlib.Order.Bounds.Basic
import ComputerHost.Breakpoint
import ComputerHost.Proofs.Since

/-!
# Breakpoints over a history

A table of breakpoints and the hooks of one interpreter, from the empty table on and after any calls in any
order. Ids are given out again from the top, the table remembers beside its entries whether the hook is
wanted, and the hooks are only told of changes; so what holds of table and hooks is said of the whole
history. `Stands` says that a breakpoint was set and not cleared since, `Raised` that the check of the
deadline was asked for and not taken since, and `Tracks` is the invariant.

Results:
1. `lt_nextId`, `mem_entries_clear`: one call.
2. `tracks_on`, `tracks_after`: the invariant, along every history.
3. `find?_eq_some_iff`: the first breakpoint at a place.
4. `table_follows_history`: what the table and the hooks are after a history.
-/

namespace ComputerHost.BreakpointTable

/-- A call that changes a table. -/
inductive Call where
  | set (path : String) (line : Int)
  | clear (id : Nat)
  | takeForceCheck
deriving DecidableEq, Repr

/-- A table and the hooks of the interpreter that carries out its requests. -/
structure Debugging where
  table : BreakpointTable
  hooks : HookSet
deriving DecidableEq, Repr

namespace Debugging

/-- No breakpoints and no hooks. -/
def start : Debugging := ⟨empty, HookSet.empty⟩

/-- Table and hooks after a call. -/
def on (d : Debugging) : Call → Debugging
  | .set path line =>
    let (_, table, changes) := d.table.set path line
    ⟨table, d.hooks.applyAll changes⟩
  | .clear id =>
    let (_, table, changes) := d.table.clear id
    ⟨table, d.hooks.applyAll changes⟩
  | .takeForceCheck => { d with table := d.table.takeForceCheck.2 }

/-- Table and hooks after several calls. -/
def after (calls : List Call) : Debugging := calls.foldl on start

theorem after_snoc (calls : List Call) (call : Call) :
    after (calls ++ [call]) = (after calls).on call :=
  List.foldl_append

end Debugging

open Debugging

/-- A breakpoint was set and given the id, and the id was not cleared since. -/
def Stands (id : Nat) (path : String) (line : Int) : List Call → Prop :=
  SinceWhen (fun past call => call = .set path line ∧ ((after past).table.set path line).1 = id)
    (· = .clear id)

/-- A breakpoint was set in an empty table, and the check of the deadline was not taken since. -/
def Raised : List Call → Prop :=
  SinceWhen (fun past call => (∃ path line, call = .set path line) ∧ (after past).table.isEmpty = true)
    (· = .takeForceCheck)

/-- A breakpoint with this id stands. -/
def InUse (id : Nat) (calls : List Call) : Prop := ∃ path line, Stands id path line calls

/-- What a history says about the table and the hooks that it has led to. -/
structure Tracks (calls : List Call) (d : Debugging) : Prop where
  ordered : d.table.entries.Pairwise (·.1 < ·.1)
  entries : ∀ id b, (id, b) ∈ d.table.entries ↔
    ∃ path, Stands id path b.line calls ∧ b.source = SourcePath.canonicalName path
  armed : d.table.armed = !d.table.isEmpty
  hooks : ∀ target, d.hooks.get target = if d.table.isEmpty then none else some Hook.breakpoints
  raised : d.table.forceCheck = true ↔ Raised calls

/-! ## 1. One call -/

section
variable {t : BreakpointTable} {id : Nat} {b : Breakpoint} {path : String} {line : Int}
  {calls : List Call} {d : Debugging}

theorem isEmpty_iff (t : BreakpointTable) : t.isEmpty = true ↔ t.entries = [] :=
  List.isEmpty_iff

/-- The last id is the largest one. -/
theorem le_of_getLast? {last : Nat × Breakpoint} (ho : t.entries.Pairwise (·.1 < ·.1))
    (hl : t.entries.getLast? = some last) (hm : (id, b) ∈ t.entries) : id ≤ last.1 := by
  obtain ⟨before, heq⟩ := List.getLast?_eq_some_iff.mp hl
  rw [heq] at ho hm
  rcases List.mem_append.mp hm with hm | hm
  · exact Nat.le_of_lt ((List.pairwise_append.mp ho).2.2 _ hm last List.mem_cons_self)
  · exact Nat.le_of_eq (congrArg Prod.fst (List.mem_singleton.mp hm))

theorem nextId_of_getLast? {last : Nat × Breakpoint} (hl : t.entries.getLast? = some last) :
    t.nextId = last.1 + 1 := by
  unfold nextId
  rw [hl]

theorem nextId_of_nil (he : t.entries = []) : t.nextId = 1 := by
  unfold nextId
  rw [he]
  rfl

theorem nextId_of_isGreatest {largest : Nat} (ho : t.entries.Pairwise (·.1 < ·.1))
    (hg : IsGreatest {i | ∃ b, (i, b) ∈ t.entries} largest) : t.nextId = largest + 1 := by
  obtain ⟨⟨b, hm⟩, hupper⟩ := hg
  cases hl : t.entries.getLast? with
  | none =>
    rw [List.getLast?_eq_none_iff.mp hl] at hm
    cases hm
  | some last =>
    rw [nextId_of_getLast? hl]
    have hle := le_of_getLast? ho hl hm
    have hge : last.1 ≤ largest := hupper ⟨last.2, List.mem_of_getLast? hl⟩
    omega

/-- Ids stay small as long as those in the table are. -/
theorem nextId_lt {bound : Nat} (hb : 1 < bound) (hsmall : ∀ i b, (i, b) ∈ t.entries → i < bound - 1) :
    t.nextId < bound := by
  cases hl : t.entries.getLast? with
  | none => rwa [nextId_of_nil (List.getLast?_eq_none_iff.mp hl)]
  | some last =>
    rw [nextId_of_getLast? hl]
    have hlt := hsmall last.1 last.2 (List.mem_of_getLast? hl)
    omega

/-- A new id is greater than every id in the table. -/
theorem lt_nextId (ho : t.entries.Pairwise (·.1 < ·.1)) (hm : (id, b) ∈ t.entries) :
    id < t.nextId := by
  cases hl : t.entries.getLast? with
  | none =>
    rw [List.getLast?_eq_none_iff.mp hl] at hm
    cases hm
  | some last =>
    rw [nextId_of_getLast? hl]
    exact Nat.lt_succ_of_le (le_of_getLast? ho hl hm)

theorem mem_entries_set {id' : Nat} :
    (id', b) ∈ (t.set path line).2.1.entries ↔
      (id', b) ∈ t.entries ∨ id' = t.nextId ∧ b = ⟨SourcePath.canonicalName path, line⟩ := by
  simp [set]

theorem mem_entries_clear {id' : Nat} :
    (id', b) ∈ (t.clear id).2.1.entries ↔ (id', b) ∈ t.entries ∧ id' ≠ id := by
  unfold clear
  dsimp only
  split
  · split <;> simp
  · next hno =>
    simp only [List.any_eq_true, beq_iff_eq, not_exists, not_and] at hno
    exact ⟨fun hm => ⟨hm, hno _ hm⟩, And.left⟩

theorem ordered_clear (ho : t.entries.Pairwise (·.1 < ·.1)) (id : Nat) :
    (t.clear id).2.1.entries.Pairwise (·.1 < ·.1) := by
  unfold clear
  dsimp only
  split
  · split <;> exact ho.filter _
  · exact ho

/-- Clearing an id that is not in the table does nothing and asks for nothing. -/
theorem clear_of_not_mem (hno : ∀ b, (id, b) ∉ t.entries) : t.clear id = (false, t, []) := by
  refine if_neg ?_
  simp only [List.any_eq_true, beq_iff_eq, not_exists, not_and]
  rintro ⟨i, b⟩ hm rfl
  exact hno b hm

theorem clear_fst : (t.clear id).1 = true ↔ ∃ b, (id, b) ∈ t.entries := by
  unfold clear
  dsimp only
  split
  · next hyes =>
    obtain ⟨⟨i, b⟩, hm, heq⟩ := List.any_eq_true.mp hyes
    obtain rfl := beq_iff_eq.mp heq
    split <;> exact iff_of_true rfl ⟨b, hm⟩
  · next hno =>
    refine iff_of_false Bool.false_ne_true ?_
    rintro ⟨b, hm⟩
    exact hno (List.any_eq_true.mpr ⟨(id, b), hm, beq_self_eq_true id⟩)

/-- What clearing does to the flag and to the hooks: nothing as long as something is left. -/
theorem armed_clear (ha : t.armed = !t.isEmpty) (id : Nat) :
    (t.clear id).2.1.armed = !(t.clear id).2.1.isEmpty := by
  unfold clear
  dsimp only
  split
  · next hyes =>
    split
    · next hleft => simp [isEmpty, hleft]
    · next hleft =>
      obtain ⟨entry, hm, -⟩ := List.any_eq_true.mp hyes
      have hsome : t.isEmpty = false := List.isEmpty_eq_false_iff.mpr (List.ne_nil_of_mem hm)
      rw [ha, hsome]
      simp [isEmpty, hleft]
  · exact ha

theorem hooks_clear {s : HookSet}
    (hs : ∀ target, s.get target = if t.isEmpty then none else some Hook.breakpoints) (id : Nat)
    (target : HookTarget) : (s.applyAll (t.clear id).2.2).get target =
      if (t.clear id).2.1.isEmpty then none else some Hook.breakpoints := by
  unfold clear
  dsimp only
  split
  · next hyes =>
    obtain ⟨entry, hm, -⟩ := List.any_eq_true.mp hyes
    have hsome : t.isEmpty = false := List.isEmpty_eq_false_iff.mpr (List.ne_nil_of_mem hm)
    split
    · next hleft => cases target <;> simp [isEmpty, hleft, HookSet.applyAll, onBoth]
    · next hleft =>
      have hkept := hs target
      rw [hsome] at hkept
      simpa [isEmpty, hleft, HookSet.applyAll] using hkept
  · exact hs target

theorem forceCheck_clear (t : BreakpointTable) (id : Nat) :
    (t.clear id).2.1.forceCheck = t.forceCheck := by
  unfold clear
  dsimp only
  split
  · split <;> rfl
  · rfl

/-! ## 2. The invariant -/

theorem stands_snoc {call : Call} :
    Stands id path line (calls ++ [call]) ↔
      (call = .set path line ∧ ((after calls).table.set path line).1 = id) ∨
        Stands id path line calls ∧ call ≠ .clear id :=
  sinceWhen_concat

theorem raised_snoc {call : Call} :
    Raised (calls ++ [call]) ↔
      ((∃ path line, call = .set path line) ∧ (after calls).table.isEmpty = true) ∨
        Raised calls ∧ call ≠ .takeForceCheck :=
  sinceWhen_concat

theorem tracks_start : Tracks [] start where
  ordered := List.Pairwise.nil
  entries id b := iff_of_false List.not_mem_nil fun ⟨_, hs, _⟩ => not_sinceWhen_nil hs
  armed := rfl
  hooks target := by cases target <;> rfl
  raised := iff_of_false Bool.false_ne_true not_sinceWhen_nil

theorem tracks_set (ht : Tracks calls (after calls)) (path : String) (line : Int) :
    Tracks (calls ++ [.set path line]) ((after calls).on (.set path line)) where
  ordered := by
    refine List.pairwise_append.mpr ⟨ht.ordered, List.pairwise_singleton .., ?_⟩
    rintro ⟨id, b⟩ hm new hnew
    rw [List.mem_singleton.mp hnew]
    exact lt_nextId ht.ordered hm
  entries id b := by
    refine mem_entries_set.trans ?_
    rw [ht.entries]
    constructor
    · rintro (⟨path', hs, heq⟩ | ⟨rfl, rfl⟩)
      · exact ⟨path', stands_snoc.mpr (.inr ⟨hs, nofun⟩), heq⟩
      · exact ⟨path, stands_snoc.mpr (.inl ⟨rfl, rfl⟩), rfl⟩
    · rintro ⟨path', hs, heq⟩
      rcases stands_snoc.mp hs with ⟨hcall, hid⟩ | ⟨hs, -⟩
      · obtain ⟨rfl, rfl⟩ := Call.set.inj hcall
        exact .inr ⟨hid.symm, by rw [← heq]⟩
      · exact .inl ⟨path', hs, heq⟩
  armed := by simp [on, set, isEmpty]
  hooks target := by cases target <;> simp [on, set, isEmpty, HookSet.applyAll, onBoth]
  raised := by
    rw [raised_snoc, ← ht.raised]
    simp [on, set, ht.armed, or_comm]

theorem tracks_clear (ht : Tracks calls (after calls)) (id : Nat) :
    Tracks (calls ++ [.clear id]) ((after calls).on (.clear id)) where
  ordered := ordered_clear ht.ordered id
  entries id' b := by
    refine mem_entries_clear.trans ?_
    rw [ht.entries]
    constructor
    · rintro ⟨⟨path, hs, heq⟩, hne⟩
      refine ⟨path, stands_snoc.mpr (.inr ⟨hs, ?_⟩), heq⟩
      intro hcall
      exact hne (Call.clear.inj hcall).symm
    · rintro ⟨path, hs, heq⟩
      rcases stands_snoc.mp hs with ⟨hcall, -⟩ | ⟨hs, hne⟩
      · cases hcall
      · refine ⟨⟨path, hs, heq⟩, ?_⟩
        rintro rfl
        exact hne rfl
  armed := armed_clear ht.armed id
  hooks := hooks_clear ht.hooks id
  raised := by
    rw [raised_snoc, ← ht.raised]
    simp [on, forceCheck_clear]

theorem tracks_takeForceCheck (ht : Tracks calls (after calls)) :
    Tracks (calls ++ [.takeForceCheck]) ((after calls).on .takeForceCheck) where
  ordered := ht.ordered
  entries id b := by
    refine (ht.entries id b).trans (exists_congr fun path => and_congr_left' ?_)
    rw [stands_snoc]
    simp
  armed := ht.armed
  hooks := ht.hooks
  raised := by
    rw [raised_snoc]
    simp [on, takeForceCheck]

theorem tracks_on (ht : Tracks calls (after calls)) (call : Call) :
    Tracks (calls ++ [call]) ((after calls).on call) := by
  cases call with
  | set path line => exact tracks_set ht path line
  | clear id => exact tracks_clear ht id
  | takeForceCheck => exact tracks_takeForceCheck ht

theorem tracks_after (calls : List Call) : Tracks calls (after calls) := by
  induction calls using List.reverseRecOn with
  | nil => exact tracks_start
  | append_singleton calls call ih =>
    rw [after_snoc]
    exact tracks_on ih call

/-- The ids that stand are those in the table. -/
theorem Tracks.inUse_iff (ht : Tracks calls d) :
    InUse id calls ↔ ∃ b, (id, b) ∈ d.table.entries := by
  constructor
  · rintro ⟨path, line, hs⟩
    exact ⟨⟨SourcePath.canonicalName path, line⟩, (ht.entries ..).mpr ⟨path, hs, rfl⟩⟩
  · rintro ⟨b, hm⟩
    obtain ⟨path, hs, -⟩ := (ht.entries id b).mp hm
    exact ⟨path, b.line, hs⟩

/-- The breakpoints at a place are those that were set for a path of the same canonical name. -/
theorem Tracks.mem_at_iff (ht : Tracks calls d) :
    (id, ⟨SourcePath.canonicalName path, line⟩) ∈ d.table.entries ↔
      ∃ path', Stands id path' line calls ∧
        SourcePath.canonicalName path' = SourcePath.canonicalName path := by
  rw [ht.entries]
  exact exists_congr fun path' => and_congr_right' eq_comm

/-! ## 3. The first breakpoint at a place -/

/-- In a table in order, the first entry at a place has the smallest id. -/
theorem isLeast_of_find? {source : String} (ho : t.entries.Pairwise (·.1 < ·.1))
    (hf : t.find? source line = some id) : IsLeast {i | (i, ⟨source, line⟩) ∈ t.entries} id := by
  obtain ⟨⟨i, b⟩, hfound, rfl⟩ := Option.map_eq_some_iff.mp hf
  obtain ⟨hb, before, later, heq, hbefore⟩ := List.find?_eq_some_iff_append.mp hfound
  simp only [Bool.and_eq_true, beq_iff_eq] at hb
  obtain ⟨rfl, rfl⟩ := hb
  rw [heq] at ho ⊢
  refine ⟨List.mem_append_right _ List.mem_cons_self, ?_⟩
  intro j hj
  rcases List.mem_append.mp hj with hj | hj
  · exact absurd (hbefore _ hj) (by simp)
  · rcases List.mem_cons.mp hj with hj | hj
    · exact Nat.le_of_eq (congrArg Prod.fst hj).symm
    · exact Nat.le_of_lt ((List.pairwise_cons.mp (List.pairwise_append.mp ho).2.1).1 _ hj)

theorem find?_eq_none_iff {source : String} :
    t.find? source line = none ↔ ∀ i, (i, ⟨source, line⟩) ∉ t.entries := by
  unfold find?
  rw [Option.map_eq_none_iff, List.find?_eq_none]
  constructor
  · intro hno i hm
    exact hno _ hm (by simp)
  · rintro hno ⟨i, b⟩ hm hb
    simp only [Bool.and_eq_true, beq_iff_eq] at hb
    obtain ⟨rfl, rfl⟩ := hb
    exact hno i hm

theorem find?_eq_some_iff {source : String} (ho : t.entries.Pairwise (·.1 < ·.1)) :
    t.find? source line = some id ↔ IsLeast {i | (i, ⟨source, line⟩) ∈ t.entries} id := by
  refine ⟨isLeast_of_find? ho, ?_⟩
  intro hleast
  cases hf : t.find? source line with
  | none => exact absurd hleast.1 (find?_eq_none_iff.mp hf id)
  | some i => rw [(isLeast_of_find? ho hf).unique hleast]

/-! ## 4. Histories -/

/-- A table and the hooks of its interpreter, after any calls. A new breakpoint gets the id after the
largest one in use, or 1, which is a 32-bit number if those in use leave room for it, and the other
breakpoints stay. The entries are in the order of their ids, and they are the breakpoints that were set
and not cleared since. The hook is wanted, and is installed on both targets, just if there are any.
Clearing an id that is not in use has no effect and asks for nothing. The check of the deadline is to be
made if some breakpoint was set in an empty table since it was taken. What is found at a place is the
smallest id that was given there, by whatever spelling of the path. -/
theorem table_follows_history (calls : List Call) :
    (∀ path line, let id := ((after calls).table.set path line).1
      (∀ largest, IsGreatest {i | InUse i calls} largest → id = largest + 1) ∧
      ((∀ i, ¬InUse i calls) → id = 1) ∧
      (∀ i, InUse i calls → i < id) ∧
      ((∀ i, InUse i calls → i < UInt32.size - 1) → id < UInt32.size) ∧
      ∀ i b, i ≠ id → ((i, b) ∈ (after (calls ++ [.set path line])).table.entries ↔
        (i, b) ∈ (after calls).table.entries)) ∧
    (after calls).table.entries.Pairwise (·.1 < ·.1) ∧
    (∀ id b, (id, b) ∈ (after calls).table.entries ↔
      ∃ path, Stands id path b.line calls ∧ b.source = SourcePath.canonicalName path) ∧
    ((after calls).table.armed = true ↔ (after calls).table.entries ≠ []) ∧
    (∀ target,
      ((after calls).table.entries = [] → (after calls).hooks.get target = none) ∧
      ((after calls).table.entries ≠ [] → (after calls).hooks.get target = some Hook.breakpoints)) ∧
    (∀ id, (((after calls).table.clear id).1 = true ↔ InUse id calls) ∧
      (¬InUse id calls → (after calls).table.clear id = (false, (after calls).table, []))) ∧
    ((after calls).table.takeForceCheck.1 = true ↔ Raised calls) ∧
    ∀ path line,
      (∀ id, (after calls).table.find? (SourcePath.canonicalName path) line = some id ↔
        IsLeast {i | ∃ path', Stands i path' line calls ∧
          SourcePath.canonicalName path' = SourcePath.canonicalName path} id) ∧
      ((after calls).table.find? (SourcePath.canonicalName path) line = none ↔
        ∀ i path', Stands i path' line calls →
          SourcePath.canonicalName path' ≠ SourcePath.canonicalName path) := by
  have ht := tracks_after calls
  have hempty : (after calls).table.isEmpty = decide ((after calls).table.entries = []) :=
    Bool.eq_iff_iff.mpr ((isEmpty_iff _).trans decide_eq_true_iff.symm)
  refine ⟨?_, ht.ordered, ht.entries, ?_, ?_, ?_, ht.raised, ?_⟩
  · intro path line id
    refine ⟨?_, ?_, ?_, ?_, ?_⟩
    · intro largest hg
      simp only [ht.inUse_iff] at hg
      exact nextId_of_isGreatest ht.ordered hg
    · intro hnone
      refine nextId_of_nil (List.eq_nil_iff_forall_not_mem.mpr ?_)
      rintro ⟨i, b⟩ hm
      exact hnone i (ht.inUse_iff.mpr ⟨b, hm⟩)
    · intro i hi
      obtain ⟨b, hm⟩ := ht.inUse_iff.mp hi
      exact lt_nextId ht.ordered hm
    · intro hsmall
      exact nextId_lt (by decide) fun i b hm => hsmall i (ht.inUse_iff.mpr ⟨b, hm⟩)
    · intro i b hne
      rw [after_snoc]
      exact mem_entries_set.trans (or_iff_left fun hnew => hne hnew.1)
  · rw [ht.armed, hempty]
    simp
  · intro target
    rw [ht.hooks, hempty]
    constructor
    · intro hnone
      simp [hnone]
    · intro hsome
      simp [hsome]
  · intro id
    refine ⟨clear_fst.trans ht.inUse_iff.symm, ?_⟩
    intro hno
    exact clear_of_not_mem fun b hm => hno (ht.inUse_iff.mpr ⟨b, hm⟩)
  · intro path line
    constructor
    · intro id
      rw [find?_eq_some_iff ht.ordered]
      simp only [ht.mem_at_iff]
    · rw [find?_eq_none_iff]
      simp only [ht.mem_at_iff, not_exists, not_and, ne_eq]

end

end ComputerHost.BreakpointTable
