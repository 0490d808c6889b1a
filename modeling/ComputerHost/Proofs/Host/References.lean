import ComputerHost.Registry
import ComputerHost.Proofs.Table

/-!
# References

The registry keeps, for each computer, the places where a link stands for it. Lists of references that
have become empty are not kept, and no computer has two lists (`Tidy`).

Results:
1. `referencesTo_setReferences`, `mem_addReference`, `mem_removeReference`: what the operations do to
   the references to each computer.
2. `tidy_addReference`, `tidy_removeReference`, …: how the lists are kept.
-/

namespace ComputerHost.Registry

/-- There is one list for each target, and none of them is empty. -/
def Tidy (r : Registry) : Prop :=
  (r.references.map (·.1)).Nodup ∧ ∀ entry ∈ r.references, entry.2 ≠ []

/-! ## 1. References to each computer -/

section
variable {r : Registry} {target : Handle} {ref : Reference}

theorem referencesTo_setReferences (r : Registry) (target : Handle) (refs : List Reference)
    (who : Handle) :
    (r.setReferences target refs).referencesTo who =
      if who = target then refs else r.referencesTo who := by
  unfold referencesTo setReferences
  dsimp only
  cases refs with
  | nil =>
    rw [if_pos List.isEmpty_nil, lookup_filter_ne]
    split <;> rfl
  | cons ref rest =>
    rw [if_neg (by simp), List.lookup_append, lookup_filter_ne]
    by_cases hw : who = target
    · simp [hw]
    · simp [hw, List.lookup_cons, beq_eq_false_iff_ne.mpr hw]

theorem mem_addReference (r : Registry) (target referencer : Handle) (side : String) (who : Handle) :
    ref ∈ (r.addReference target referencer side).referencesTo who ↔
      ref ∈ r.referencesTo who ∨ who = target ∧ ref = ⟨referencer, side⟩ := by
  unfold addReference
  dsimp only
  split
  · next hm =>
    constructor
    · exact .inl
    · rintro (hr | ⟨rfl, rfl⟩)
      · exact hr
      · exact hm
  · rw [referencesTo_setReferences]
    by_cases hw : who = target
    · simp [hw]
    · simp [hw]

theorem nodup_addReference (hn : ∀ who, (r.referencesTo who).Nodup) (target referencer : Handle)
    (side : String) (who : Handle) :
    ((r.addReference target referencer side).referencesTo who).Nodup := by
  unfold addReference
  dsimp only
  split
  · exact hn who
  · next hm =>
    rw [referencesTo_setReferences]
    split
    · exact List.nodup_append.mpr ⟨hn target, List.nodup_cons.mpr ⟨List.not_mem_nil, .nil⟩,
        fun a ha b hb => fun heq => hm (by rw [← List.mem_singleton.mp hb, ← heq]; exact ha)⟩
    · exact hn who

theorem referencesTo_removeReference (r : Registry) (target referencer : Handle) (side : String)
    (who : Handle) :
    (r.removeReference target referencer side).referencesTo who =
      if who = target then (r.referencesTo target).filter (· != ⟨referencer, side⟩)
      else r.referencesTo who :=
  referencesTo_setReferences ..

theorem mem_removeReference (r : Registry) (target referencer : Handle) (side : String)
    (who : Handle) :
    ref ∈ (r.removeReference target referencer side).referencesTo who ↔
      ref ∈ r.referencesTo who ∧ ¬(who = target ∧ ref = ⟨referencer, side⟩) := by
  rw [referencesTo_removeReference]
  by_cases hw : who = target
  · subst hw
    simp
  · simp [hw]

theorem nodup_removeReference (hn : ∀ who, (r.referencesTo who).Nodup) (target referencer : Handle)
    (side : String) (who : Handle) :
    ((r.removeReference target referencer side).referencesTo who).Nodup := by
  rw [referencesTo_removeReference]
  split
  · exact (hn target).filter _
  · exact hn who

/-! ## 2. The lists -/

theorem tidy_empty : Registry.empty.Tidy := ⟨List.nodup_nil, fun _ he => absurd he List.not_mem_nil⟩

theorem tidy_setReferences (ht : r.Tidy) (target : Handle) (refs : List Reference) :
    (r.setReferences target refs).Tidy := by
  obtain ⟨hkeys, hfull⟩ := ht
  have hothers : ((r.references.filter (·.1 != target)).map (·.1)).Nodup :=
    hkeys.sublist (List.filter_sublist.map _)
  unfold setReferences Tidy
  dsimp only
  cases refs with
  | nil =>
    rw [if_pos List.isEmpty_nil]
    exact ⟨hothers, fun entry he => hfull entry (List.mem_filter.mp he).1⟩
  | cons ref rest =>
    rw [if_neg (by simp), List.map_append]
    refine ⟨List.nodup_append.mpr ⟨hothers, List.nodup_cons.mpr ⟨List.not_mem_nil, .nil⟩,
      fun a ha b hb heq => ?_⟩, fun entry he => ?_⟩
    · obtain ⟨entry, he, rfl⟩ := List.mem_map.mp ha
      obtain rfl : b = target := by simpa using hb
      have hne := (List.mem_filter.mp he).2
      rw [heq] at hne
      simp at hne
    · rcases List.mem_append.mp he with he | he
      · exact hfull entry (List.mem_filter.mp he).1
      · rw [List.mem_singleton.mp he]
        exact List.cons_ne_nil _ _

theorem tidy_addReference (ht : r.Tidy) (target referencer : Handle) (side : String) :
    (r.addReference target referencer side).Tidy := by
  unfold addReference
  dsimp only
  split
  · exact ht
  · exact tidy_setReferences ht _ _

theorem tidy_removeReference (ht : r.Tidy) (target referencer : Handle) (side : String) :
    (r.removeReference target referencer side).Tidy :=
  tidy_setReferences ht _ _

/-- Without references there are no lists. -/
theorem references_of_tidy (ht : r.Tidy) (hnone : ∀ who, r.referencesTo who = []) :
    r.references = [] := by
  cases hr : r.references with
  | nil => rfl
  | cons entry rest =>
    have hlookup := hnone entry.1
    unfold referencesTo at hlookup
    rw [hr, List.lookup_cons, beq_self_eq_true] at hlookup
    have hfull := ht.2 entry (by rw [hr]; exact List.mem_cons_self)
    exact absurd hlookup hfull

end

end ComputerHost.Registry
