import Mathlib.Data.List.Nodup

/-!
# Tables

Several things are kept as lists of keys and values: references by target, peripherals by side, settings
by computer, the nodes of a tree by location. These are the facts about such lists.

Results:
1. `lookup_filter_ne`, `find?_filter_ne`: removing a key.
2. `mem_of_lookup`, `lookup_of_mem`: tables in which no key stands twice.
-/

namespace ComputerHost

section
variable {α β : Type} [BEq α] [LawfulBEq α] {entries : List (α × β)} {key : α} {value : β}

theorem lookup_filter_ne [DecidableEq α] (entries : List (α × β)) (removed key : α) :
    (entries.filter (·.1 != removed)).lookup key =
      if key = removed then none else entries.lookup key := by
  induction entries with
  | nil => simp
  | cons entry rest ih =>
    obtain ⟨k, value⟩ := entry
    by_cases hk : k = removed
    · subst hk
      rw [List.filter_cons_of_neg (by simp), ih]
      split
      · rfl
      · next hne => rw [List.lookup_cons, beq_eq_false_iff_ne.mpr hne]
    · rw [List.filter_cons_of_pos (by simpa using hk), List.lookup_cons, List.lookup_cons, ih]
      by_cases hkey : key = k
      · subst hkey
        simp [hk]
      · simp [beq_eq_false_iff_ne.mpr hkey]

/-- Removing a key, for tables that are searched and not looked up. -/
theorem find?_filter_ne [DecidableEq α] (entries : List (α × β)) (removed key : α) :
    (entries.filter (·.1 != removed)).find? (·.1 == key) =
      if key = removed then none else entries.find? (·.1 == key) := by
  split
  · next heq =>
    subst heq
    exact List.find?_eq_none.mpr fun entry he => by simpa using (List.mem_filter.mp he).2
  · next hne =>
    rw [List.find?_filter]
    congr 1
    funext entry
    by_cases he : entry.1 = key
    · simp [he, hne]
    · simp [he]

theorem filter_of_lookup_none (hno : entries.lookup key = none) :
    entries.filter (·.1 != key) = entries := by
  rw [List.lookup_eq_none_iff] at hno
  exact List.filter_eq_self.mpr fun entry he =>
    bne_iff_ne.mpr fun heq => bne_iff_ne.mp (hno entry he) heq.symm

theorem mem_of_lookup (hl : entries.lookup key = some value) : (key, value) ∈ entries := by
  obtain ⟨before, after, rfl, -⟩ := List.lookup_eq_some_iff.mp hl
  exact List.mem_append_right _ List.mem_cons_self

theorem lookup_of_mem (hn : (entries.map (·.1)).Nodup) (hm : (key, value) ∈ entries) :
    entries.lookup key = some value := by
  obtain ⟨before, after, rfl⟩ := List.append_of_mem hm
  refine List.lookup_eq_some_iff.mpr ⟨before, after, rfl, fun entry he => bne_iff_ne.mpr ?_⟩
  rw [List.map_append, List.nodup_append] at hn
  exact (hn.2.2 entry.1 (List.mem_map_of_mem he) key (by simp)).symm

/-- A key that stands once, and the rest of its table. -/
theorem perm_filter_ne (hn : (entries.map (·.1)).Nodup) (hl : entries.lookup key = some value) :
    entries.Perm ((key, value) :: entries.filter (·.1 != key)) := by
  obtain ⟨before, after, rfl, hbefore⟩ := List.lookup_eq_some_iff.mp hl
  have hfirst : before.filter (·.1 != key) = before :=
    List.filter_eq_self.mpr fun entry he => bne_iff_ne.mpr (bne_iff_ne.mp (hbefore entry he)).symm
  have hlast : after.filter (·.1 != key) = after := by
    refine List.filter_eq_self.mpr fun entry he => bne_iff_ne.mpr ?_
    rw [List.map_append, List.map_cons, List.nodup_append, List.nodup_cons] at hn
    rintro rfl
    exact hn.2.1.1 (List.mem_map.mpr ⟨entry, he, rfl⟩)
  rw [List.filter_append, hfirst, List.filter_cons_of_neg (by simp), hlast]
  exact List.perm_middle

end

end ComputerHost
