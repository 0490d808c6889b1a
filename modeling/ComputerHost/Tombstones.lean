/-! # Tombstones

The identities of things that have been torn down, kept for as long as something may still arrive for
them. Whoever holds such an identity looks here before it acts.

Main statements: `mem_add`, `mem_addAll` and `mem_forget` say what each operation does to the set, and
`forget_fst` that forgetting answers whether the identity was there.
-/

namespace ComputerHost

/-- A finite set of identities. -/
structure Tombstones (α : Type) where
  keys : List α
  nodup : keys.Nodup

namespace Tombstones

variable {α : Type}

def empty : Tombstones α := ⟨[], List.nodup_nil⟩

instance : Inhabited (Tombstones α) := ⟨empty⟩

instance : Membership α (Tombstones α) := ⟨fun s k => k ∈ s.keys⟩

theorem mem_def {s : Tombstones α} {k : α} : k ∈ s ↔ k ∈ s.keys := Iff.rfl

@[simp] theorem not_mem_empty (k : α) : k ∉ (empty : Tombstones α) := by
  simp [mem_def, empty]

def size (s : Tombstones α) : Nat := s.keys.length

def isEmpty (s : Tombstones α) : Bool := s.keys.isEmpty

variable [DecidableEq α]

instance (s : Tombstones α) (k : α) : Decidable (k ∈ s) :=
  inferInstanceAs (Decidable (k ∈ s.keys))

/-- With one more identity. -/
def add (s : Tombstones α) (k : α) : Tombstones α :=
  if h : k ∈ s.keys then s else ⟨k :: s.keys, List.nodup_cons.2 ⟨h, s.nodup⟩⟩

/-- With several more identities. -/
def addAll (s : Tombstones α) (ks : List α) : Tombstones α :=
  ks.foldl add s

/-- Without an identity, and whether it was there. -/
def forget (s : Tombstones α) (k : α) : Bool × Tombstones α :=
  (decide (k ∈ s.keys), ⟨s.keys.erase k, s.nodup.erase k⟩)

@[simp] theorem mem_add {s : Tombstones α} {k j : α} : j ∈ s.add k ↔ j = k ∨ j ∈ s := by
  simp only [mem_def, add]
  split
  · next h => constructor
              · exact .inr
              · rintro (rfl | h') <;> assumption
  · simp

@[simp] theorem mem_addAll {s : Tombstones α} {ks : List α} {j : α} :
    j ∈ s.addAll ks ↔ j ∈ ks ∨ j ∈ s := by
  induction ks generalizing s with
  | nil => simp [addAll]
  | cons k rest ih =>
    rw [show s.addAll (k :: rest) = (s.add k).addAll rest from rfl, ih]
    simp only [mem_add, List.mem_cons]
    constructor
    · rintro (h | h | h)
      · exact .inl (.inr h)
      · exact .inl (.inl h)
      · exact .inr h
    · rintro ((h | h) | h)
      · exact .inr (.inl h)
      · exact .inl h
      · exact .inr (.inr h)

@[simp] theorem mem_forget {s : Tombstones α} {k j : α} : j ∈ (s.forget k).2 ↔ j ≠ k ∧ j ∈ s := by
  simp only [mem_def, forget, s.nodup.mem_erase_iff]

theorem forget_fst (s : Tombstones α) (k : α) : (s.forget k).1 = true ↔ k ∈ s := by
  simp [forget, mem_def]

end Tombstones

end ComputerHost
