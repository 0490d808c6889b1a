/-!
# What comes last

Much that a state says can be read off the history that led to it: something has come, and nothing that
takes it back has come after it. `Since` says this of two kinds of entries, and `SinceWhen` of a first kind
that depends on what had come before. Where entries have values, the last one counts (`latest?`), maybe only
among those after the last entry of some kind (`afterLast`).

Results:
1. `sinceWhen_append`, `sinceWhen_concat`: a history that goes on.
2. `since_append`, `since_concat`: the same for kinds that do not look back.
3. `latest?_concat`, `afterLast_concat`: the last value.
-/

namespace ComputerHost

/-- Something of the first kind has come, and nothing of the second kind after it. -/
def Since {α : Type} (p q : α → Prop) (xs : List α) : Prop :=
  ∃ before x after, xs = before ++ x :: after ∧ p x ∧ ∀ y ∈ after, ¬q y

/-- Something has come that was of the first kind after what had come before it, and nothing of the second
kind after it. -/
def SinceWhen {α : Type} (p : List α → α → Prop) (q : α → Prop) (xs : List α) : Prop :=
  ∃ before x after, xs = before ++ x :: after ∧ p before x ∧ ∀ y ∈ after, ¬q y

/-- The last value that the entries of a history have. -/
def latest? {α β : Type} (f : α → Option β) (xs : List α) : Option β := xs.reverse.findSome? f

/-- What has come after the last entry of a kind; everything if there is none. -/
def afterLast {α : Type} (p : α → Bool) (xs : List α) : List α :=
  (xs.reverse.takeWhile (!p ·)).reverse

/-! ## 1. Kinds that look back -/

section
variable {α : Type} {p : List α → α → Prop} {q : α → Prop} {xs ys : List α} {x : α}

@[simp] theorem not_sinceWhen_nil : ¬SinceWhen p q [] := by
  rintro ⟨before, x, after, heq, -⟩
  simp at heq

theorem sinceWhen_append : SinceWhen p q (xs ++ ys) ↔
    SinceWhen (fun before => p (xs ++ before)) q ys ∨ (SinceWhen p q xs ∧ ∀ y ∈ ys, ¬q y) := by
  constructor
  · rintro ⟨before, x, after, heq, hp, hq⟩
    rcases List.append_eq_append_iff.mp heq with ⟨middle, rfl, rfl⟩ | ⟨middle, rfl, htail⟩
    · exact .inl ⟨middle, x, after, rfl, hp, hq⟩
    · cases middle with
      | nil =>
        exact .inl ⟨[], x, after, htail.symm, by simpa using hp, hq⟩
      | cons first middle =>
        obtain ⟨rfl, rfl⟩ := List.cons.inj htail
        obtain ⟨hmiddle, hys⟩ := List.forall_mem_append.mp hq
        exact .inr ⟨⟨before, x, middle, rfl, hp, hmiddle⟩, hys⟩
  · rintro (⟨before, x, after, rfl, hp, hq⟩ | ⟨⟨before, x, after, rfl, hp, hq⟩, hrest⟩)
    · exact ⟨xs ++ before, x, after, (List.append_assoc ..).symm, hp, hq⟩
    · refine ⟨before, x, after ++ ys, List.append_assoc .., hp, ?_⟩
      rw [List.forall_mem_append]
      exact ⟨hq, hrest⟩

theorem sinceWhen_singleton : SinceWhen p q [x] ↔ p [] x := by
  constructor
  · rintro ⟨before, y, after, heq, hp, -⟩
    obtain ⟨rfl, heq⟩ | ⟨-, hnil⟩ := List.singleton_eq_append_iff.mp heq
    · rwa [(List.cons.inj heq).1]
    · cases hnil
  · intro hp
    exact ⟨[], x, [], rfl, hp, nofun⟩

theorem sinceWhen_concat :
    SinceWhen p q (xs ++ [x]) ↔ p xs x ∨ (SinceWhen p q xs ∧ ¬q x) := by
  rw [sinceWhen_append, sinceWhen_singleton]
  simp

end

/-! ## 2. Kinds that do not -/

section
variable {α : Type} {p q : α → Prop} {xs ys : List α} {x : α}

@[simp] theorem not_since_nil : ¬Since p q [] := not_sinceWhen_nil

theorem since_append :
    Since p q (xs ++ ys) ↔ Since p q ys ∨ (Since p q xs ∧ ∀ y ∈ ys, ¬q y) :=
  sinceWhen_append

theorem since_concat : Since p q (xs ++ [x]) ↔ p x ∨ (Since p q xs ∧ ¬q x) := sinceWhen_concat

theorem Since.exists_mem (hs : Since p q xs) : ∃ x ∈ xs, p x := by
  obtain ⟨before, x, after, rfl, hp, -⟩ := hs
  exact ⟨x, by simp, hp⟩

end

/-! ## 3. Values -/

section
variable {α β : Type}

@[simp] theorem latest?_nil (f : α → Option β) : latest? f [] = none := rfl

@[simp] theorem afterLast_nil (p : α → Bool) : afterLast p [] = [] := rfl

theorem latest?_concat (f : α → Option β) (xs : List α) (x : α) :
    latest? f (xs ++ [x]) = (f x).or (latest? f xs) := by
  unfold latest?
  rw [List.reverse_append, List.reverse_singleton, List.singleton_append, List.findSome?_cons]
  cases f x <;> rfl

theorem afterLast_concat (p : α → Bool) (xs : List α) (x : α) :
    afterLast p (xs ++ [x]) = if p x then [] else afterLast p xs ++ [x] := by
  unfold afterLast
  rw [List.reverse_append, List.reverse_singleton, List.singleton_append, List.takeWhile_cons]
  cases p x <;> simp

/-- What holds unless an entry says otherwise. -/
theorem getD_latest?_concat (f : α → Option β) (xs : List α) (x : α) (start : β) :
    (latest? f (xs ++ [x])).getD start = (f x).getD ((latest? f xs).getD start) := by
  rw [latest?_concat]
  cases f x <;> rfl

theorem getD_latest?_afterLast_concat (f : α → Option β) (p : α → Bool) (xs : List α) (x : α)
    (start : β) : (latest? f (afterLast p (xs ++ [x]))).getD start =
      if p x then start else (f x).getD ((latest? f (afterLast p xs)).getD start) := by
  rw [afterLast_concat]
  split
  · rfl
  · exact getD_latest?_concat ..

end

end ComputerHost
