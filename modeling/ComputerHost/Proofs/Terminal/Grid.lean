import Mathlib.Data.List.DropRight
import ComputerHost.Terminal

/-!
# The cells of a grid

The cells of a grid lie in one array, row after row. No two places share an element of it
(`index?_injective`), so writing a cell changes what is read at its own place only (`get?_set`). Nothing
that is done with a grid goes outside the array: the functions that fail where an index is out of range
(`getOrFail`, `setOrFail`, `writeOrFail`, `rowOrFail`) never fail.

Results:
1. `index?_injective`, `mul_add_le_size`: places in the array.
2. `get?_blank`, `get?_set`, `get?_write`: what is read after writing.
3. `row_eq`: the text of a row.
4. `getOrFail_eq`, `setOrFail_eq`, `writeOrFail_eq`, `rowOrFail_eq`: nothing is out of range.
-/

namespace ComputerHost

namespace Text

/-- The text is the row without the white space at its end. -/
structure TrimsEnd (row text : List Char) : Prop where
  parts : ∃ blanks, row = text ++ blanks ∧ ∀ c ∈ blanks, isBlank c = true
  last : ∀ c ∈ text.getLast?, isBlank c = false

theorem trimsEnd_dropEndWhile (row : List Char) : TrimsEnd row (dropEndWhile isBlank row) where
  parts := ⟨row.rtakeWhile isBlank, (List.rdropWhile_append_rtakeWhile ..).symm,
    fun _ hc => List.mem_rtakeWhile_imp hc⟩
  last c hc := by
    obtain ⟨hne, rfl⟩ := List.mem_getLast?_eq_getLast hc
    exact Bool.eq_false_iff.mpr (List.rdropWhile_last_not _ _ hne)

end Text

namespace Grid

/-- Read a cell; fail if its index is out of range. -/
def getOrFail (g : Grid) (x y : Nat) : Option (Option Cell) :=
  match g.index? x y with
  | some i => g.cells[i]?.map some
  | none => some none

/-- Write a cell; fail if its index is out of range. -/
def setOrFail (g : Grid) (x y : Nat) (c : Cell) : Option Grid :=
  match g.index? x y with
  | some i =>
    if h : i < g.cells.size then
      some { g with cells := g.cells.set i c h, size_cells := by simp [g.size_cells] }
    else none
  | none => some g

/-- Write a text; fail at the first index out of range. -/
def writeOrFail (g : Grid) (y : Nat) (text : List Char) : Option Grid :=
  (text.take g.width).zipIdx.foldlM (fun g (c, x) => g.setOrFail x y ⟨c, Cell.defaultColors⟩) g

/-- Read a row; fail if its end is out of range. -/
def rowOrFail (g : Grid) (y : Nat) : Option String :=
  if y * g.width + g.width ≤ g.cells.size then some (g.row y) else none

section
variable {g : Grid} {x y x' y' i : Nat}

/-! ## 1. Places in the array -/

theorem index?_eq_some :
    g.index? x y = some i ↔ (x < g.width ∧ y < g.height) ∧ y * g.width + x = i := by
  unfold index?
  rw [Option.ite_none_right_eq_some, Option.some.injEq]

theorem index?_eq_none : g.index? x y = none ↔ ¬(x < g.width ∧ y < g.height) := by
  unfold index?
  simp

/-- Two places of a grid are two elements of its array. -/
theorem index?_injective (hi : g.index? x y = some i) (hi' : g.index? x' y' = some i) :
    x = x' ∧ y = y' := by
  obtain ⟨⟨hx, -⟩, rfl⟩ := index?_eq_some.mp hi
  obtain ⟨⟨hx', -⟩, heq⟩ := index?_eq_some.mp hi'
  have hwidth : 0 < g.width := Nat.zero_lt_of_lt hx
  have hdiv (a b : Nat) (ha : a < g.width) : (b * g.width + a) / g.width = b := by
    rw [Nat.add_comm, Nat.add_mul_div_right _ _ hwidth, Nat.div_eq_of_lt ha, Nat.zero_add]
  have hrow : y = y' := by
    rw [← hdiv x y hx, ← hdiv x' y' hx', heq]
  subst hrow
  exact ⟨(Nat.add_left_cancel heq).symm, rfl⟩

/-- A row ends inside the array. -/
theorem mul_add_le_size (hy : y < g.height) : y * g.width + g.width ≤ g.cells.size := by
  calc y * g.width + g.width = (y + 1) * g.width := (Nat.succ_mul y g.width).symm
    _ ≤ g.height * g.width := Nat.mul_le_mul_right _ hy
    _ = g.cells.size := by rw [g.size_cells, Nat.mul_comm]

/-! ## 2. Reading what was written -/

theorem get?_eq (g : Grid) (x y : Nat) :
    g.get? x y = if x < g.width ∧ y < g.height then g.cells[y * g.width + x]? else none := by
  unfold get?
  split
  · next i hi =>
    obtain ⟨hin, rfl⟩ := index?_eq_some.mp hi
    rw [if_pos hin]
    exact (Array.getElem?_eq_getElem (index?_lt hi)).symm
  · next hi => rw [if_neg (index?_eq_none.mp hi)]

theorem get?_eq_none : g.get? x y = none ↔ ¬(x < g.width ∧ y < g.height) := by
  unfold get?
  split
  · next i hi => simp [(index?_eq_some.mp hi).1]
  · next hi => exact iff_of_true rfl (index?_eq_none.mp hi)

theorem get?_blank (width height x y : Nat) :
    (blank width height).get? x y = if x < width ∧ y < height then some Cell.blank else none := by
  rw [get?_eq]
  split
  · next hin =>
    have hlt := index?_lt (index?_eq_some.mpr ⟨hin, rfl⟩)
    rw [if_pos (show x < width ∧ y < height from hin), Array.getElem?_eq_getElem hlt]
    exact congrArg some (Array.getElem_replicate _)
  · next hout => exact (if_neg hout).symm

@[simp] theorem width_set (g : Grid) (x y : Nat) (c : Cell) : (g.set x y c).width = g.width := by
  unfold set
  split <;> rfl

@[simp] theorem height_set (g : Grid) (x y : Nat) (c : Cell) : (g.set x y c).height = g.height := by
  unfold set
  split <;> rfl

/-- A cell that is written is read at its own place, and nowhere else. -/
theorem get?_set (g : Grid) (x y : Nat) (c : Cell) (x' y' : Nat) :
    (g.set x y c).get? x' y' =
      if x' = x ∧ y' = y then (g.get? x' y').map fun _ => c else g.get? x' y' := by
  cases hi : g.index? x y with
  | none =>
    have hsame : g.set x y c = g := by
      unfold set
      rw [hi]
    rw [hsame]
    split
    · next heq =>
      rw [heq.1, heq.2, get?_eq_none.mpr (index?_eq_none.mp hi), Option.map_none]
    · rfl
  | some i =>
    have hcells : (g.set x y c).cells = g.cells.setIfInBounds i c := by
      unfold set
      rw [hi]
    rw [get?_eq, get?_eq, width_set, height_set, hcells]
    split
    · next hin =>
      have hi' := index?_eq_some.mpr ⟨hin, rfl⟩
      split
      · next heq =>
        obtain ⟨rfl, rfl⟩ := heq
        obtain rfl := Option.some.inj (hi'.symm.trans hi)
        rw [Array.getElem?_setIfInBounds_self_of_lt (index?_lt hi),
          Array.getElem?_eq_getElem (index?_lt hi), Option.map_some]
      · next hne =>
        rw [Array.getElem?_setIfInBounds_ne]
        rintro rfl
        exact hne (index?_injective hi' hi)
    · split <;> rfl

@[simp] theorem width_write (g : Grid) (y : Nat) (text : List Char) :
    (g.write y text).width = g.width := by
  unfold write
  generalize (text.take g.width).zipIdx = places
  induction places generalizing g with
  | nil => rfl
  | cons place places ih => exact (ih _).trans (width_set ..)

@[simp] theorem height_write (g : Grid) (y : Nat) (text : List Char) :
    (g.write y text).height = g.height := by
  unfold write
  generalize (text.take g.width).zipIdx = places
  induction places generalizing g with
  | nil => rfl
  | cons place places ih => exact (ih _).trans (height_set ..)

/-- Characters that are written one beside the other. -/
theorem get?_foldl_set (y : Nat) (chars : List Char) (start : Nat) (g : Grid) (x' y' : Nat) :
    ((chars.zipIdx start).foldl (fun g (c, x) => g.set x y ⟨c, Cell.defaultColors⟩) g).get? x' y' =
      if y' = y ∧ start ≤ x' then
        (g.get? x' y').map fun c => (chars[x' - start]?).elim c (⟨·, Cell.defaultColors⟩)
      else g.get? x' y' := by
  induction chars generalizing start g with
  | nil => simp
  | cons char chars ih =>
    rw [List.zipIdx_cons, List.foldl_cons, ih, get?_set]
    rcases Nat.lt_trichotomy x' start with hx | rfl | hx
    · rw [if_neg (by omega), if_neg (by omega), if_neg (by omega)]
    · rw [if_neg (by omega), Nat.sub_self]
      by_cases hy : y' = y <;> simp [hy]
    · have hnext : x' - start = x' - (start + 1) + 1 := by omega
      rw [hnext, List.getElem?_cons_succ, if_neg (show ¬(x' = start ∧ y' = y) by omega)]
      simp only [Nat.succ_le_of_lt hx, hx.le]

/-- A text is read in its row, and nothing else has changed. -/
theorem get?_write (g : Grid) (y : Nat) (text : List Char) (x' y' : Nat) :
    (g.write y text).get? x' y' =
      if y' = y then
        (g.get? x' y').map fun c => (text[x']?).elim c (⟨·, Cell.defaultColors⟩)
      else g.get? x' y' := by
  unfold write
  rw [get?_foldl_set]
  simp only [Nat.zero_le, and_true, Nat.sub_zero]
  split
  · cases hc : g.get? x' y' with
    | none => rfl
    | some c =>
      have hin : x' < g.width := by
        by_contra hout
        rw [get?_eq_none.mpr fun hin => hout hin.1] at hc
        cases hc
      rw [List.getElem?_take_of_lt hin]
  · rfl

/-! ## 3. Rows -/

/-- A row has one character of each of its cells, without white space at the end. -/
theorem row_eq (hy : y < g.height) {cell : Nat → Cell}
    (hcell : ∀ x < g.width, g.get? x y = some (cell x)) : g.row y =
      String.ofList (Text.dropEndWhile Text.isBlank
        ((List.range g.width).map fun x => (cell x).char)) := by
  have hend := mul_add_le_size hy
  have hcells : (g.cells.extract (y * g.width) (y * g.width + g.width)).toList =
      (List.range g.width).map cell := by
    refine List.ext_getElem ?_ fun x hx hx' => ?_
    · simp only [Array.length_toList, Array.size_extract, List.length_map, List.length_range]
      omega
    · have hwidth : x < g.width := by simpa using hx'
      have hc := hcell x hwidth
      rw [get?_eq, if_pos ⟨hwidth, hy⟩] at hc
      obtain ⟨_, heq⟩ := Array.getElem?_eq_some_iff.mp hc
      simp [heq]
  unfold row
  dsimp only
  rw [hcells, List.map_map]
  rfl

/-! ## 4. Indices in range -/

theorem getOrFail_eq (g : Grid) (x y : Nat) : g.getOrFail x y = some (g.get? x y) := by
  unfold getOrFail
  cases hi : g.index? x y with
  | none => rw [get?_eq_none.mpr (index?_eq_none.mp hi)]
  | some i =>
    obtain ⟨hin, rfl⟩ := index?_eq_some.mp hi
    rw [get?_eq, if_pos hin]
    simp [index?_lt hi]

theorem setOrFail_eq (g : Grid) (x y : Nat) (c : Cell) : g.setOrFail x y c = some (g.set x y c) := by
  unfold setOrFail set
  cases hi : g.index? x y with
  | none => rfl
  | some i => simp [index?_lt hi, Array.setIfInBounds]

theorem writeOrFail_eq (g : Grid) (y : Nat) (text : List Char) :
    g.writeOrFail y text = some (g.write y text) := by
  unfold writeOrFail write
  simp only [setOrFail_eq]
  exact List.foldlM_pure

theorem rowOrFail_eq (hy : y < g.height) : g.rowOrFail y = some (g.row y) :=
  if_pos (mul_add_le_size hy)

end

end Grid

end ComputerHost
