import ComputerHost.Proofs.Since
import ComputerHost.Proofs.Terminal.Grid

/-!
# What a terminal shows

What can be read from a terminal follows from the calls that were made. A cell shows what was last written
to it since the contents were last replaced (`shown`), and before that what they were replaced by: nothing,
or the text of a failure in the first row. The palette forgets less often, since a new size leaves it.

Results:
1. `size_on`, `cell?_on`, `palette_on`, `errorMode_on`: what one call changes.
2. `shows_after`, `reads_of_shows`: what is read after a history.
3. `onOrFail_eq`, `lineOrFail_eq`, `textOrFail_eq`: no call and no reading goes outside the array.
4. `terminal_shows_history`: all of this, for every history.
-/

namespace ComputerHost

namespace Terminal

/-- A call that changes what a terminal shows. -/
inductive Call where
  | resize (width height : Nat)
  | writeCell (x y : Nat) (c : Cell)
  | setColor (index : Nat) (color : Rgb)
  | reset
  | showFatal (message : String)
deriving DecidableEq

namespace Call

/-- The terminal after a call. -/
def on : Terminal → Call → Terminal
  | t, resize width height => t.resize width height
  | t, writeCell x y c => t.writeCell x y c
  | t, setColor index color => t.setColor index color
  | t, reset => t.reset
  | t, showFatal message => t.showFatal message

/-- The terminal after a call that fails if an index is out of range. -/
def onOrFail : Terminal → Call → Option Terminal
  | t, writeCell x y c => (t.grid.setOrFail x y c).map fun grid => { t with grid }
  | t, showFatal message =>
    ((Grid.blank t.grid.width t.grid.height).writeOrFail 0 message.toList).map fun grid =>
      { t with grid, palette := defaultPalette, errorMode := true }
  | t, call => some (call.on t)

def size? : Call → Option (Nat × Nat)
  | resize width height => some (width, height)
  | _ => none

/-- The text that the contents are replaced by. -/
def ground? : Call → Option (List Char)
  | resize _ _ | reset => some []
  | showFatal message => some message.toList
  | _ => none

/-- Are the contents replaced? -/
def clears (call : Call) : Bool := call.ground?.isSome

/-- What is written to exactly this cell. -/
def cell? (x y : Nat) : Call → Option Cell
  | writeCell x' y' c => if x' = x ∧ y' = y then some c else none
  | _ => none

/-- Whether the terminal is in error mode then, if the call says it. -/
def alarm? : Call → Option Bool
  | reset => some false
  | showFatal _ => some true
  | _ => none

/-- Is the palette the stock palette again? -/
def restores (call : Call) : Bool := call.alarm?.isSome

def color? (index : Nat) : Call → Option Rgb
  | setColor i color => if i = index then some color else none
  | _ => none

end Call

/-- A terminal after these calls. -/
def after (title : String) (calls : List Call) : Terminal := calls.foldl Call.on (new title)

/-- A cell on which nothing has been written, where the contents were replaced by a text. -/
def groundCell (text : List Char) (x y : Nat) : Cell :=
  if y = 0 then (text[x]?).elim Cell.blank (⟨·, Cell.defaultColors⟩) else Cell.blank

/-- The cell at a place, in a way that fails out of range. -/
def cellOrFail (t : Terminal) (x y : Nat) : Option (Option Cell) := t.grid.getOrFail x y

def lineOrFail (t : Terminal) (y : Nat) : Option String :=
  if y < t.grid.height then t.grid.rowOrFail y else some ""

def textOrFail (t : Terminal) : Option (List String) :=
  ((List.range t.grid.height).mapM t.grid.rowOrFail).map (·.filter (· != ""))

/-- What a cell shows after these calls. -/
def shown (calls : List Call) (x y : Nat) : Cell :=
  (latest? (Call.cell? x y) (afterLast Call.clears calls)).getD
    (groundCell ((latest? Call.ground? calls).getD []) x y)

/-- The terminal is what these calls have made of a new one. -/
structure Shows (title : String) (calls : List Call) (t : Terminal) : Prop where
  size : (t.grid.width, t.grid.height) = (latest? Call.size? calls).getD (51, 19)
  cell : ∀ x y, t.cell? x y =
    if x < t.grid.width ∧ y < t.grid.height then some (shown calls x y) else none
  palette : ∀ index, t.palette[index]? = (defaultPalette[index]?).map fun stock =>
    (latest? (Call.color? index) (afterLast Call.restores calls)).getD stock
  errorMode : t.errorMode = (latest? Call.alarm? calls).getD false
  rest : t = { new title with
    grid := t.grid, palette := t.palette, errorMode := t.errorMode, resets := calls.count .reset }

/-- Every reading is what these calls have made of a new terminal. -/
structure Reads (title : String) (calls : List Call) (t : Terminal) : Prop
    extends Shows title calls t where
  line : ∀ y < t.grid.height,
    Text.TrimsEnd ((List.range t.grid.width).map fun x => (shown calls x y).char) (t.line y).toList
  below : ∀ y, t.grid.height ≤ y → t.line y = ""
  text : t.text = ((List.range t.grid.height).map t.line).filter (· != "")

/-! ## 1. Calls -/

section
variable {title : String} {calls : List Call} {t : Terminal}

/-- What a call that says nothing leaves. -/
@[simp] theorem map_getD_none {α : Type} (o : Option α) : o.map (none : Option α).getD = o :=
  Option.map_id'

@[simp] theorem groundCell_nil (x y : Nat) : groundCell [] x y = Cell.blank := by
  simp [groundCell]

/-- Contents that are replaced by a text. -/
theorem get?_ground (width height : Nat) (text : List Char) (x y : Nat) :
    ((Grid.blank width height).write 0 text).get? x y =
      if x < width ∧ y < height then some (groundCell text x y) else none := by
  rw [Grid.get?_write, Grid.get?_blank]
  unfold groundCell
  split <;> split <;> rfl

theorem size_on (t : Terminal) (call : Call) : ((call.on t).grid.width, (call.on t).grid.height) =
    call.size?.getD (t.grid.width, t.grid.height) := by
  cases call with
  | resize | setColor | reset => rfl
  | writeCell x y c => exact Prod.ext (Grid.width_set ..) (Grid.height_set ..)
  | showFatal message => exact Prod.ext (Grid.width_write ..) (Grid.height_write ..)

theorem size?_of_ground?_none {call : Call} (hground : call.ground? = none) : call.size? = none := by
  cases call with
  | resize => cases hground
  | _ => rfl

/-- A call that replaces the contents decides what every cell shows; the others change one cell at most. -/
theorem cell?_on (t : Terminal) (call : Call) (x y : Nat) : (call.on t).cell? x y =
    match call.ground? with
    | some text =>
      if x < (call.on t).grid.width ∧ y < (call.on t).grid.height then some (groundCell text x y)
      else none
    | none => (t.cell? x y).map (call.cell? x y).getD := by
  cases call with
  | resize width height =>
    simp only [Call.ground?, groundCell_nil]
    exact Grid.get?_blank width height x y
  | reset =>
    simp only [Call.ground?, groundCell_nil]
    exact Grid.get?_blank t.grid.width t.grid.height x y
  | showFatal message =>
    have hsize := size_on t (.showFatal message)
    obtain ⟨hwidth, hheight⟩ := Prod.mk.inj hsize
    simp only [Call.ground?]
    rw [hwidth, hheight]
    exact get?_ground t.grid.width t.grid.height message.toList x y
  | writeCell x' y' c =>
    simp only [Call.ground?, Call.cell?]
    refine (Grid.get?_set t.grid x' y' c x y).trans ?_
    split
    · next heq =>
      rw [if_pos ⟨heq.1.symm, heq.2.symm⟩]
      rfl
    · next hne =>
      rw [if_neg fun heq => hne ⟨heq.1.symm, heq.2.symm⟩]
      exact (map_getD_none _).symm
  | setColor index color => exact (map_getD_none _).symm

theorem palette_on (t : Terminal) (call : Call) (index : Nat) : (call.on t).palette[index]? =
    if call.restores then defaultPalette[index]?
    else (t.palette[index]?).map (call.color? index).getD := by
  cases call with
  | setColor i color =>
    refine (List.getElem?_set ..).trans ?_
    by_cases hi : i = index
    · subst hi
      by_cases hlt : i < t.palette.length <;> simp [Call.restores, Call.alarm?, Call.color?, hlt]
    · simp [Call.restores, Call.alarm?, Call.color?, hi]
  | resize | writeCell => exact (map_getD_none _).symm
  | reset | showFatal => rfl

theorem errorMode_on (t : Terminal) (call : Call) :
    (call.on t).errorMode = call.alarm?.getD t.errorMode := by
  cases call <;> rfl

theorem rest_on (t : Terminal) (call : Call) : call.on t = { t with
    grid := (call.on t).grid, palette := (call.on t).palette, errorMode := (call.on t).errorMode,
    resets := t.resets + [call].count .reset } := by
  cases call <;> rfl

/-! ## 2. Histories -/

theorem shown_concat (calls : List Call) (call : Call) (x y : Nat) :
    shown (calls ++ [call]) x y = match call.ground? with
      | some text => groundCell text x y
      | none => (call.cell? x y).getD (shown calls x y) := by
  unfold shown
  rw [getD_latest?_afterLast_concat, getD_latest?_concat]
  unfold Call.clears
  cases call.ground? <;> rfl

theorem shows_new (title : String) : Shows title [] (new title) where
  size := rfl
  cell x y := by
    refine (Grid.get?_blank 51 19 x y).trans ?_
    simp [new, Grid.blank, shown]
  palette index := by simp [new]
  errorMode := rfl
  rest := rfl

theorem shows_on (hs : Shows title calls t) (call : Call) :
    Shows title (calls ++ [call]) (call.on t) where
  size := by rw [size_on, hs.size, getD_latest?_concat]
  cell x y := by
    have hsize := size_on t call
    rw [cell?_on, shown_concat, hs.cell]
    cases hground : call.ground? with
    | some text => rfl
    | none =>
      rw [size?_of_ground?_none hground] at hsize
      obtain ⟨hwidth, hheight⟩ := Prod.mk.inj hsize
      rw [hwidth, hheight]
      dsimp only
      split <;> rfl
  palette index := by
    rw [palette_on, hs.palette]
    simp only [getD_latest?_afterLast_concat]
    split
    · simp
    · rw [Option.map_map]
      rfl
  errorMode := by rw [errorMode_on, hs.errorMode, getD_latest?_concat]
  rest := by
    rw [rest_on, hs.rest, List.count_append]

theorem shows_after (title : String) (calls : List Call) : Shows title calls (after title calls) := by
  induction calls using List.reverseRecOn with
  | nil => exact shows_new title
  | append_singleton calls call ih =>
    unfold after
    rw [List.foldl_append]
    exact shows_on ih call

theorem row_of_shows (hs : Shows title calls t) {y : Nat} (hy : y < t.grid.height) :
    Text.TrimsEnd ((List.range t.grid.width).map fun x => (shown calls x y).char)
      (t.grid.row y).toList := by
  rw [Grid.row_eq hy fun x hx => (hs.cell x y).trans (if_pos ⟨hx, hy⟩), String.toList_ofList]
  exact Text.trimsEnd_dropEndWhile _

theorem reads_of_shows (hs : Shows title calls t) : Reads title calls t where
  toShows := hs
  line y hy := by
    unfold Terminal.line
    rw [if_pos hy]
    exact row_of_shows hs hy
  below y hy := if_neg (Nat.not_lt.mpr hy)
  text := by
    unfold Terminal.text
    congr 1
    exact List.map_congr_left fun y hy => (if_pos (List.mem_range.mp hy)).symm

/-! ## 3. Indices in range -/

theorem onOrFail_eq (t : Terminal) (call : Call) : call.onOrFail t = some (call.on t) := by
  cases call with
  | writeCell x y c => exact congrArg (Option.map _) (Grid.setOrFail_eq ..)
  | showFatal message => exact congrArg (Option.map _) (Grid.writeOrFail_eq ..)
  | resize | setColor | reset => rfl

theorem lineOrFail_eq (t : Terminal) (y : Nat) : t.lineOrFail y = some (t.line y) := by
  unfold lineOrFail line
  split
  · next hy => exact Grid.rowOrFail_eq hy
  · rfl

theorem mapM_of_forall {α β : Type} {f : α → Option β} {g : α → β} {xs : List α}
    (hf : ∀ x ∈ xs, f x = some (g x)) : xs.mapM f = some (xs.map g) := by
  induction xs with
  | nil => rfl
  | cons x xs ih =>
    obtain ⟨hx, hxs⟩ := List.forall_mem_cons.mp hf
    rw [List.mapM_cons, hx, ih hxs]
    rfl

theorem textOrFail_eq (t : Terminal) : t.textOrFail = some t.text := by
  unfold textOrFail
  rw [mapM_of_forall fun y hy => Grid.rowOrFail_eq (List.mem_range.mp hy)]
  rfl

end

/-! ## 4. Every history -/

/-- After every history of calls, what can be read from a terminal is what the history says: its size,
each cell and each line, the palette and the error mode. No call and no reading goes outside the array
of cells. -/
theorem terminal_shows_history (title : String) (calls : List Call) :
    Reads title calls (after title calls) ∧
      calls.foldlM Call.onOrFail (new title) = some (after title calls) ∧
      (∀ x y, (after title calls).cellOrFail x y = some ((after title calls).cell? x y)) ∧
      (∀ y, (after title calls).lineOrFail y = some ((after title calls).line y)) ∧
      (after title calls).textOrFail = some (after title calls).text := by
  refine ⟨reads_of_shows (shows_after title calls), ?_, ?_, lineOrFail_eq _, textOrFail_eq _⟩
  · have hstep : Call.onOrFail = fun t call => pure (call.on t) :=
      funext fun t => funext fun call => onOrFail_eq t call
    rw [hstep]
    exact List.foldlM_pure
  · intro x y
    exact Grid.getOrFail_eq ..

/-- A row does not run on into the next one, and what is written outside the grid is lost. -/
example : (after "" [.resize 2 2, .writeCell 1 0 ⟨'a', 0⟩, .writeCell 2 0 ⟨'b', 0⟩,
    .writeCell 0 1 ⟨'c', 0⟩]).text = [" a", "c"] := by
  decide +kernel

end Terminal

end ComputerHost
