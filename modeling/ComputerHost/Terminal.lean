import ComputerHost.Text

/-! # Terminals

A terminal keeps a grid of cells in memory. Between boots it is reset; a fatal failure replaces its
contents and puts it into error mode, in which it is kept when its computer is gone.

The cells lie in one array, row after row. `Grid.size_cells` is the invariant that makes every cell
inside the grid an element of it.
-/

namespace ComputerHost

/-- A colour: red, green and blue. -/
structure Rgb where
  red : UInt8
  green : UInt8
  blue : UInt8
deriving DecidableEq, Repr, Inhabited

/-- A character and its two colours, one in each half of a byte. -/
structure Cell where
  char : Char
  colors : UInt8
deriving DecidableEq, Repr

namespace Cell

/-- White on black. -/
def defaultColors : UInt8 := 0xF0

def blank : Cell := ⟨' ', defaultColors⟩

instance : Inhabited Cell := ⟨blank⟩

end Cell

/-- The stock palette of sixteen colours. -/
def defaultPalette : List Rgb :=
  [⟨0xf0, 0xf0, 0xf0⟩, ⟨0xf2, 0xb2, 0x33⟩, ⟨0xe5, 0x7f, 0xd8⟩, ⟨0x99, 0xb2, 0xf2⟩,
   ⟨0xde, 0xde, 0x6c⟩, ⟨0x7f, 0xcc, 0x19⟩, ⟨0xf2, 0xb2, 0xcc⟩, ⟨0x4c, 0x4c, 0x4c⟩,
   ⟨0x99, 0x99, 0x99⟩, ⟨0x4c, 0x99, 0xb2⟩, ⟨0xb2, 0x66, 0xe5⟩, ⟨0x33, 0x66, 0xcc⟩,
   ⟨0x7f, 0x66, 0x4c⟩, ⟨0x57, 0xa6, 0x4e⟩, ⟨0xcc, 0x4c, 0x4c⟩, ⟨0x11, 0x11, 0x11⟩]

/-- A rectangle of cells, row after row. -/
structure Grid where
  width : Nat
  height : Nat
  cells : Array Cell
  size_cells : cells.size = width * height

namespace Grid

/-- A grid without contents. -/
def blank (width height : Nat) : Grid :=
  ⟨width, height, Array.replicate (width * height) Cell.blank, by simp⟩

instance : Inhabited Grid := ⟨blank 0 0⟩

/-- The place of a cell in the array, if it is inside the grid. -/
def index? (g : Grid) (x y : Nat) : Option Nat :=
  if x < g.width ∧ y < g.height then some (y * g.width + x) else none

theorem index?_lt {g : Grid} {x y i : Nat} (h : g.index? x y = some i) : i < g.cells.size := by
  simp only [index?] at h
  split at h
  · next hxy =>
    obtain rfl := Option.some.inj h
    rw [g.size_cells]
    calc y * g.width + x < y * g.width + g.width := by omega
      _ = (y + 1) * g.width := by rw [Nat.add_mul, Nat.one_mul]
      _ ≤ g.height * g.width := Nat.mul_le_mul_right _ hxy.2
      _ = g.width * g.height := Nat.mul_comm _ _
  · simp at h

/-- The cell at a place. -/
def get? (g : Grid) (x y : Nat) : Option Cell :=
  match h : g.index? x y with
  | some i =>
    have := index?_lt h
    some g.cells[i]
  | none => none

/-- The grid with one cell written. Outside the grid nothing is written. -/
def set (g : Grid) (x y : Nat) (c : Cell) : Grid :=
  match g.index? x y with
  | some i => { g with cells := g.cells.setIfInBounds i c, size_cells := by simp [g.size_cells] }
  | none => g

/-- The grid with a text in default colours written into a row. What does not fit is left out. -/
def write (g : Grid) (y : Nat) (text : List Char) : Grid :=
  (text.take g.width).zipIdx.foldl (fun g (c, x) => g.set x y ⟨c, Cell.defaultColors⟩) g

/-- The characters of a row without white space at the end. -/
def row (g : Grid) (y : Nat) : String :=
  let chars := (g.cells.extract (y * g.width) (y * g.width + g.width)).toList.map (·.char)
  String.ofList (Text.dropEndWhile Text.isBlank chars)

end Grid

/-- A terminal and what has been done to it. -/
structure Terminal where
  title : String
  grid : Grid
  palette : List Rgb
  errorMode : Bool
  grayscale : Bool
  destroyed : Bool
  /-- The modal messages shown, oldest first. -/
  messages : List (String × String)
  /-- How many times the terminal was reset. -/
  resets : Nat
deriving Inhabited

namespace Terminal

/-- A terminal of the default size, with nothing on it. -/
def new (title : String) : Terminal :=
  { title, grid := Grid.blank 51 19, palette := defaultPalette, errorMode := false,
    grayscale := false, destroyed := false, messages := [], resets := 0 }

def cell? (t : Terminal) (x y : Nat) : Option Cell := t.grid.get? x y

/-- A row without white space at the end; empty below the grid. -/
def line (t : Terminal) (y : Nat) : String :=
  if y < t.grid.height then t.grid.row y else ""

/-- The rows that are not empty. -/
def text (t : Terminal) : List String :=
  ((List.range t.grid.height).map t.grid.row).filter (· != "")

/-- A new size. The contents are gone, the palette stays. -/
def resize (t : Terminal) (width height : Nat) : Terminal :=
  { t with grid := Grid.blank width height }

def writeCell (t : Terminal) (x y : Nat) (c : Cell) : Terminal :=
  { t with grid := t.grid.set x y c }

def setColor (t : Terminal) (index : Nat) (color : Rgb) : Terminal :=
  { t with palette := t.palette.set index color }

/-- An empty screen with the stock palette, out of error mode. -/
def reset (t : Terminal) : Terminal :=
  { t with grid := Grid.blank t.grid.width t.grid.height, palette := defaultPalette,
           errorMode := false, resets := t.resets + 1 }

/-- A failure replaces the contents and puts the terminal into error mode. -/
def showFatal (t : Terminal) (message : String) : Terminal :=
  { t with grid := (Grid.blank t.grid.width t.grid.height).write 0 message.toList,
           palette := defaultPalette, errorMode := true }

/-- A modal message over the terminal. -/
def showMessage (t : Terminal) (title message : String) : Terminal :=
  { t with messages := t.messages ++ [(title, message)] }

def setGrayscale (t : Terminal) (on : Bool) : Terminal := { t with grayscale := on }

def destroy (t : Terminal) : Terminal := { t with destroyed := true }

end Terminal

/-- How terminals are made. -/
inductive RenderMode where
  /-- There are none. -/
  | headless
  /-- A grid of cells in memory. -/
  | buffer
deriving DecidableEq, Repr, Inhabited

namespace RenderMode

/-- The spelling in settings. -/
def name : RenderMode → String
  | .headless => "headless"
  | .buffer => "buffer"

def all : List RenderMode := [.headless, .buffer]

def ofName? (s : String) : Option RenderMode :=
  all.find? (·.name == s)

theorem ofName?_name (m : RenderMode) : ofName? m.name = some m := by
  cases m <;> decide

end RenderMode

end ComputerHost
