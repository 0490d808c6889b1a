/-! # Text

Cutting text into pieces, trimming it, and reading numbers from it.

Everything works on `List Char`, where the laws are stated; the functions on `String` at the end
are their wrappers. The main facts: `joinWith_splitAt` says that cutting loses nothing but the
separators, and `splitAt_free` that no piece holds a separator.
-/

namespace ComputerHost.Text

/-! ## Character classes -/

/-- White space is the Unicode property `White_Space`. -/
def isBlank (c : Char) : Bool :=
  let n := c.toNat
  (9 ≤ n && n ≤ 13) || n == 0x20 || n == 0x85 || n == 0xA0 || n == 0x1680 ||
    (0x2000 ≤ n && n ≤ 0x200A) || n == 0x2028 || n == 0x2029 || n == 0x202F ||
    n == 0x205F || n == 0x3000

/-! ## Cutting -/

/-- The pieces between separators. There is one piece more than there are separators. -/
def splitAt (sep : Char → Bool) : List Char → List (List Char)
  | [] => [[]]
  | c :: rest =>
    if sep c then [] :: splitAt sep rest
    else match splitAt sep rest with
      | [] => [[c]]
      | piece :: pieces => (c :: piece) :: pieces

theorem splitAt_ne_nil (sep : Char → Bool) (s : List Char) : splitAt sep s ≠ [] := by
  cases s with
  | nil => simp [splitAt]
  | cons c rest =>
    simp only [splitAt]
    split
    · simp
    · split <;> simp

/-- No piece holds a separator. -/
theorem splitAt_free {sep : Char → Bool} {s piece : List Char} (h : piece ∈ splitAt sep s) :
    ∀ c ∈ piece, sep c = false := by
  induction s generalizing piece with
  | nil => simp_all [splitAt]
  | cons c rest ih =>
    simp only [splitAt] at h
    split at h
    · rcases List.mem_cons.1 h with rfl | h
      · simp
      · exact ih h
    · next hc =>
      split at h
      · next he => exact absurd he (splitAt_ne_nil sep rest)
      · next first others he =>
        rcases List.mem_cons.1 h with rfl | h
        · intro d hd
          rcases List.mem_cons.1 hd with rfl | hd
          · simpa using hc
          · exact ih (by rw [he]; simp) d hd
        · exact ih (by rw [he]; simp [h])

theorem mem_of_mem_splitAt {sep : Char → Bool} {s piece : List Char} {c : Char}
    (h : piece ∈ splitAt sep s) (hc : c ∈ piece) : c ∈ s := by
  induction s generalizing piece with
  | nil => simp_all [splitAt]
  | cons d rest ih =>
    simp only [splitAt] at h
    split at h
    · rcases List.mem_cons.1 h with rfl | h
      · cases hc
      · exact List.mem_cons_of_mem d (ih h hc)
    · split at h
      · next he => exact absurd he (splitAt_ne_nil sep rest)
      · next first others he =>
        rcases List.mem_cons.1 h with rfl | h
        · rcases List.mem_cons.1 hc with rfl | hc
          · exact List.mem_cons_self
          · exact List.mem_cons_of_mem d (ih (by rw [he]; simp) hc)
        · exact List.mem_cons_of_mem d (ih (by rw [he]; simp [h]) hc)

theorem splitAt_of_free {sep : Char → Bool} {s : List Char} (hs : ∀ c ∈ s, sep c = false) :
    splitAt sep s = [s] := by
  induction s with
  | nil => rfl
  | cons c rest ih =>
    rw [splitAt, if_neg (by simp [hs c List.mem_cons_self]),
      ih fun d hd => hs d (List.mem_cons_of_mem c hd)]

theorem splitAt_append {sep : Char → Bool} {c : Char} (hc : sep c = true) (s t : List Char) :
    splitAt sep (s ++ c :: t) = splitAt sep s ++ splitAt sep t := by
  induction s with
  | nil => simp [splitAt, hc]
  | cons d rest ih =>
    rw [List.cons_append, splitAt, splitAt, ih]
    split
    · rfl
    · cases hp : splitAt sep rest with
      | nil => exact absurd hp (splitAt_ne_nil sep rest)
      | cons piece pieces => rfl

/-- The pieces with one character between neighbours. -/
def joinWith (c : Char) : List (List Char) → List Char
  | [] => []
  | [piece] => piece
  | piece :: rest => piece ++ c :: joinWith c rest

/-- Cutting at one character and joining with it gives the text back. -/
theorem joinWith_splitAt (c : Char) (s : List Char) :
    joinWith c (splitAt (· == c) s) = s := by
  induction s with
  | nil => rfl
  | cons d rest ih =>
    simp only [splitAt]
    split
    · next h =>
      have hd : d = c := by simpa using h
      cases hp : splitAt (· == c) rest with
      | nil => exact absurd hp (splitAt_ne_nil _ rest)
      | cons p ps =>
        rw [hp] at ih
        simp [joinWith, ih, hd]
    · split
      · next he => exact absurd he (splitAt_ne_nil _ rest)
      · next p ps he =>
        rw [he] at ih
        cases ps with
        | nil => simpa [joinWith] using ih
        | cons q qs => simpa [joinWith] using ih

theorem joinWith_cons_cons (c : Char) (w v : List Char) (ws : List (List Char)) :
    joinWith c (w :: v :: ws) = w ++ c :: joinWith c (v :: ws) := rfl

/-- Joining pieces and cutting them again gives the pieces back. -/
theorem splitAt_joinWith {sep : Char → Bool} {c : Char} {ws : List (List Char)} (hc : sep c = true)
    (hws : ∀ w ∈ ws, ∀ d ∈ w, sep d = false) (hne : ws ≠ []) : splitAt sep (joinWith c ws) = ws := by
  induction ws with
  | nil => exact absurd rfl hne
  | cons w ws ih =>
    rw [List.forall_mem_cons] at hws
    cases ws with
    | nil => exact splitAt_of_free hws.1
    | cons v ws =>
      rw [joinWith_cons_cons, splitAt_append hc, splitAt_of_free hws.1,
        ih hws.2 (List.cons_ne_nil v ws)]
      rfl

/-- The text before and after the first occurrence of a character. -/
def cutFirst? (c : Char) : List Char → Option (List Char × List Char)
  | [] => none
  | d :: rest =>
    if d = c then some ([], rest)
    else (cutFirst? c rest).map fun (before, after) => (d :: before, after)

theorem eq_of_cutFirst? {c : Char} {s before after : List Char}
    (h : cutFirst? c s = some (before, after)) : s = before ++ c :: after := by
  induction s generalizing before after with
  | nil => simp [cutFirst?] at h
  | cons d rest ih =>
    simp only [cutFirst?] at h
    split at h
    · next hd =>
      obtain ⟨rfl, rfl⟩ := by simpa using h
      simp [hd]
    · obtain ⟨⟨b, a⟩, hr, he⟩ := Option.map_eq_some_iff.1 h
      obtain ⟨rfl, rfl⟩ := by simpa using he
      simp [ih hr]

theorem cutFirst?_append {c : Char} {s : List Char} (hs : c ∉ s) (rest : List Char) :
    cutFirst? c (s ++ c :: rest) = some (s, rest) := by
  induction s with
  | nil => simp [cutFirst?]
  | cons d s ih =>
    rw [List.mem_cons, not_or] at hs
    simp [cutFirst?, Ne.symm hs.1, ih hs.2]

/-- The text before and after the last occurrence of a character. -/
def cutLast? (c : Char) (s : List Char) : Option (List Char × List Char) :=
  (cutFirst? c s.reverse).map fun (after, before) => (before.reverse, after.reverse)

/-- The nonempty pieces between white space. -/
def words (s : List Char) : List (List Char) :=
  (splitAt isBlank s).filter (!·.isEmpty)

/-- A line loses one carriage return at its end. -/
def dropReturn (line : List Char) : List Char :=
  match line.reverse with
  | '\r' :: rest => rest.reverse
  | _ => line

/-- Lines end at a line feed, with or without a carriage return before it. Text after the last
line feed is a line of its own if there is any, and keeps a carriage return at its end. -/
def lines (s : List Char) : List (List Char) :=
  let pieces := splitAt (· == '\n') s
  pieces.dropLast.map dropReturn ++ (pieces.getLast?.toList.filter (!·.isEmpty))

/-! ## Trimming -/

/-- Without the characters of a class at its end. -/
def dropEndWhile (p : Char → Bool) (s : List Char) : List Char :=
  (s.reverse.dropWhile p).reverse

/-- Without white space at both ends. -/
def trim (s : List Char) : List Char :=
  dropEndWhile isBlank (s.dropWhile isBlank)

/-! ## Numbers -/

/-- The digit that a character stands for. -/
def digit? (c : Char) : Option Nat :=
  if '0' ≤ c ∧ c ≤ '9' then some (c.toNat - '0'.toNat) else none

/-- The value of a nonempty run of decimal digits. -/
def digits? : List Char → Option Nat
  | [] => none
  | c :: rest => do
    let first ← digit? c
    rest.foldlM (fun n d => do return 10 * n + (← digit? d)) first

/-- The digit that a character stands for in bases above ten, up to sixteen. -/
def hexDigit? (c : Char) : Option Nat :=
  if '0' ≤ c ∧ c ≤ '9' then some (c.toNat - '0'.toNat)
  else if 'a' ≤ c ∧ c ≤ 'f' then some (10 + c.toNat - 'a'.toNat)
  else if 'A' ≤ c ∧ c ≤ 'F' then some (10 + c.toNat - 'A'.toNat)
  else none

/-- The value of a run of digits in a base up to sixteen. -/
def inBase? (base : Nat) (s : List Char) : Option Nat :=
  s.foldlM (fun n c => do
    let d ← hexDigit? c
    if d < base then return base * n + d else none) 0

/-- A natural number below a bound: digits, with or without a plus sign. -/
def natBelow? (bound : Nat) (s : List Char) : Option Nat := do
  let n ← digits? (if s.head? = some '+' then s.tail else s)
  if n < bound then some n else none

/-- An integer that fits in a signed word of 64 bits: digits, with or without a sign. -/
def int64? : List Char → Option Int64
  | '-' :: rest => do
    let n ← digits? rest
    if n ≤ Nat.pow 2 63 then some (Int64.ofInt (-n)) else none
  | s => (natBelow? (Nat.pow 2 63) s).map fun n => Int64.ofNat n

/-- A natural number that fits in a word of 32 bits. -/
def uint32? (s : List Char) : Option UInt32 :=
  (natBelow? UInt32.size s).map fun n => UInt32.ofNat n

/-! ## Strings -/

/-- The pieces of a text between separators. -/
def piecesOf (sep : Char → Bool) (s : String) : List String :=
  (splitAt sep s.toList).map String.ofList

/-- A text without a character at its start, however often it stands there. -/
def withoutLeading (c : Char) (s : String) : String :=
  String.ofList (s.toList.dropWhile (· == c))

/-- A text without a character at both ends. -/
def withoutBoth (c : Char) (s : String) : String :=
  String.ofList (dropEndWhile (· == c) (s.toList.dropWhile (· == c)))

end ComputerHost.Text
