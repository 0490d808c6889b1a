import ComputerHost.Text
import ComputerHost.TomlTree.Basic

/-! # Words

A word is a value that is written without quotes or brackets: a truth value, an integer, a float, a date
or a time. Each function here judges a whole word.
-/

namespace ComputerHost.TomlTree

/-- The digits of a run in which single underscores may stand between digits. -/
def ungroup? (isDigit : Char → Bool) (s : List Char) : Option (List Char) :=
  let groups := Text.splitAt (· == '_') s
  if groups.all fun group => !group.isEmpty && group.all isDigit then some groups.flatten else none

/-- A sign, if there is one, and what follows: whether it is a minus. -/
def sign : List Char → Bool × List Char
  | '-' :: rest => (true, rest)
  | '+' :: rest => (false, rest)
  | s => (false, s)

/-- Decimal digits that do not begin with a superfluous zero. -/
def whole? (s : List Char) : Option (List Char) := do
  let digits ← ungroup? Char.isDigit s
  if digits.head? = some '0' && digits.length ≠ 1 then none else return digits

/-! ## Integers -/

/-- An integer in a base that is written in front. -/
def inBase? (base : Nat) (s : List Char) : Option Int := do
  let digits ← ungroup? (fun c => (Text.hexDigit? c).any (· < base)) s
  let n ← Text.inBase? base digits
  if n < Nat.pow 2 63 then return n else none

/-- An integer. It fits in a signed word of 64 bits. -/
def integer? : List Char → Option Int
  | '0' :: 'x' :: rest => inBase? 16 rest
  | '0' :: 'o' :: rest => inBase? 8 rest
  | '0' :: 'b' :: rest => inBase? 2 rest
  | s => do
    let (negative, s) := sign s
    let n ← Text.inBase? 10 (← whole? s)
    if negative then if n ≤ Nat.pow 2 63 then return -(n : Int) else none
    else if n < Nat.pow 2 63 then return n else none

/-! ## Floats -/

/-- Is `m * 10 ^ e` too large for a number in binary64? It is if it is not below the middle between
the largest number and the power of two after it. -/
def overflows (m : Nat) (e : Int) : Bool :=
  let limit := Nat.pow 2 1024 - Nat.pow 2 970
  if m = 0 then false
  else if 0 ≤ e then if 400 < e then true else limit ≤ m * Nat.pow 10 e.toNat
  else
    let places := (-e).toNat
    if (Nat.toDigits 10 m).length ≤ places then false else limit * Nat.pow 10 places ≤ m

/-- The digits after the point. -/
def fraction? : Option (List Char) → Option (List Char)
  | none => some []
  | some s => ungroup? Char.isDigit s

def exponent? : Option (List Char) → Option Int
  | none => some 0
  | some s => do
    let (negative, s) := sign s
    let n ← Text.inBase? 10 (← ungroup? Char.isDigit s)
    return if negative then -(n : Int) else n

/-- The text before and after the mark of an exponent. -/
def cutExponent (s : List Char) : List Char × Option (List Char) :=
  match Text.cutFirst? 'e' s with
  | some (before, after) => (before, some after)
  | none =>
    match Text.cutFirst? 'E' s with
    | some (before, after) => (before, some after)
    | none => (s, none)

/-- Is a word a float? It has a point or an exponent, and does not overflow upwards. -/
def isFloat (s : List Char) : Bool :=
  let (negative, s) := sign s
  if s = ['i', 'n', 'f'] ∨ s = ['n', 'a', 'n'] then true
  else
    let (mantissa, exponent) := cutExponent s
    let (integral, fraction) := match Text.cutFirst? '.' mantissa with
      | some (before, after) => (before, some after)
      | none => (mantissa, none)
    match whole? integral, fraction? fraction, exponent? exponent with
    | some digits, some places, some e =>
      let m := (Text.inBase? 10 (digits ++ places)).getD 0
      (fraction.isSome || exponent.isSome) && (negative || !overflows m (e - places.length))
    | _, _, _ => false

/-! ## Dates and times -/

/-- Two digits for a number within bounds. -/
def isPair (a b : Char) (low high : Nat) : Bool :=
  match Text.digits? [a, b] with
  | some n => low ≤ n && n ≤ high
  | none => false

def daysIn (year month : Nat) : Nat :=
  if month = 2 then
    if year % 4 = 0 ∧ (year % 100 ≠ 0 ∨ year % 400 = 0) then 29 else 28
  else if month ∈ [4, 6, 9, 11] then 30
  else 31

/-- Four digits for the year, two for the month, two for the day. -/
def isDate : List Char → Bool
  | [y₁, y₂, y₃, y₄, '-', m₁, m₂, '-', d₁, d₂] =>
    match Text.digits? [y₁, y₂, y₃, y₄], Text.digits? [m₁, m₂] with
    | some year, some month =>
      1 ≤ month && month ≤ 12 && isPair d₁ d₂ 1 (daysIn year month)
    | _, _ => false
  | _ => false

/-- What may follow the seconds: digits after a point. The rest is the offset. -/
def dropFraction : List Char → Option (List Char)
  | '.' :: rest =>
    if (rest.takeWhile Char.isDigit).isEmpty then none else some (rest.dropWhile Char.isDigit)
  | s => some s

/-- The distance from universal time. -/
def isOffset : List Char → Bool
  | ['Z'] | ['z'] => true
  | [s, h₁, h₂, ':', m₁, m₂] => (s == '+' || s == '-') && isPair h₁ h₂ 0 23 && isPair m₁ m₂ 0 59
  | _ => false

/-- A time of day, and whether an offset may follow it. Seconds go up to sixty. -/
def isTime (withOffset : Bool) : List Char → Bool
  | h₁ :: h₂ :: ':' :: m₁ :: m₂ :: ':' :: s₁ :: s₂ :: rest =>
    isPair h₁ h₂ 0 23 && isPair m₁ m₂ 0 59 && isPair s₁ s₂ 0 60 &&
      match dropFraction rest with
      | some [] => true
      | some offset => withOffset && isOffset offset
      | none => false
  | _ => false

/-- A date with a time behind the letter T, a date, or a time. -/
def isMoment (s : List Char) : Bool :=
  let date := s.take 10
  match s.drop 10 with
  | [] => isDate date || isTime false s
  | c :: time =>
    (isDate date && (c == 'T' || c == 't') && isTime true time) || isTime false s

/-! ## Words -/

/-- The value of a word. -/
def word? (s : List Char) : Option TomlTree :=
  if s = "true".toList then some (.boolean true)
  else if s = "false".toList then some (.boolean false)
  else
    match integer? s with
    | some i => some (.integer i)
    | none =>
      if isFloat s then some (.float (String.ofList s))
      else if isMoment s then some (.moment (String.ofList s))
      else none

end ComputerHost.TomlTree
