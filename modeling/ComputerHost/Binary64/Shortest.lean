import ComputerHost.Binary64

/-! # The shortest decimal text of a number

A number is written with the fewest digits that read back as it, the nearest such decimal if there
are several, and the upper one of two that are equally near. The text is positional, however large or
small the number: no exponent, and no point after an integer.
-/

namespace ComputerHost.Binary64

/-- A nonnegative decimal `digits * 10 ^ exponent`. -/
structure Decimal where
  digits : Nat
  exponent : Int
deriving DecidableEq, Repr

/-- A positive magnitude with the interval of decimals that read back as it. All three are
integers over one denominator: the interval is from `low / unit` to `high / unit`, and its ends
belong to it if `closed`. -/
structure Span where
  low : Nat
  value : Nat
  high : Nat
  unit : Nat
  closed : Bool
deriving Repr

/-- The interval of a finite number other than zero. Halfway to each neighbour the number is still
read back if its significand is even; below a power of two the neighbour is half as far. -/
def span (x : Binary64) : Span :=
  let m := x.significand
  let narrow := x.fractionField = 0 ∧ 1 < x.exponentField
  let up := if 1075 ≤ x.scale then Nat.pow 2 (x.scale - 1075) else 1
  let down := if 1075 ≤ x.scale then 1 else Nat.pow 2 (1075 - x.scale)
  { low := (4 * m - (if narrow then 1 else 2)) * up
    value := 4 * m * up
    high := (4 * m + 2) * up
    unit := 4 * down
    closed := m % 2 = 0 }

/-- Is `n / d` inside the interval? -/
def Span.holds (s : Span) (n d : Nat) : Bool :=
  if s.closed then s.low * d ≤ n * s.unit && n * s.unit ≤ s.high * d
  else s.low * d < n * s.unit && n * s.unit < s.high * d

/-- `10 ^ e` as a fraction. -/
def powTen (e : Int) : Nat × Nat :=
  if 0 ≤ e then (Nat.pow 10 e.toNat, 1) else (1, Nat.pow 10 (-e).toNat)

/-- The multiple of `10 ^ e` that reads back and is nearest, if one does. Only the two neighbours
of the value on that grid can be it. -/
def onGrid? (s : Span) (e : Int) : Option Decimal :=
  let (num, den) := powTen e
  let below := s.value * den / (s.unit * num)
  let rest := s.value * den % (s.unit * num)
  let belowFits := s.holds (below * num) den
  let aboveFits := s.holds ((below + 1) * num) den
  if belowFits && (!aboveFits || 2 * rest < s.unit * num) then some ⟨below, e⟩
  else if aboveFits then some ⟨below + 1, e⟩
  else none

/-- The first grid from `10 ^ e` downwards that has a decimal which reads back. -/
def firstGrid (s : Span) (e : Int) : Nat → Decimal
  | 0 => ⟨0, 0⟩
  | fuel + 1 =>
    match onGrid? s e with
    | some d => d
    | none => firstGrid s (e - 1) fuel

/-- The number of decimal digits of a natural number. -/
def digitCount (n : Nat) : Nat :=
  (Nat.toDigits 10 n).length

/-- An exponent of ten that is above the value and less than two places away from it. -/
def ceilingExponent (s : Span) : Int :=
  let whole := s.value / s.unit
  if whole = 0 then 1 - (digitCount (s.unit / s.value) : Int) else digitCount whole

/-- The shortest decimal of a finite number other than zero. Seventeen digits always suffice, and
the search starts at most two places above the first one. -/
def shortest (x : Binary64) : Decimal :=
  let s := x.span
  firstGrid s (ceilingExponent s) 20

/-- The positional text of a decimal. -/
def Decimal.text (d : Decimal) : String :=
  if 0 ≤ d.exponent then
    String.ofList (Nat.toDigits 10 d.digits ++ List.replicate d.exponent.toNat '0')
  else
    let places := (-d.exponent).toNat
    let digits := Nat.toDigits 10 d.digits
    let padded := List.replicate (places + 1 - digits.length) '0' ++ digits
    let whole := padded.take (padded.length - places)
    String.ofList (whole ++ '.' :: padded.drop (padded.length - places))

/-- The text of a number. -/
def text (x : Binary64) : String :=
  if x.isNaN then "NaN"
  else
    let sign := if x.negative then "-" else ""
    sign ++ (if x.isInfinite then "inf" else if x.isZero then "0" else x.shortest.text)

end ComputerHost.Binary64
