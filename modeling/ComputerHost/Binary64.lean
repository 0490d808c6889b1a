/-! # Numbers in binary64

A number is kept as its word of 64 bits: one bit of sign, eleven of exponent, fifty-two of fraction.
Nothing here computes with numbers; they are classified, compared, turned into integers and printed,
and all of that is exact arithmetic on the parts of the word.
-/

namespace ComputerHost

/-- A floating-point number, as the word that stands for it. -/
structure Binary64 where
  bits : UInt64
deriving DecidableEq, Repr, Inhabited

namespace Binary64

/-- Is the sign bit up? -/
def negative (x : Binary64) : Bool :=
  Nat.pow 2 63 ≤ x.bits.toNat

/-- The eleven bits of the exponent field. -/
def exponentField (x : Binary64) : Nat :=
  x.bits.toNat / Nat.pow 2 52 % Nat.pow 2 11

/-- The fifty-two bits of the fraction field. -/
def fractionField (x : Binary64) : Nat :=
  x.bits.toNat % Nat.pow 2 52

/-- The largest exponent field with a fraction stands for no number. -/
def isNaN (x : Binary64) : Bool :=
  x.exponentField == 2047 && x.fractionField != 0

/-- The largest exponent field without a fraction stands for an infinity. -/
def isInfinite (x : Binary64) : Bool :=
  x.exponentField == 2047 && x.fractionField == 0

/-- Plus zero and minus zero. -/
def isZero (x : Binary64) : Bool :=
  x.exponentField == 0 && x.fractionField == 0

/-- The integer `m` of a finite magnitude `m * 2 ^ (e - 1075)`. -/
def significand (x : Binary64) : Nat :=
  if x.exponentField = 0 then x.fractionField else Nat.pow 2 52 + x.fractionField

/-- The exponent `e` of a finite magnitude `m * 2 ^ (e - 1075)`. It is at least one. -/
def scale (x : Binary64) : Nat :=
  max 1 x.exponentField

/-- Equality of numbers: the two zeros are equal, and what is no number equals nothing, not even itself. -/
def equal (x y : Binary64) : Bool :=
  !x.isNaN && !y.isNaN && (x.bits == y.bits || (x.isZero && y.isZero))

/-- The integer that a finite number without a fractional part stands for. -/
def toInt? (x : Binary64) : Option Int :=
  if x.exponentField = 2047 then none
  else
    let magnitude? : Option Nat :=
      if 1075 ≤ x.scale then some (x.significand * Nat.pow 2 (x.scale - 1075))
      else
        let unit := Nat.pow 2 (1075 - x.scale)
        if x.significand % unit = 0 then some (x.significand / unit) else none
    magnitude?.map fun n => if x.negative then -(n : Int) else n

/-- The nearest integer that fits in a signed word of 64 bits. -/
def clampInt64 (i : Int) : Int64 :=
  Int64.ofInt (max Int64.minValue.toInt (min i Int64.maxValue.toInt))

/-- A number without a fractional part as a word, held to the word's range. -/
def toInt64? (x : Binary64) : Option Int64 :=
  x.toInt?.map clampInt64

end Binary64

end ComputerHost
