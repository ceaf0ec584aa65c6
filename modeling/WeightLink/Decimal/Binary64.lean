/-
# Finite non-negative binary64 values

A value is `mantissa · 2 ^ scale` units of `2 ^ -1074`, the smallest positive one.
`ofRatio` takes a quotient of natural numbers to the nearest such value, a tie
going to the even mantissa, so a mean of counters and a decimal literal of a
configuration are both rounded by the one rule.  Everything is arithmetic on
natural numbers; no machine floating point is involved.
-/

import WeightLink.Decimal.Rounding

namespace WeightLink

/-- A finite non-negative binary64 value: `mantissa · 2 ^ scale` units of `2 ^ -1074`.
The mantissa is below `2 ^ 53`, and at least `2 ^ 52` unless the scale is `0`. -/
structure Binary64 where
  mantissa : Nat
  scale : Nat
  deriving DecidableEq, Repr

namespace Binary64

/-- How many units of `2 ^ -1074` make one. -/
def unitsPerOne : Nat := 1 <<< 1074

instance : Inhabited Binary64 := ⟨⟨0, 0⟩⟩

/-- The value nearest to `n / d`. -/
def ofRatio (n d : Nat) : Binary64 :=
  let units := n * unitsPerOne
  let scale := (units / d).log2 - 52
  let mantissa := Rounding.halfEven units (d <<< scale)
  if mantissa = 1 <<< 53 then ⟨1 <<< 52, scale + 1⟩ else ⟨mantissa, scale⟩

/-- The value nearest to a natural number. -/
def ofNat (n : Nat) : Binary64 := ofRatio n 1

/-- The value as a number of units of `2 ^ -1074`. -/
def units (x : Binary64) : Nat := x.mantissa <<< x.scale

/-- The value nearest to the quotient of two values. -/
def div (x y : Binary64) : Binary64 := ofRatio x.units y.units

/-- The encoding: the biased exponent in bits 52 to 62, the mantissa without its
leading bit below.  A mantissa without a leading bit has the biased exponent `0`. -/
def toBits (x : Binary64) : UInt64 :=
  UInt64.ofNat <|
    if x.mantissa < 1 <<< 52 then x.mantissa
    else (x.scale + 1) <<< 52 + (x.mantissa - 1 <<< 52)

/-- Whether the value is below `2 ^ 1024`, that is, has an encoding. -/
def inRange (x : Binary64) : Bool := x.scale ≤ 2045

/-- The value with one fraction digit, a tie going to the even digit. -/
def toTenths (x : Binary64) : String :=
  let tenths := Rounding.halfEven (10 * x.units) unitsPerOne
  toString (tenths / 10) ++ "." ++ toString (tenths % 10)

end Binary64
end WeightLink
