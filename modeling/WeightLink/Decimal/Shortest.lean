/-
# The shortest decimal that reads back

`Binary64.shortest` finds the fewest decimal digits that determine a value: for
one, two, … seventeen digits it looks at the two neighbours of the value on that
decimal grid and takes the first grid with a neighbour that rounds back to the
value, and of two such neighbours the nearer.  Where the point goes, and when an
exponent is written, is the choice of whoever prints (`Json.Number.text`).
-/

import WeightLink.Decimal.Binary64

namespace WeightLink

/-- The number `0.d₁d₂… · 10 ^ point` with the given digits. -/
structure Decimal where
  digits : List Char
  point : Int
  deriving DecidableEq, Repr

namespace Binary64

/-- The least `p` with `n / d < 10 ^ p`, for `n / d` above `10 ^ -400`. -/
def decimalPoint (n d : Nat) : Int :=
  if d ≤ n then (toString (n / d)).length
  else
    let zeros := (List.range 400).find? fun j => decide (d ≤ n * Nat.pow 10 (j + 1))
    Int.negOfNat (zeros.getD 0)

/-- Four times the ends of the interval of numbers that round to the value, in
units, and whether the ends belong to it. -/
def interval (x : Binary64) : Nat × Nat × Bool :=
  let below := if x.mantissa = 1 <<< 52 ∧ x.scale ≠ 0 then 1 else 2
  ((4 * x.mantissa - below) <<< x.scale, (4 * x.mantissa + 2) <<< x.scale,
    x.mantissa % 2 = 0)

/-- Whether `n / d` units round to the value. -/
def readsBack (x : Binary64) (n d : Nat) : Bool :=
  let (low, high, closed) := x.interval
  if closed then low * d ≤ 4 * n ∧ 4 * n ≤ high * d else low * d < 4 * n ∧ 4 * n < high * d

/-- The neighbour with `count` digits that reads back, if there is one. -/
def onGrid (x : Binary64) (point : Int) (count : Nat) : Option Nat :=
  let down := (Int.ofNat count - point).toNat
  let up := (point - Int.ofNat count).toNat
  -- the value is `n / d` steps of the grid
  let n := x.units * Nat.pow 10 down
  let d := unitsPerOne * Nat.pow 10 up
  let low := n / d
  let fits := fun c => x.readsBack (c * d) (Nat.pow 10 down)
  match fits low, fits (low + 1) with
  | true, true => some (if n * 2 ≤ (2 * low + 1) * d then low else low + 1)
  | true, false => some low
  | false, true => some (low + 1)
  | false, false => none

/-- The fewest digits that read back. -/
def shortest (x : Binary64) : Decimal :=
  if x.mantissa = 0 then ⟨['0'], 1⟩
  else
    let point := decimalPoint x.units unitsPerOne
    let counts := (List.range 17).map (· + 1)
    match counts.findSome? fun count => (x.onGrid point count).map fun c => (c, count) with
    | none => ⟨['0'], 1⟩
    | some (c, count) =>
      let text := (toString c).toList
      ⟨(text.reverse.dropWhile (· == '0')).reverse, point + (text.length - Int.ofNat count)⟩

end Binary64
end WeightLink
