/-
# Numerals that name their base

A numeral is read from the front of a text: blanks, a sign, and digits whose base
shows in their first characters.  `0x` in front of a hexadecimal digit makes it 16,
any other `0` makes it 8, and everything else makes it 10.  Reading stops at the first
character that is no digit of the base, so `0x` alone is the numeral `0` with `x` left
over.  The magnitude is the number that the digits write, however long they are.
-/

namespace WeightLink

/-- A numeral and the text behind it. -/
structure Numeral where
  negative : Bool
  magnitude : Nat
  rest : List Char
  deriving DecidableEq, Repr

namespace Numeral

/-- The blanks that may stand in front. -/
def isBlank (c : Char) : Bool := c = ' ' || ('\t' ≤ c && c ≤ '\r')

/-- The value of a digit of some base up to 36. -/
def digit? (base : Nat) (c : Char) : Option Nat :=
  let value :=
    if '0' ≤ c ∧ c ≤ '9' then c.toNat - '0'.toNat
    else if 'a' ≤ c ∧ c ≤ 'z' then c.toNat - 'a'.toNat + 10
    else if 'A' ≤ c ∧ c ≤ 'Z' then c.toNat - 'A'.toNat + 10
    else 36
  if value < base then some value else none

/-- The sign and what is behind it. -/
def sign : List Char → Bool × List Char
  | '-' :: r => (true, r)
  | '+' :: r => (false, r)
  | r => (false, r)

/-- The base of the digits in front, and the digits without their mark. -/
def base (cs : List Char) : Nat × List Char :=
  match cs with
  | '0' :: x :: d :: r =>
    if (x = 'x' ∨ x = 'X') ∧ (digit? 16 d).isSome then (16, d :: r) else (8, cs)
  | '0' :: _ => (8, cs)
  | _ => (10, cs)

/-- The values of the digits in front, and what is behind them. -/
def digits (base : Nat) : List Char → List Nat × List Char
  | [] => ([], [])
  | c :: r =>
    match digit? base c with
    | some d => (d :: (digits base r).1, (digits base r).2)
    | none => ([], c :: r)

/-- The number that digits write. -/
def value (base : Nat) (ds : List Nat) : Nat := ds.foldl (fun n d => base * n + d) 0

/-- The numeral in front of a text, if there is one. -/
def read (cs : List Char) : Option Numeral :=
  let (negative, cs) := sign (cs.dropWhile isBlank)
  let (base, cs) := base cs
  match digits base cs with
  | ([], _) => none
  | (ds, rest) => some ⟨negative, value base ds, rest⟩

/-- The numeral as a 64-bit word.  A magnitude of more than 64 bits has none; the sign
negates modulo `2 ^ 64`. -/
def word64? (n : Numeral) : Option UInt64 :=
  if n.magnitude ≤ 0xFFFFFFFFFFFFFFFF then
    some (if n.negative then -UInt64.ofNat n.magnitude else UInt64.ofNat n.magnitude)
  else none

end Numeral
end WeightLink
