/-
# The compact text of JSON values

A value is shown without blanks, the keys of an object in the order of their bytes, characters
outside ASCII as they are.
-/

import WeightLink.Decimal.Shortest
import WeightLink.Json.Value

namespace WeightLink
namespace Json

/-- The text of a binary64 number: the shortest digits that read back and at least
one fraction digit.  A number of `10 ^ 15` or more, or below `10 ^ -4`, has one digit
before the point and an exponent of at least two digits. -/
def Number.layout (d : Decimal) : String :=
  let digits := String.ofList d.digits
  let count : Int := d.digits.length
  if 0 < d.point ∧ d.point ≤ 15 then
    if count ≤ d.point then
      digits ++ String.ofList (List.replicate (d.point - count).toNat '0') ++ ".0"
    else
      String.ofList (d.digits.take d.point.toNat) ++ "."
        ++ String.ofList (d.digits.drop d.point.toNat)
  else if -4 < d.point ∧ d.point ≤ 0 then
    "0." ++ String.ofList (List.replicate (-d.point).toNat '0') ++ digits
  else
    let fraction := if count = 1 then "" else "." ++ String.ofList (d.digits.drop 1)
    let exponent := d.point - 1
    let sign := if exponent < 0 then "-" else "+"
    let size := toString exponent.natAbs
    let size := if size.length < 2 then "0" ++ size else size
    String.ofList (d.digits.take 1) ++ fraction ++ "e" ++ sign ++ size

/-- The text of a number. -/
def Number.text : Number → String
  | .unsigned n => toString n.toNat
  | .signed n => toString n.toInt
  | .binary64 negative magnitude =>
    (if negative then "-" else "") ++ Number.layout magnitude.shortest

/-- A character inside a string literal.  The quote, the backslash and the control
characters below the blank are escaped, and nothing else is. -/
def escape (c : Char) : String :=
  match c with
  | '"' => "\\\""
  | '\\' => "\\\\"
  | '\n' => "\\n"
  | '\r' => "\\r"
  | '\t' => "\\t"
  | '\x08' => "\\b"
  | '\x0c' => "\\f"
  | c =>
    if c.toNat < 32 then
      "\\u00" ++ String.ofList [Nat.digitChar (c.toNat / 16), Nat.digitChar (c.toNat % 16)]
    else c.toString

/-- A string literal. -/
def quote (s : String) : String :=
  "\"" ++ String.join (s.toList.map escape) ++ "\""

mutual

/-- The compact text of a value. -/
def text : Json → String
  | null => "null"
  | bool b => if b then "true" else "false"
  | number n => n.text
  | string s => quote s
  | array items => "[" ++ String.intercalate "," (itemTexts items) ++ "]"
  | object fields => "\x7b" ++ String.intercalate "," (fieldTexts fields) ++ "\x7d"

/-- The texts of the items of an array. -/
def itemTexts : List Json → List String
  | [] => []
  | v :: rest => text v :: itemTexts rest

/-- The texts of the fields of an object. -/
def fieldTexts : List (String × Json) → List String
  | [] => []
  | (k, v) :: rest => (quote k ++ ":" ++ text v) :: fieldTexts rest

end

end Json
end WeightLink
