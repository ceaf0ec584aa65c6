/-
# Reading JSON

`Json.parse` reads one value with blanks around it, and nothing else.  The text is UTF-8, may start
with a byte order mark, and ends at its first NUL.  The readers below take a list of characters and
give back what they read and what is left.  The two that call each other for nested values count
their nesting: a value takes at least one character, so twice the length of the text is never
reached.

With the compact text of values this makes a library (`Json.plain`) for a program that runs.
-/

import WeightLink.Json.Text

namespace WeightLink
namespace Json
namespace Parser

/-- The four blank characters. -/
def isBlank (c : Char) : Bool := c = ' ' || c = '\t' || c = '\n' || c = '\r'

/-- What is left after the blanks in front. -/
def skipBlanks (cs : List Char) : List Char := cs.dropWhile isBlank

/-- The value of one hexadecimal digit. -/
def hexValue? (c : Char) : Option Nat :=
  if '0' ≤ c ∧ c ≤ '9' then some (c.toNat - '0'.toNat)
  else if 'a' ≤ c ∧ c ≤ 'f' then some (c.toNat - 'a'.toNat + 10)
  else if 'A' ≤ c ∧ c ≤ 'F' then some (c.toNat - 'A'.toNat + 10)
  else none

/-- The 16-bit unit written by four hexadecimal digits. -/
def unit? (a b c d : Char) : Option Nat := do
  let a ← hexValue? a
  let b ← hexValue? b
  let c ← hexValue? c
  let d ← hexValue? d
  return ((a * 16 + b) * 16 + c) * 16 + d

/-- The character of an escape of two characters. -/
def shortEscape? : Char → Option Char
  | '"' => some '"'
  | '\\' => some '\\'
  | '/' => some '/'
  | 'b' => some '\x08'
  | 'f' => some '\x0c'
  | 'n' => some '\n'
  | 'r' => some '\r'
  | 't' => some '\t'
  | _ => none

/-- A string literal after its opening quote.  Control characters have to be escaped,
and two units of a surrogate pair make one character; half a pair is refused. -/
def stringRest : List Char → Option (List Char × List Char)
  | [] => none
  | '"' :: r => some ([], r)
  | '\\' :: 'u' :: a :: b :: c :: d :: r => do
    let u ← unit? a b c d
    if 0xD800 ≤ u ∧ u ≤ 0xDBFF then
      match r with
      | '\\' :: 'u' :: a' :: b' :: c' :: d' :: r' =>
        let v ← unit? a' b' c' d'
        if 0xDC00 ≤ v ∧ v ≤ 0xDFFF then
          let (s, rest) ← stringRest r'
          return (Char.ofNat (0x10000 + (u - 0xD800) * 1024 + (v - 0xDC00)) :: s, rest)
        else none
      | _ => none
    else if 0xDC00 ≤ u ∧ u ≤ 0xDFFF then none
    else
      let (s, rest) ← stringRest r
      return (Char.ofNat u :: s, rest)
  | '\\' :: c :: r => do
    let c ← shortEscape? c
    let (s, rest) ← stringRest r
    return (c :: s, rest)
  | c :: r =>
    if c.toNat < 32 ∨ c = '\\' then none
    else do
      let (s, rest) ← stringRest r
      return (c :: s, rest)

/-- The natural number that decimal digits write. -/
def natural (digits : List Char) : Nat :=
  digits.foldl (fun n c => 10 * n + (c.toNat - '0'.toNat)) 0

/-- The binary64 number nearest to `n · 10 ^ e`, unless it is too large for one. -/
def binary64? (n : Nat) (e : Int) : Option Binary64 :=
  let point := (toString n).length + e
  if n = 0 ∨ point < -400 then some ⟨0, 0⟩
  else if 400 < point then none
  else
    let x := Binary64.ofRatio (n * Nat.pow 10 e.toNat) (Nat.pow 10 (-e).toNat)
    if x.inRange then some x else none

/-- An exponent, when the text goes on with one. -/
def exponent? : List Char → Option (Option Int × List Char)
  | c :: r =>
    if c = 'e' ∨ c = 'E' then
      let (negative, r) := match r with
        | '-' :: r => (true, r)
        | '+' :: r => (false, r)
        | r => (false, r)
      let digits := r.takeWhile Char.isDigit
      if digits = [] then none
      else
        let size := Int.ofNat (natural digits)
        some (some (if negative then -size else size), r.dropWhile Char.isDigit)
    else some (none, c :: r)
  | [] => some (none, [])

/-- A fraction, when the text goes on with one. -/
def fraction? : List Char → Option (Option (List Char) × List Char)
  | '.' :: r =>
    let digits := r.takeWhile Char.isDigit
    if digits = [] then none else some (some digits, r.dropWhile Char.isDigit)
  | r => some (none, r)

/-- The number with the given parts.  An integer with a sign is signed, and one without is
unsigned, if it fits. -/
def numberOf (negative : Bool) (whole : List Char) (fraction : Option (List Char))
    (exponent : Option Int) : Option Number :=
  let n := natural whole
  let fits := if negative then n ≤ 0x8000000000000000 else n ≤ 0xFFFFFFFFFFFFFFFF
  if fraction = none ∧ exponent = none ∧ fits then
    some (if negative then .signed (Int64.ofInt (-n)) else .unsigned (UInt64.ofNat n))
  else
    let places := fraction.getD []
    (binary64? (natural (whole ++ places)) (exponent.getD 0 - Int.ofNat places.length)).map
      (Number.binary64 negative)

/-- A number literal.  A whole part of several digits does not start with `0`. -/
def number (cs : List Char) : Option (Json × List Char) := do
  let (negative, r) := match cs with
    | '-' :: r => (true, r)
    | r => (false, r)
  let whole := r.takeWhile Char.isDigit
  if whole = [] ∨ (whole.head? = some '0' ∧ whole.length ≠ 1) then none
  else
    let (fraction, r) ← fraction? (r.dropWhile Char.isDigit)
    let (exponent, r) ← exponent? r
    let n ← numberOf negative whole fraction exponent
    return (.number n, r)

/-- A key and the colon after it. -/
def key (cs : List Char) : Option (String × List Char) :=
  match skipBlanks cs with
  | '"' :: r => do
    let (k, r) ← stringRest r
    match skipBlanks r with
    | ':' :: r => return (String.ofList k, r)
    | _ => none
  | _ => none

/-- Stores a value under a key: in its place by the order of keys, instead of a value that the key
had. -/
def put (key : String) (value : Json) : List (String × Json) → List (String × Json)
  | [] => [(key, value)]
  | (k, v) :: rest =>
    if key < k then (key, value) :: (k, v) :: rest
    else if k = key then (key, value) :: rest
    else (k, v) :: put key value rest

theorem get?_put_self (key : String) (value : Json) (fields : List (String × Json)) :
    get? key (put key value fields) = some value := by
  induction fields with
  | nil => simp [put, get?]
  | cons f rest ih =>
    unfold put
    split
    · simp [get?]
    · split <;> simp_all [get?]

mutual

/-- One value. -/
def value : Nat → List Char → Option (Json × List Char)
  | 0, _ => none
  | fuel + 1, cs =>
    match skipBlanks cs with
    | 'n' :: 'u' :: 'l' :: 'l' :: r => some (.null, r)
    | 't' :: 'r' :: 'u' :: 'e' :: r => some (.bool true, r)
    | 'f' :: 'a' :: 'l' :: 's' :: 'e' :: r => some (.bool false, r)
    | '"' :: r => do
      let (s, r) ← stringRest r
      return (.string (String.ofList s), r)
    | '[' :: r =>
      match skipBlanks r with
      | ']' :: r => some (.array [], r)
      | _ => do
        let (items, r) ← items fuel r
        return (.array items, r)
    | '\x7b' :: r =>
      match skipBlanks r with
      | '\x7d' :: r => some (.object [], r)
      | _ => do
        let (fields, r) ← fields fuel [] r
        return (.object fields, r)
    | r => number r

/-- The items of an array and its closing bracket. -/
def items : Nat → List Char → Option (List Json × List Char)
  | 0, _ => none
  | fuel + 1, cs => do
    let (v, r) ← value fuel cs
    match skipBlanks r with
    | ',' :: r =>
      let (vs, r) ← items fuel r
      return (v :: vs, r)
    | ']' :: r => return ([v], r)
    | _ => none

/-- The fields of an object and its closing brace, stored over those read before.
Of two values under one key the later one stays. -/
def fields : Nat → List (String × Json) → List Char → Option (List (String × Json) × List Char)
  | 0, _, _ => none
  | fuel + 1, before, cs => do
    let (k, r) ← key cs
    let (v, r) ← value fuel r
    let stored := put k v before
    match skipBlanks r with
    | ',' :: r => fields fuel stored r
    | '\x7d' :: r => return (stored, r)
    | _ => none

end

end Parser

/-- The characters of a text: up to its first NUL, and without a byte order mark. -/
def characters (bytes : Bytes) : Option (List Char) :=
  (String.fromUTF8? ⟨bytes.takeWhile (· ≠ 0)⟩).map fun s =>
    match s.toList with
    | '\uFEFF' :: cs => cs
    | cs => cs

/-- The value that a text holds, if it holds exactly one. -/
def parse (bytes : Bytes) : Option Json := do
  let cs ← characters bytes
  let (v, r) ← Parser.value (2 * cs.length + 2) cs
  if Parser.skipBlanks r = [] then return v else none

/-- The type of a value in a message. -/
def typeName : Json → String
  | null => "null"
  | bool _ => "boolean"
  | number _ => "number"
  | string _ => "string"
  | array _ => "array"
  | object _ => "object"

/-- A library that reads texts by `parse` and shows values by `text`. -/
def plain : Library where
  parse bytes := (parse bytes).elim (.error "parse error") .ok
  text := text
  notText v := "type must be string, but is " ++ v.typeName
  notObject v := "cannot use value() with " ++ v.typeName

end Json
end WeightLink
