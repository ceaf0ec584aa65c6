/-
# JSON values

A configuration is a JSON value.  An integer of 64 bits is kept apart from all other numbers,
because a count, an address or a hash has to be one, and it is of one of two types: a setting that
is a number has to be of the unsigned one.  An integer that a text writes without a sign is
unsigned, and one with a sign is signed, also if it is `-0`.

How a text is read, how a value is shown, and what is said about a value of a wrong type is up to
the library of the format (`Json.Library`).  What is read from a configuration depends on the values
alone.
-/

import WeightLink.Decimal.Binary64
import WeightLink.Word

namespace WeightLink

/-- A JSON number. -/
inductive Json.Number where
  | unsigned (n : UInt64)
  | signed (n : Int64)
  /-- Any other number, rounded to binary64. -/
  | binary64 (negative : Bool) (magnitude : Binary64)
  deriving DecidableEq, Repr

/-- A JSON value.  The keys of an object are distinct and in ascending order. -/
inductive Json where
  | null
  | bool (b : Bool)
  | number (n : Json.Number)
  | string (s : String)
  | array (items : List Json)
  | object (fields : List (String × Json))
  deriving Repr

namespace Json

/-- The value stored under a key. -/
def get? (key : String) : List (String × Json) → Option Json
  | [] => none
  | (k, v) :: rest => if k = key then some v else get? key rest

/-- What a program leaves to the library of the format. -/
structure Library where
  /-- The value that a text holds, or what is wrong with the text. -/
  parse : Bytes → Except String Json
  /-- The text of a value. -/
  text : Json → String
  /-- What is said about a value where a text has to be. -/
  notText : Json → String
  /-- What is said about a value in which a key is looked up and that is no object. -/
  notObject : Json → String

end Json
end WeightLink
