/-
# Sources of bytes

A source gives out bytes by position, the first byte of the blob at position `0`.
Reading is an action: it may take time, fail, and change what the source remembers.
A reader of blobs works over any source.
-/

import WeightLink.Action

namespace WeightLink

/-- States of type `σ` give out bytes. -/
class Source (σ : Type) where
  /-- The name of the source in the log. -/
  name : String
  /-- How many bytes there are. -/
  size : σ → Nat
  /-- Reads `count` bytes from a position onwards. -/
  read : (position count : Nat) → Action σ (Vector UInt8 count)

namespace Source

variable {σ : Type} [Source σ]

/-- Reads the word at a position. -/
def readWord (position : Nat) : Action σ UInt32 := do
  let b ← Source.read position 4
  return Word.ofBytes b[0] b[1] b[2] b[3]

end Source
end WeightLink
