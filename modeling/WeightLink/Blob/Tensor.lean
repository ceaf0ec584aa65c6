/-
# Decoded tensors

A tensor that was read holds whole blocks of weights, of which the reader asked for
the first `count`.  What follows them in the last block is whatever the block decodes
to.  A tensor is checked by the sum of its weights modulo `2 ^ 32`.
-/

import WeightLink.Blob.Format

namespace WeightLink
namespace Blob

/-- A decoded tensor. -/
structure Tensor where
  values : Array Int8
  /-- How many elements were asked for. -/
  count : UInt32
  blocks : UInt32
  deriving DecidableEq, Repr

/-- The sum of weights. -/
def sum (values : Array Int8) : Int := values.foldl (fun s v => s + v.toInt) 0

/-- The sum of weights modulo `2 ^ 32`, each one extended by its sign. -/
def hash (values : Array Int8) : UInt32 :=
  values.foldl (fun s v => s + v.toInt32.toUInt32) 0

namespace Tensor

/-- The elements that were asked for. -/
def elements (t : Tensor) : Array Int8 := t.values.take t.count.toNat

/-- The hash of the elements that were asked for. -/
def hash (t : Tensor) : UInt32 := Blob.hash t.elements

end Tensor
end Blob
end WeightLink
