/-
# Decoding a block by its definition

The weight of a code is its level, scaled by the exponent of the block and negated
when the sign bit is set.  This is the reference that the peripheral
(`Peripheral.drive`) and the embedded reader (`Embedded.decode`) are held against.
-/

import WeightLink.Block.Packing

namespace WeightLink

/-- The weight that a code stands for under a header. -/
def Code.weight (h : Header) (c : UInt8) : Int8 :=
  let magnitude := Dialect.scale (Dialect.level h.dialect (index c)) (UInt8.ofNat h.exponent)
  Int8.ofInt (if negative c then -magnitude.toNat else magnitude.toNat)

/-- The weights of a block. -/
def Block.weights (b : Block) : Values :=
  Vector.ofFn fun i => Code.weight b.header (b.code i)

end WeightLink
