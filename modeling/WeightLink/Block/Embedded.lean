/-
# The embedded reader's decoder

The decoder that runs on the target next to the weights.  It keeps a table of its
own and works byte by byte in signed 32-bit arithmetic, so that agreement with the
definition (`Block.weights`) says something about both.
-/

import WeightLink.Block.Basic
import WeightLink.Word

namespace WeightLink
namespace Embedded

/-- The levels of all dialects, one after the other, as they are linked into the reader. -/
def table : Bytes := #[
  0, 1, 2, 3, 4, 4, 4, 4,
  0, 1, 2, 3, 3, 3, 4, 4,
  0, 1, 2, 3, 4, 5, 5, 5,
  0, 1, 2, 3, 3, 4, 5, 5,
  0, 1, 2, 3, 4, 5, 6, 6,
  0, 1, 2, 3, 4, 4, 6, 6,
  0, 1, 2, 3, 4, 5, 6, 7,
  0, 1, 2, 3, 4, 5, 7, 7,
  0, 1, 2, 3, 4, 6, 7, 8,
  0, 1, 2, 3, 4, 6, 8, 8,
  0, 1, 2, 3, 4, 6, 8, 10,
  0, 1, 2, 3, 4, 6, 10, 10,
  0, 1, 2, 3, 4, 6, 10, 12,
  0, 1, 2, 3, 4, 6, 12, 12,
  0, 1, 2, 3, 4, 6, 12, 15,
  0, 1, 2, 3, 4, 6, 13, 15]

/-- The magnitude of a level under an exponent, in 32-bit arithmetic. -/
def magnitude (level : Int32) (exponent : UInt8) : Int32 :=
  let wide :=
    if exponent = 0 then (level + 1) >>> 1
    else if level = 0 then 0
    else if 8 < exponent then 127
    else level <<< (exponent - 1).toUInt32.toInt32
  if 127 < wide then 127 else wide

/-- The weight of a four-bit code. -/
def weight (dialect exponent code : UInt8) : Int8 :=
  let sign := (code >>> 3) &&& 1
  let level := table[8 * dialect.toNat + (code &&& 0x07).toNat]?.getD 0
  let size := magnitude level.toUInt32.toInt32 exponent
  if sign ≠ 0 then (-size).toInt8 else size.toInt8

/-- The two weights of a code byte. -/
def pair (dialect exponent byte : UInt8) : Int8 × Int8 :=
  (weight dialect exponent ((byte >>> 4) &&& 0x0F), weight dialect exponent (byte &&& 0x0F))

/-- The weights of a block: two for each of its sixteen code bytes. -/
def decode (b : Block) : Values :=
  let word := ((b.byte 0).toUInt16 <<< 8) ||| (b.byte 1).toUInt16
  let dialect := ((word >>> 12) &&& 0xF).toUInt8
  let exponent := ((word >>> 7) &&& 0x1F).toUInt8
  Vector.ofFn fun i =>
    let weights := pair dialect exponent (b.byte (2 + i.val / 2))
    if i.val % 2 = 0 then weights.1 else weights.2

end Embedded
end WeightLink
