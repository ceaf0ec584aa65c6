/-
# Fields of a block

`Block.fields` takes a block apart into dialect, exponent and 32 codes, and
`Fields.pack` puts one together.  A dialect or an exponent that does not fit its
bits is refused; of a code only the low four bits are stored.
-/

import WeightLink.Block.Dialect
import WeightLink.Fault

namespace WeightLink

/-- Dialect, exponent and codes of a block, as a caller states them. -/
structure Fields where
  dialect : UInt8
  exponent : UInt8
  codes : Vector UInt8 32
  deriving DecidableEq, Repr

namespace Block

/-- The fields of a block. -/
def fields (b : Block) : Fields where
  dialect := UInt8.ofNat b.header.dialect
  exponent := UInt8.ofNat b.header.exponent
  codes := Vector.ofFn fun i => b.code i

end Block

namespace Fields

/-- Byte `k` of the block with these fields: two header bytes, then the codes in pairs. -/
def byte (f : Fields) (k : Fin 18) : UInt8 :=
  let word := 4096 * f.dialect.toNat + 128 * f.exponent.toNat
  if k.val = 0 then UInt8.ofNat (word / 256)
  else if k.val = 1 then UInt8.ofNat word
  else
    have : 2 * (k.val - 2) + 1 < 32 := by omega
    16 * (f.codes[2 * (k.val - 2)] % 16) + f.codes[2 * (k.val - 2) + 1] % 16

/-- The block with these fields. -/
def pack (f : Fields) : Except Fault Block :=
  if 16 ≤ f.dialect then .error .packedDialect
  else if 32 ≤ f.exponent then .error .packedExponent
  else .ok (Vector.ofFn f.byte)

end Fields

/-- The magnitudes that a block can hold, for a dialect and an exponent that may be
out of bounds. -/
def Dialect.magnitudes? (dialect exponent : UInt8) : Except Fault (Vector UInt8 8) :=
  if hd : dialect.toNat < 16 then
    if he : exponent.toNat < 32 then .ok (magnitudes ⟨dialect.toNat, hd⟩ ⟨exponent.toNat, he⟩)
    else .error .magnitudesExponent
  else .error .magnitudesDialect

end WeightLink
