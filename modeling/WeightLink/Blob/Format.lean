/-
# The blob format

| bytes | content |
| --- | --- |
| 0 … 3 | magic |
| 4 … 7 | bytes after the header |
| 8 … 11 | weights in a block, 32 |
| 12 … 15 | zero |
| 16 … | records |

A record holds one tensor: the number of its elements and the number of its blocks,
four bytes each, then the blocks.  Records start at multiples of four bytes.  All
words have the least significant byte first.  Only the magic and the records are
looked at by a reader.
-/

import WeightLink.Word

namespace WeightLink
namespace Blob

/-- What a magic says about a blob. -/
inductive Variant where
  | unknown
  | baseline
  | dialect
  deriving DecidableEq, Repr

namespace Variant

/-- All variants. -/
def all : List Variant := [unknown, baseline, dialect]

/-- The name of a variant. -/
def name : Variant → String
  | unknown => "unknown"
  | baseline => "VWB0"
  | dialect => "VWB1"

/-- The name of the variant with a given number; a number past the last one is unknown. -/
def nameAt (n : Nat) : String := (all[n]?.map name).getD "unknown"

/-- The magic of baseline blobs. -/
def baselineMagic : UInt32 := 0x56574230

/-- The magic of blobs with dialects. -/
def dialectMagic : UInt32 := 0x56574231

/-- The variant that a magic stands for. -/
def ofMagic (magic : UInt32) : Variant :=
  if magic = baselineMagic then baseline
  else if magic = dialectMagic then dialect
  else unknown

theorem ofMagic_eq_unknown_iff {magic : UInt32} :
    ofMagic magic = unknown ↔ magic ≠ baselineMagic ∧ magic ≠ dialectMagic := by
  unfold ofMagic
  split
  · simp_all
  · split <;> simp_all

end Variant

/-- The bytes of the blob header. -/
def headerBytes : Nat := 16

/-- The bytes of a record before its blocks. -/
def recordBytes : Nat := 8

/-- The bytes of a block. -/
def blockBytes : Nat := 18

/-- The weights of a block. -/
def blockElements : Nat := 32

/-- The next position at which a record may start. -/
def alignUp (position : Nat) : Nat := (position + 3) / 4 * 4

theorem alignUp_spec (position : Nat) :
    position ≤ alignUp position ∧ alignUp position < position + 4 ∧ alignUp position % 4 = 0 := by
  unfold alignUp; omega

/-- The elements that a reader decodes at once unless told otherwise. -/
def defaultScratch : Nat := 512

end Blob
end WeightLink
