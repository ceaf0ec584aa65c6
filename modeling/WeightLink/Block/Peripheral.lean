/-
# The decoder peripheral

A memory-mapped decoder with these registers, by byte offset:

| offset | register |
| --- | --- |
| `0x00` | header of the block, in the low 16 bits (write) |
| `0x04` … `0x10` | the 16 code bytes as four words, least significant byte first (write) |
| `0x20` … `0x3C` | the 32 weights as eight words, least significant byte first (read) |
| `0x40` | status, always ready (read) |

The weights are a function of the registers as they are now: there is nothing to
wait for.  A write anywhere else is ignored, and anything else reads as zero.  The
data path is the one of the circuit: a flat memory of levels addressed by dialect
and index, one arm per exponent, and a two's complement negation.
-/

import WeightLink.Block.Decode
import WeightLink.Word

namespace WeightLink

/-- The registers of the peripheral. -/
structure Peripheral where
  header : UInt16
  codes : Vector UInt32 4
  deriving DecidableEq, Repr

namespace Peripheral

/-- The registers after a reset. -/
def cleared : Peripheral := ⟨0, Vector.replicate 4 0⟩

/-- The level memory, three address bits for the index and four above for the dialect. -/
def levelMemory : Vector UInt8 128 := Dialect.table.flatten

/-- The dialect field of the header register. -/
def dialect (p : Peripheral) : UInt8 := ((p.header >>> 12) &&& 0xF).toUInt8

/-- The exponent field of the header register. -/
def exponent (p : Peripheral) : UInt8 := ((p.header >>> 7) &&& 0x1F).toUInt8

/-- Writes a word to an offset. -/
def write (p : Peripheral) (offset value : UInt32) : Peripheral :=
  if offset = 0x00 then { p with header := value.toUInt16 }
  else if (0x04 ≤ offset ∧ offset < 0x14) ∧ offset % 4 = 0 then
    { p with codes := p.codes.setIfInBounds ((offset - 0x04) / 4).toNat value }
  else p

/-- The exponent stage: one arm for each exponent up to seven, and above those every
level but zero saturates. -/
def exponentStage (level exponent : UInt8) : UInt8 :=
  let m := level.toUInt16
  let wide : UInt16 :=
    match exponent.toNat with
    | 0 => (m + 1) >>> 1
    | 1 => m
    | 2 => m <<< 1
    | 3 => m <<< 2
    | 4 => m <<< 3
    | 5 => m <<< 4
    | 6 => m <<< 5
    | 7 => m <<< 6
    | _ => if m = 0 then 0 else 0xFF
  if 127 < wide then 127 else wide.toUInt8

/-- The weight of a code, as a byte in two's complement. -/
def element (p : Peripheral) (code : UInt8) : UInt8 :=
  let address := (p.dialect <<< 3) ||| (code &&& 0x07)
  let magnitude := exponentStage (levelMemory[address.toNat]?.getD 0) p.exponent
  if (code >>> 3) &&& 1 ≠ 0 then ~~~magnitude + 1 else magnitude

/-- The code of element `i`, from the half of the byte of the word that holds it. -/
def code (p : Peripheral) (i : Nat) : UInt8 :=
  let position := i / 2
  let word := p.codes[position / 4]?.getD 0
  let byte := ((word >>> UInt32.ofNat (8 * (position % 4))) &&& 0xFF).toUInt8
  if i % 2 = 0 then byte >>> 4 else byte &&& 0x0F

/-- Word `k` of the weights: the elements `4 k` to `4 k + 3`. -/
def weightsWord (p : Peripheral) (k : Nat) : UInt32 :=
  let lane := fun j => p.element (p.code (4 * k + j))
  (lane 0).toUInt32 ||| (lane 1).toUInt32 <<< 8 ||| (lane 2).toUInt32 <<< 16
    ||| (lane 3).toUInt32 <<< 24

/-- Reads the word at an offset. -/
def read (p : Peripheral) (offset : UInt32) : UInt32 :=
  if offset = 0x40 then 1
  else if (0x20 ≤ offset ∧ offset < 0x40) ∧ offset % 4 = 0 then
    p.weightsWord ((offset - 0x20) / 4).toNat
  else 0

/-- The offset of code word `k`. -/
def codesOffset (k : Nat) : UInt32 := 0x04 + 4 * UInt32.ofNat k

/-- The offset of weights word `k`. -/
def weightsOffset (k : Nat) : UInt32 := 0x20 + 4 * UInt32.ofNat k

/-- Code word `k` of a block. -/
def codesWord (b : Block) (k : Nat) : UInt32 :=
  Word.ofBytes (b.byte (2 + 4 * k)) (b.byte (3 + 4 * k)) (b.byte (4 + 4 * k)) (b.byte (5 + 4 * k))

/-- Writes a block to the registers: the header, then the four code words. -/
def load (p : Peripheral) (b : Block) : Peripheral :=
  let p := p.write 0x00 ((b.byte 0).toUInt32 <<< 8 ||| (b.byte 1).toUInt32)
  (List.range 4).foldl (fun p k => p.write (codesOffset k) (codesWord b k)) p

/-- The weights, read word by word and taken apart into bytes. -/
def weights (p : Peripheral) : Values :=
  Vector.ofFn fun i => (Word.byte (p.read (weightsOffset (i.val / 4))) (i.val % 4)).toInt8

/-- Decodes a block through the registers, which go on holding it. -/
def drive (p : Peripheral) (b : Block) : Values × Peripheral :=
  let p := p.load b
  (p.weights, p)

end Peripheral
end WeightLink
