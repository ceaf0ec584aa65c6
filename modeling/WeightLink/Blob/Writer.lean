/-
# Writing blobs

A writer appends records, either by encoding the values of a tensor, the last block
filled up with zeros, or from blocks that are already packed.  Every record is filled
up to a multiple of four bytes.  `Writer.finish` puts the header in front.
-/

import WeightLink.Blob.Tensor
import WeightLink.Block.Encode
import WeightLink.Buffer

namespace WeightLink
namespace Blob

/-- A blob under construction. -/
structure Writer where
  /-- The records so far. -/
  records : Bytes
  /-- What a reader will get for the tensor that was added last, empty after packed
  blocks. -/
  lastDecoded : Array Int8
  /-- How many records there are. -/
  tensors : Nat
  deriving DecidableEq, Repr

namespace Writer

/-- A writer without records. -/
def empty : Writer := ⟨#[], #[], 0⟩

/-- Bytes with as many zeros behind them as make their number a multiple of four. -/
def pad (bytes : Bytes) : Bytes :=
  bytes ++ Array.replicate (alignUp bytes.size - bytes.size) 0

theorem size_pad (bytes : Bytes) : (pad bytes).size = alignUp bytes.size := by
  have := alignUp_spec bytes.size
  simp only [pad, Array.size_append, Array.size_replicate]
  omega

/-- The values of block `k` of a tensor, zeros behind the last value. -/
def chunk (values : Array Int8) (k : Nat) : Values :=
  Vector.ofFn fun i => values[blockElements * k + i.val]?.getD 0

/-- How many blocks a number of values takes. -/
def blockCount (count : Nat) : Nat := (count + 31) / blockElements

/-- The blocks that encode the values of a tensor. -/
def encode (values : Array Int8) : List Block :=
  (List.range (blockCount values.size)).map fun k => (chunk values k).toBlock

/-- The bytes of a record. -/
def record (count : UInt32) (blocks : List Block) : Bytes :=
  Word.bytes count ++ Word.bytes (UInt32.ofNat blocks.length)
    ++ (blocks.map Vector.toArray).foldl (· ++ ·) #[]

/-- Appends a record. -/
def append (w : Writer) (count : UInt32) (blocks : List Block) (decoded : Array Int8) : Writer where
  records := pad (w.records ++ record count blocks)
  lastDecoded := decoded
  tensors := w.tensors + 1

/-- Encodes and appends a tensor. -/
def addTensor (w : Writer) (values : Buffer Int8) : Except Fault Writer :=
  match values with
  | .absent count => if count = 0 then .ok (w.append 0 [] #[]) else .error (.missing .tensor)
  | .held values =>
    if 0xFFFFFFFF < values.size then .error .tensorSize
    else
      let blocks := encode values
      let decoded := (blocks.map fun b => b.weights.toArray).foldl (· ++ ·) #[]
      .ok (w.append (UInt32.ofNat values.size) blocks (decoded.take values.size))

/-- Appends a record of packed blocks, which have to hold the elements that it claims. -/
def addBlocks (w : Writer) (count : UInt32) (blocks : List Block) : Except Fault Writer :=
  if blocks.length * blockElements < count.toNat then .error .elementCount
  else .ok (w.append count blocks #[])

/-- The blob: a header, then the records. -/
def finish (w : Writer) (magic : UInt32) : Bytes :=
  Word.bytes magic ++ Word.bytes (UInt32.ofNat w.records.size)
    ++ Word.bytes (UInt32.ofNat blockElements) ++ Word.bytes 0 ++ w.records

end Writer
end Blob
end WeightLink
