/-
# Reading tensors out of a blob

A reader goes through the records of a blob in order, over any source and with any of
the decoders.  `Reader.reset` looks at the magic and goes to the first record;
`Reader.tensor` decodes the next record and goes on to the one after it.  A record is
checked before a block of it is read (`Record.check`): its blocks have to lie inside
the source, hold what the record claims and what the caller asks for, and fit the
scratch buffer.  A count other than the one asked for is only worth a warning.
-/

import WeightLink.Blob.Tensor
import WeightLink.Source.Basic

namespace WeightLink
namespace Blob

/-- The counters of a reader since its last reset. -/
structure Stats where
  tensors : Nat
  blocks : Nat
  /-- Bytes of the header and of the records with their padding. -/
  bytes : Nat
  /-- Records with another number of elements than was asked for. -/
  warnings : Nat
  deriving DecidableEq, Repr

/-- The counters after a reset. -/
def Stats.zero : Stats := ⟨0, 0, 0, 0⟩

/-- A record as its first eight bytes describe it. -/
structure Record where
  position : Nat
  elements : UInt32
  blocks : UInt32
  deriving DecidableEq, Repr

namespace Record

/-- How many elements the blocks of the record have. -/
def capacity (r : Record) : Nat := r.blocks.toNat * blockElements

/-- Where the blocks start. -/
def start (r : Record) : Nat := r.position + recordBytes

/-- Where the blocks end. -/
def stop (r : Record) : Nat := r.start + r.blocks.toNat * blockBytes

/-- Refuses a record that cannot be read from a source of the given size into a scratch
buffer of the given capacity, or that has fewer elements than are asked for. -/
def check (r : Record) (requested : UInt32) (size capacity : Nat) : Except Fault Unit :=
  if r.capacity < r.elements.toNat then .error (.recordElements r.position r.elements r.blocks)
  else if r.capacity < requested.toNat then
    .error (.requestedElements requested r.position r.blocks)
  else if size < r.stop then .error (.recordBlocks r.blocks r.start size)
  else if capacity < r.capacity then .error (.scratchCapacity r.blocks r.capacity capacity)
  else .ok ()

theorem check_eq_ok_iff {r : Record} {requested : UInt32} {size capacity : Nat} :
    r.check requested size capacity = .ok () ↔
      r.elements.toNat ≤ r.capacity ∧ requested.toNat ≤ r.capacity ∧ r.stop ≤ size ∧
        r.capacity ≤ capacity := by
  unfold check
  split
  · simp; omega
  · split
    · simp; omega
    · split
      · simp; omega
      · split <;> simp <;> omega

end Record

/-- A reader over a source. -/
structure Reader (σ : Type) where
  source : σ
  decoder : Decoder
  /-- The elements that fit the scratch buffer. -/
  capacity : Nat
  /-- Where the next record starts. -/
  cursor : Nat
  magic : UInt32
  /-- What the magic says, unknown before the first reset. -/
  variant : Variant
  stats : Stats

namespace Reader

variable {σ : Type}

/-- A reader that was not reset yet. -/
def create (source : σ) (decoder : Decoder) (capacity : Nat) : Reader σ where
  source
  decoder
  capacity
  cursor := 0
  magic := 0
  variant := .unknown
  stats := .zero

/-- Whether the magic is one of the two. -/
def accepted (r : Reader σ) : Bool := r.variant ≠ .unknown

/-- Runs an action of the source. -/
def onSource {α : Type} (m : Action σ α) : Action (Reader σ) α :=
  Action.within Reader.source (fun source r => { r with source }) m

variable [Source σ]

/-- Goes to the first record and tells whether the blob has one of the two magics. -/
def reset : Action (Reader σ) Bool := do
  Action.modify fun r =>
    { r with cursor := headerBytes, magic := 0, variant := .unknown, stats := .zero }
  let r ← Action.get
  let name := Source.name σ
  let size := Source.size r.source
  if size < headerBytes then
    Action.log (.shortSource name size)
    return false
  else
    let magic ← onSource (Source.readWord 0)
    let variant := Variant.ofMagic magic
    Action.modify fun r => { r with magic, variant }
    if variant = .unknown then
      Action.log (.magicRefused magic name)
      return false
    else
      Action.log (.magicAccepted magic name r.decoder)
      Action.modify fun r => { r with stats := { r.stats with bytes := headerBytes } }
      return true

/-- The record at the cursor. -/
def record : Action (Reader σ) Record := do
  let r ← Action.get
  if !r.accepted then Action.fail (.streamMagic r.magic)
  else if Source.size r.source < r.cursor + recordBytes then
    Action.fail (.recordHeader r.cursor (Source.size r.source))
  else
    let elements ← onSource (Source.readWord r.cursor)
    let blocks ← onSource (Source.readWord (r.cursor + 4))
    return ⟨r.cursor, elements, blocks⟩

/-- The weights of the first `n` blocks that start at a position. -/
def blocks (decoder : Decoder) (start : Nat) : Nat → Action σ (Array Int8)
  | 0 => pure #[]
  | n + 1 => do
    let front ← blocks decoder start n
    let block ← Source.read (start + n * blockBytes) 18
    return front ++ (decoder.decode block).toArray

/-- Decodes the record at the cursor for a caller who asks for a number of elements, and
goes on to the next record. -/
def tensor (requested : UInt32) : Action (Reader σ) Tensor := do
  let r ← Action.get
  let size := Source.size r.source
  let record ← record
  Action.check (record.check requested size r.capacity)
  if record.elements ≠ requested then
    Action.modify fun r => { r with stats := { r.stats with warnings := r.stats.warnings + 1 } }
    Action.log (.countMismatch record.position record.elements requested)
  let values ← onSource (blocks r.decoder record.start record.blocks.toNat)
  let next := alignUp record.stop
  Action.modify fun r =>
    { r with
      cursor := next
      stats :=
        { r.stats with
          tensors := r.stats.tensors + 1
          blocks := r.stats.blocks + record.blocks.toNat
          bytes := r.stats.bytes + (next - record.position) } }
  return ⟨values, requested, record.blocks⟩

end Reader
end Blob
end WeightLink
