/-
# A request in parts

A request for a tensor finds a record, checks it and delivers what is in it (`Reader.tensor_eq`).
Delivering is the only part that decodes anything, and the only one in which a reader goes on: it
counts a record with another number of elements than was asked for (`Reader.deliver`), decodes the
blocks and goes on behind the record (`Reader.content`).
-/

import WeightLink.Blob.Reader

namespace WeightLink
namespace Blob
namespace Reader

variable {σ : Type}

theorem run_onSource {α : Type} (m : Action σ α) (r : Reader σ) :
    (onSource m).run r = ⟨(m.run r.source).result, { r with source := (m.run r.source).state },
      (m.run r.source).events⟩ := rfl

variable [Source σ]

/-- Decodes the blocks of a record and goes on behind it. -/
def content (decoder : Decoder) (requested : UInt32) (record : Record) :
    Action (Reader σ) Tensor := do
  let values ← onSource (blocks decoder record.start record.blocks.toNat)
  let next := alignUp record.stop
  Action.modify fun r =>
    { r with
      cursor := next
      stats :=
        { r.stats with
          tensors := r.stats.tensors + 1
          blocks := r.stats.blocks + record.blocks.toNat
          bytes := r.stats.bytes + (next - record.position) } }
  return ⟨values, requested, record.blocks⟩

/-- Counts and reports a record with another number of elements than was asked for, and decodes
it. -/
def deliver (decoder : Decoder) (requested : UInt32) (record : Record) :
    Action (Reader σ) Tensor :=
  if record.elements ≠ requested then do
    Action.modify fun r => { r with stats := { r.stats with warnings := r.stats.warnings + 1 } }
    Action.log (.countMismatch record.position record.elements requested)
    content decoder requested record
  else content decoder requested record

/-- A request is made of the record, its check, and its delivery. -/
theorem tensor_eq (requested : UInt32) : (tensor requested : Action (Reader σ) Tensor) =
    (do
      let r ← Action.get
      let record ← record
      Action.check (record.check requested (Source.size r.source) r.capacity)
      deliver r.decoder requested record) := rfl

end Reader
end Blob
end WeightLink
