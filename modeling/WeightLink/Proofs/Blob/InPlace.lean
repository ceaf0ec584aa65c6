/-
# Decoding in place

A reader has one buffer that all tensors are decoded into, one after the other, and gives out the
front of it.  Here is the reader with that buffer (`Reader.tensorInPlace`): its source keeps the
buffer next to the bytes, and a list of all places that were read or written
(`Workspace`).

Over any source it does what the reader without a buffer does (`Reader.along_reset`,
`Reader.along_tensorInPlace`), so what is said about its accesses is said about that reader.
-/

import WeightLink.Proofs.Action.Along
import WeightLink.Proofs.Blob.Calls

namespace WeightLink
namespace Blob

open WeightLink.Action (Along)

/-! ### The buffer and the accesses -/

/-- An access to memory. -/
inductive Access where
  /-- Some bytes of the source are read. -/
  | read (position count : Nat)
  /-- Some elements of the buffer are written. -/
  | write (place count : Nat)
  deriving DecidableEq, Repr

/-- A source, the buffer that is decoded into, and all accesses so far. -/
structure Workspace (σ : Type) where
  source : σ
  scratch : Array Int8
  accesses : List Access

namespace Workspace

variable {σ : Type}

/-- The workspace with one more access. -/
def accessed (a : Access) (w : Workspace σ) : Workspace σ :=
  { w with accesses := w.accesses ++ [a] }

/-- Puts values at a place of the buffer. -/
def store (place : Nat) (values : Array Int8) : Action (Workspace σ) Unit :=
  Action.modify fun w =>
    { w.accessed (.write place values.size) with scratch := overwrite w.scratch place values }

/-- The front of the buffer. -/
def view (n : Nat) : Action (Workspace σ) (Array Int8) := do
  let w ← Action.get
  return w.scratch.take n

variable [Source σ]

instance : Source (Workspace σ) where
  name := Source.name σ
  size w := Source.size w.source
  read position count := do
    Action.modify (accessed (.read position count))
    Action.within Workspace.source (fun source w => { w with source })
      (Source.read position count)

/-- Decodes the first `n` blocks that start at a position into the front of the buffer. -/
def fill (decoder : Decoder) (start : Nat) : Nat → Action (Workspace σ) Unit
  | 0 => pure ()
  | n + 1 => do
    fill decoder start n
    let block ← Source.read (start + n * blockBytes) 18
    store (n * blockElements) (decoder.decode block).toArray

/-- Decodes blocks and gives out the front of the buffer. -/
def blocks (decoder : Decoder) (start n : Nat) : Action (Workspace σ) (Array Int8) := do
  fill decoder start n
  view (n * blockElements)

end Workspace

/-! ### The reader -/

namespace Reader

variable {σ : Type} [Source σ]

/-- Decodes the blocks of a record in place and goes on behind it. -/
def contentInPlace (decoder : Decoder) (requested : UInt32) (record : Record) :
    Action (Reader (Workspace σ)) Tensor := do
  let values ← onSource (Workspace.blocks decoder record.start record.blocks.toNat)
  let next := alignUp record.stop
  Action.modify fun r =>
    { r with
      cursor := next
      stats :=
        { r.stats with
          tensors := r.stats.tensors + 1
          blocks := r.stats.blocks + record.blocks.toNat
          bytes := r.stats.bytes + (next - record.position) } }
  return ⟨values, requested, record.blocks⟩

/-- Counts and reports a record with another number of elements than was asked for, and decodes it
in place. -/
def deliverInPlace (decoder : Decoder) (requested : UInt32) (record : Record) :
    Action (Reader (Workspace σ)) Tensor :=
  if record.elements ≠ requested then do
    Action.modify fun r => { r with stats := { r.stats with warnings := r.stats.warnings + 1 } }
    Action.log (.countMismatch record.position record.elements requested)
    contentInPlace decoder requested record
  else contentInPlace decoder requested record

/-- Decodes the record at the cursor in place. -/
def tensorInPlace (requested : UInt32) : Action (Reader (Workspace σ)) Tensor := do
  let r ← Action.get
  let size := Source.size r.source
  let record ← record
  Action.check (record.check requested size r.capacity)
  deliverInPlace r.decoder requested record

end Reader

/-! ### What is accessed is what the plain actions access -/

namespace Workspace

variable {σ : Type} [Source σ]

theorem run_read (position count : Nat) (w : Workspace σ) :
    (Source.read position count : Action (Workspace σ) (Vector UInt8 count)).run w =
      let o := (Source.read position count : Action σ (Vector UInt8 count)).run w.source
      ⟨o.result, { w.accessed (.read position count) with source := o.state }, o.events⟩ := by
  change (Action.modify _ >>= fun _ => Action.within _ _ _).run w = _
  rw [Action.run_bind, Action.run_modify]
  rfl

theorem along_read (position count : Nat) :
    Along Workspace.source id
      (Source.read position count : Action (Workspace σ) (Vector UInt8 count))
      (Source.read position count) := by
  intro w
  rw [run_read]
  simp

theorem along_readWord (position : Nat) :
    Along Workspace.source id (Source.readWord position : Action (Workspace σ) UInt32)
      (Source.readWord position) :=
  .bind (along_read position 4) fun _ => .pure _

/-- **Decoding in place**: the weights of the blocks are put in front of what the buffer held
behind them, or decoding fails as it does without a buffer. -/
theorem run_fill (decoder : Decoder) (start n : Nat) (w : Workspace σ) :
    let o := (fill decoder start n).run w
    ∃ result, (Reader.blocks decoder start n).run w.source = ⟨result, o.state.source, o.events⟩ ∧
      match result with
      | .error e => o.result = .error e
      | .ok values => o.result = .ok () ∧ values.size = n * blockElements ∧
        o.state.scratch = values ++ w.scratch.drop (n * blockElements) := by
  induction n with
  | zero => exact ⟨.ok #[], rfl, rfl, by simp, by simp [fill]⟩
  | succ n ih =>
    obtain ⟨result, hplain, hresult⟩ := ih
    simp only [fill, Reader.blocks, Action.run_bind, hplain]
    generalize (fill decoder start n).run w = front at hresult
    obtain ⟨r, w', es⟩ := front
    cases result with
    | error e =>
      obtain rfl : r = .error e := hresult
      exact ⟨.error e, rfl, rfl⟩
    | ok values =>
      obtain ⟨rfl, hsize, hscratch⟩ : r = .ok () ∧ _ := hresult
      dsimp only at hscratch ⊢
      rw [run_read]
      dsimp only
      generalize (Source.read (start + n * blockBytes) 18 : Action σ _).run w'.source = last
      obtain ⟨_ | block, s, es'⟩ := last
      · exact ⟨_, rfl, rfl⟩
      · refine ⟨.ok _, rfl, rfl, ?_, ?_⟩
        · rw [Array.size_append, hsize, Vector.size_toArray, Nat.add_mul]
          rfl
        · change overwrite w'.scratch (n * blockElements) (decoder.decode block).toArray = _
          rw [hscratch, ← hsize, overwrite_front, drop_drop, hsize, Vector.size_toArray,
            Nat.add_mul]
          rfl

theorem along_blocks (decoder : Decoder) (start n : Nat) :
    Along Workspace.source id (blocks decoder start n : Action (Workspace σ) (Array Int8))
      (Reader.blocks decoder start n) := by
  intro w
  obtain ⟨result, hplain, hresult⟩ := run_fill decoder start n w
  rw [hplain, blocks, Action.run_bind]
  generalize (fill decoder start n).run w = filled at hresult
  obtain ⟨r, w', es⟩ := filled
  cases result with
  | error e =>
    obtain rfl : r = .error e := hresult
    simp
  | ok values =>
    obtain ⟨rfl, hsize, hscratch⟩ : r = .ok () ∧ _ := hresult
    have hview : w'.scratch.take (n * blockElements) = values := by
      rw [hscratch, ← hsize, take_front]
    rw [← hview]
    simp [view, Except.map]

end Workspace

namespace Reader

variable {σ : Type}

/-- The reader without its buffer. -/
def plain (r : Reader (Workspace σ)) : Reader σ := { r with source := r.source.source }

theorem along_workspace {α : Type} {m : Action (Workspace σ) α} {n : Action σ α}
    (h : Along Workspace.source id m n) : Along plain id (onSource m) (onSource n) := by
  intro r
  have hsource : n.run r.plain.source = _ := h r.source
  rw [run_onSource, run_onSource, hsource]
  rfl

variable [Source σ]

theorem along_reset : Along plain id (reset : Action (Reader (Workspace σ)) Bool) reset := by
  refine .bind (.modify fun _ => rfl) fun _ => .get fun r => ?_
  refine .ite (.bind (.log _) fun _ => .pure _) ?_
  refine .bind (along_workspace (Workspace.along_readWord 0)) fun magic =>
    .bind (.modify fun _ => rfl) fun _ => ?_
  refine .ite (.bind (.log _) fun _ => .pure _) ?_
  exact .bind (.log _) fun _ => .bind (.modify fun _ => rfl) fun _ => .pure _

theorem along_recordInPlace :
    Along plain id (record : Action (Reader (Workspace σ)) Record) record := by
  refine .get fun r => .ite (.fail _) <| .ite (.fail _) ?_
  exact .bind (along_workspace (Workspace.along_readWord _)) fun _ =>
    .bind (along_workspace (Workspace.along_readWord _)) fun _ => .pure _

theorem along_contentInPlace (decoder : Decoder) (requested : UInt32) (record : Record) :
    Along plain id (contentInPlace decoder requested record : Action (Reader (Workspace σ)) Tensor)
      (content decoder requested record) :=
  .bind (along_workspace (Workspace.along_blocks _ _ _)) fun _ =>
    .bind (.modify fun _ => rfl) fun _ => .pure _

theorem along_tensorInPlace (requested : UInt32) :
    Along plain id (tensorInPlace requested : Action (Reader (Workspace σ)) Tensor)
      (tensor requested) := by
  rw [tensor_eq]
  refine .get fun r => .bind along_recordInPlace fun record => .bind (.check _) fun _ => ?_
  refine .ite (.bind (.modify fun _ => rfl) fun _ => .bind (.log _) fun _ => ?_) ?_
  · exact along_contentInPlace _ requested record
  · exact along_contentInPlace _ requested record

end Reader
end Blob
end WeightLink
