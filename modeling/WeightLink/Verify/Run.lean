/-
# Running a verification

The checks of a configuration take their tensors from a blob one after the other.  With
memory backing the blob is read where it is.  With flash backing it is programmed into
an erased device at the flash offset and read back over the link, through a window that
starts there; the blob has to fit the window, and the window the address space of the
device.

A configuration may ask for a scratch buffer of any size, and a machine need not have the
memory for it.  `run` is a verification with that buffer at hand; `runWithin` asks for it.
-/

import WeightLink.Source.Memory
import WeightLink.Verify.Report

namespace WeightLink
namespace Verify

open Blob (Reader)

variable {σ : Type} [Source σ]

/-- Reads tensors with the given counts: the sum of their hashes and of the counts. -/
def sumTensors : List UInt32 → Action (Reader σ) (UInt32 × Nat)
  | [] => pure (0, 0)
  | count :: counts => do
    let tensor ← Reader.tensor count
    let (hash, elements) ← sumTensors counts
    return (tensor.hash + hash, count.toNat + elements)

/-- Runs one check. -/
def runCheck (check : Check) : Action (Reader σ) Finding := do
  let (hash, elements) ← sumTensors check.tensors
  return ⟨check.name, hash, check.expected, elements⟩

/-- Runs some checks in order. -/
def runEach : List Check → Action (Reader σ) (List Finding)
  | [] => pure []
  | check :: checks => do
    let finding ← runCheck check
    let findings ← runEach checks
    return finding :: findings

/-- Looks at the magic and runs all checks. -/
def runChecks (checks : List Check) : Action (Reader σ) (List Finding) := do
  if ← Reader.reset then runEach checks
  else
    let r ← Action.get
    Action.fail (.blobMagic r.magic)

/-- The report on what was found with a reader. -/
def reportOf (r : Reader σ) (flash : Option FlashUse) (findings : List Finding) : Report :=
  ⟨findings, r.magic, r.variant, r.stats, flash⟩

/-- The reader of a blob in memory. -/
def memoryReader (blob : Bytes) (cfg : Config) : Reader MemorySource :=
  .create ⟨blob⟩ cfg.decoder cfg.scratch

/-- The reader of a blob behind the flash link.  The device is as large as the window
needs, and at least as large as configured. -/
def flashReader (blob : Bytes) (cfg : Config) : Except Fault (Reader Flash.FlashSource) := do
  let window := cfg.window.toNat
  if window < blob.size then throw (.blobOverWindow blob.size window)
  let offset := cfg.link.engine.offset.toNat
  if Flash.Device.maxCapacity < offset + window then throw .windowOverDevice
  let link ← Flash.Link.create
    { cfg.link with deviceBytes := max cfg.link.deviceBytes (offset + window) }
  let device ← link.device.load offset (.held blob)
  let window ← Flash.Window.create window
  return .create ⟨window, { link with device }⟩ cfg.decoder cfg.scratch

/-- What the link of a reader has done. -/
def flashUse (r : Reader Flash.FlashSource) : FlashUse :=
  ⟨r.source.link.stats, r.source.window.wordReads⟩

/-- Verifies a blob, with a scratch buffer at hand: the report, and the events on the way to it. -/
def run (blob : Bytes) (cfg : Config) : Except Fault Report × List Event :=
  match cfg.backing with
  | .memory =>
    let o := (runChecks cfg.checks).run (memoryReader blob cfg)
    (o.result.map (reportOf o.state none), o.events)
  | .flash =>
    match flashReader blob cfg with
    | .error e => (.error e, [])
    | .ok reader =>
      let o := (runChecks cfg.checks).run reader
      (o.result.map (reportOf o.state (some (flashUse o.state))), o.events)

/-- The most elements that a buffer can have. -/
def maxBuffer : Nat := 0x7FFFFFFFFFFFFFFF

/-- Asks for a buffer on a machine that grants buffers of some sizes. -/
def allocate (grants : Nat → Bool) (elements : Nat) : Except Fault Unit :=
  if maxBuffer < elements then .error .bufferLength
  else if grants elements then .ok ()
  else .error .bufferMemory

/-- What stands in the way before anything is read: over the link, the source that is set up first
may not fit, and then there may be no memory for the scratch buffer. -/
def prepare (grants : Nat → Bool) (blob : Bytes) (cfg : Config) : Except Fault Unit :=
  match cfg.backing with
  | .memory => allocate grants cfg.scratch
  | .flash => (flashReader blob cfg).bind fun _ => allocate grants cfg.scratch

/-- Verifies a blob on a machine that grants buffers of some sizes. -/
def runWithin (grants : Nat → Bool) (blob : Bytes) (cfg : Config) :
    Except Fault Report × List Event :=
  match prepare grants blob cfg with
  | .error e => (.error e, [])
  | .ok () => run blob cfg

end Verify
end WeightLink
