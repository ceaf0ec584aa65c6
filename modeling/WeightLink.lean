/-
# Block-coded weights over a serial flash link

Weights of a neural network are stored in blobs of 32-weight blocks (`Block`, `Blob`)
and read back tensor by tensor.  A blob is in memory, or in a serial flash device behind
a read engine that is simulated cycle by cycle (`Flash.Link`); a block is decoded by one
of three independent decoders (`Decoder`).  `Verify.run` reads the tensors that a
configuration names and compares their hashes, and `CommandLine.run` does so for files.

What holds of all of this is proved under `Proofs`, module by module: what the link answers, to
whom and how soon, to the cycle, on which wires, and what it makes of a sleeping device or of
several windows, with an engine whose registers always agree; that writes and the stored data leave
no trace on the wires, and that a reset is a power-on; what a device makes of any wires; that
the decoders are one function, that the encoder makes the best of a block and keeps the order of its
weights, that packing loses no field of a block, and what a peripheral decodes after any accesses to
its registers; that reading a blob undoes writing it, what a request that fails leaves behind, and
that no blob leads a reader out of its source or its buffer;
how a configuration is read; what a verification over the link says about the blob in memory, how it
fails, and what it costs; what the exit code says, and what can be read from the table of a report.
-/

import WeightLink.Action
import WeightLink.Blob.Format
import WeightLink.Blob.Reader
import WeightLink.Blob.Tensor
import WeightLink.Blob.Writer
import WeightLink.Block.Basic
import WeightLink.Block.Decode
import WeightLink.Block.Decoder
import WeightLink.Block.Dialect
import WeightLink.Block.Embedded
import WeightLink.Block.Encode
import WeightLink.Block.Packing
import WeightLink.Block.Peripheral
import WeightLink.Buffer
import WeightLink.CommandLine
import WeightLink.Decimal.Binary64
import WeightLink.Decimal.Rounding
import WeightLink.Decimal.Shortest
import WeightLink.Event
import WeightLink.Fault
import WeightLink.Files.Directory
import WeightLink.Files.Path
import WeightLink.Files.Storage
import WeightLink.Flash.Bus
import WeightLink.Flash.Device
import WeightLink.Flash.Engine
import WeightLink.Flash.Frame
import WeightLink.Flash.Image
import WeightLink.Flash.Latency
import WeightLink.Flash.Link
import WeightLink.Flash.Phase
import WeightLink.Json.Parser
import WeightLink.Json.Text
import WeightLink.Json.Value
import WeightLink.Main
import WeightLink.Proofs.Action.Along
import WeightLink.Proofs.Action.Triple
import WeightLink.Proofs.Blob.Attempts
import WeightLink.Proofs.Blob.Bounds
import WeightLink.Proofs.Blob.Calls
import WeightLink.Proofs.Blob.Following
import WeightLink.Proofs.Blob.InPlace
import WeightLink.Proofs.Blob.Parser
import WeightLink.Proofs.Blob.Pass
import WeightLink.Proofs.Blob.Record
import WeightLink.Proofs.Blob.Request
import WeightLink.Proofs.Blob.RoundTrip
import WeightLink.Proofs.Block.Accesses
import WeightLink.Proofs.Block.Element
import WeightLink.Proofs.Block.Embedded
import WeightLink.Proofs.Block.Encode
import WeightLink.Proofs.Block.Optimal
import WeightLink.Proofs.Block.Packing
import WeightLink.Proofs.Block.Peripheral
import WeightLink.Proofs.Block.Quantization
import WeightLink.Proofs.Files.Retention
import WeightLink.Proofs.Flash.Answers
import WeightLink.Proofs.Flash.Budget
import WeightLink.Proofs.Flash.Coupling
import WeightLink.Proofs.Flash.Decoding
import WeightLink.Proofs.Flash.EngineInvariant
import WeightLink.Proofs.Flash.Execution
import WeightLink.Proofs.Flash.Handshake
import WeightLink.Proofs.Flash.Ledger
import WeightLink.Proofs.Flash.PowerOn
import WeightLink.Proofs.Flash.Pulses
import WeightLink.Proofs.Flash.Reachable
import WeightLink.Proofs.Flash.Registers
import WeightLink.Proofs.Flash.Session
import WeightLink.Proofs.Flash.Simulation
import WeightLink.Proofs.Flash.Steady
import WeightLink.Proofs.Flash.Timing
import WeightLink.Proofs.Flash.Trace
import WeightLink.Proofs.Flash.Transaction
import WeightLink.Proofs.Flash.Wait
import WeightLink.Proofs.Flash.Waveform
import WeightLink.Proofs.Flash.Wire
import WeightLink.Proofs.Flash.Writes
import WeightLink.Proofs.Source.AbandonedRead
import WeightLink.Proofs.Source.Fetch
import WeightLink.Proofs.Source.Forward
import WeightLink.Proofs.Source.Ready
import WeightLink.Proofs.Source.Shared
import WeightLink.Proofs.Text.Numeral
import WeightLink.Proofs.Verify.Backing
import WeightLink.Proofs.Verify.Checks
import WeightLink.Proofs.Verify.Costs
import WeightLink.Proofs.Verify.Decoder
import WeightLink.Proofs.Verify.ExpectedHash
import WeightLink.Proofs.Verify.Faults
import WeightLink.Proofs.Verify.Findings
import WeightLink.Proofs.Verify.Keys
import WeightLink.Proofs.Verify.Parsing
import WeightLink.Proofs.Verify.Readers
import WeightLink.Proofs.Verify.Refusal
import WeightLink.Proofs.Verify.Rows
import WeightLink.Proofs.Verify.Settings
import WeightLink.Proofs.Verify.Table
import WeightLink.Proofs.Verify.Truncation
import WeightLink.Proofs.Verify.Verdict
import WeightLink.Source.Basic
import WeightLink.Source.Memory
import WeightLink.Source.Window
import WeightLink.Text.Numeral
import WeightLink.Text.Terminated
import WeightLink.Verify.Config
import WeightLink.Verify.Report
import WeightLink.Verify.Run
import WeightLink.Word
