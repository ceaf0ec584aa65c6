/-
# The choice of a decoder

Three independent decoders turn a block into weights.  A configuration names one,
and the report names the one that was used.
-/

import WeightLink.Block.Embedded
import WeightLink.Block.Encode
import WeightLink.Block.Peripheral

namespace WeightLink

/-- Where a block is decoded. -/
inductive Decoder where
  /-- By the definition, on the host. -/
  | host
  /-- By a freshly reset peripheral. -/
  | hardware
  /-- By the embedded reader. -/
  | firmware
  deriving DecidableEq, Repr

namespace Decoder

/-- All decoders. -/
def all : List Decoder := [host, hardware, firmware]

/-- The name of a decoder, in configurations and in the log. -/
def name : Decoder → String
  | host => "host"
  | hardware => "hardware"
  | firmware => "firmware"

/-- The decoder with a given name. -/
def ofName (s : String) : Except Fault Decoder :=
  match all.find? fun d => decide (d.name = s) with
  | some d => .ok d
  | none => .error (.unknownDecoder s)

/-- The decoder with a given number. -/
def ofNumber (n : Nat) : Except Fault Decoder :=
  match all[n]? with
  | some d => .ok d
  | none => .error .decoderNumber

/-- The name of the decoder with a given number; a number past the last one is unknown. -/
def nameAt (n : Nat) : String := (all[n]?.map name).getD "unknown"

/-- The weights of a block. -/
def decode : Decoder → Block → Values
  | host => Block.weights
  | hardware => fun b => (Peripheral.cleared.drive b).1
  | firmware => Embedded.decode

/-- The weights of a block that may be missing, for a caller who may have no room
for them. -/
def decodeInto (d : Decoder) (block : Option Block) (room : Bool) : Except Fault Values :=
  match block, room with
  | some b, true => .ok (d.decode b)
  | _, _ => .error (.missing (if d = hardware then .driving else .decoding))

theorem ofName_name (d : Decoder) : ofName d.name = .ok d := by
  cases d <;> simp [ofName, all, name]

end Decoder

/-- Drives a block that may be missing through a peripheral, for a caller who may have
no room for the weights.  A refusal leaves the registers alone. -/
def Peripheral.driveInto (p : Peripheral) (block : Option Block) (room : Bool) :
    Except Fault (Values × Peripheral) :=
  match block, room with
  | some b, true => .ok (p.drive b)
  | _, _ => .error (.missing .driving)

/-- The header at the front of some bytes. -/
def Header.parse (bytes : Option Bytes) : Except Fault Header :=
  match bytes with
  | some b => .ok (Header.ofBytes (b[0]?.getD 0) (b[1]?.getD 0))
  | none => .error (.missing .block)

/-- The fields of a block that may be missing. -/
def Fields.ofBlock (block : Option Block) : Except Fault Fields :=
  match block with
  | some b => .ok b.fields
  | none => .error (.missing .block)

/-- The fields that encode weights that may be missing. -/
def Fields.ofWeights (weights : Option Values) : Except Fault Fields :=
  match weights with
  | some x => .ok x.encode
  | none => .error (.missing .weights)

end WeightLink
