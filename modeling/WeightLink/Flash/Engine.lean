/-
# The read engine

The engine serves a memory bus from a serial flash device.  A read becomes a read
frame for the translated address, followed by 32 data bits, while the master waits;
the word is answered, with its bytes put in bus order, in the one cycle that
releases the device.  A write is accepted at once when no frame is on the link, and
dropped.  If it is to wake the device, the engine first sends the three commands of
the wake handshake, each followed by a pause.

The serial clock is divided: the steps of a frame happen only in cycles where the
divider is at its end.  `Engine.next` is the state after a cycle.  What is driven
during it is read off separately (`Engine.ready`, `Engine.response`), so that a
statement about outputs does not have to look into the step.
-/

import WeightLink.Flash.Bus
import WeightLink.Flash.Frame
import WeightLink.Flash.Phase
import WeightLink.Word

namespace WeightLink
namespace Flash
namespace Engine

/-- The settings of an engine. -/
structure Config where
  /-- The flash address of the first byte of the window. -/
  offset : UInt32
  /-- A serial clock period is `2 (divider + 1)` cycles. -/
  divider : UInt32
  /-- Whether to wake the device before the first read. -/
  wakeOnBoot : Bool
  /-- The idle cycles after each wake command. -/
  wakeDelay : UInt32
  deriving DecidableEq, Repr

/-- The first mebibyte of the device belongs to somebody else. -/
def defaultOffset : UInt32 := 0x100000

/-- The idle cycles after a wake command unless told otherwise. -/
def defaultWakeDelay : UInt32 := 16

/-- The settings unless told otherwise. -/
def Config.default : Config := ⟨defaultOffset, 0, true, defaultWakeDelay⟩

instance : Inhabited Config := ⟨Config.default⟩

/-- The flash address of the aligned word that holds a bus address. -/
def Config.translate (cfg : Config) (address : UInt32) : BitVec 24 :=
  (cfg.offset + (address &&& ~~~3)).toBitVec.setWidth 24

end Engine

/-- The state of the engine. -/
structure Engine where
  /-- Cycles since the last serial step. -/
  divider : Nat
  phase : Phase
  /-- The frame that is sent, or was sent last. -/
  shiftOut : BitVec 32
  /-- The data bits that were received. -/
  shiftIn : BitVec 32
  /-- The bit of the frame, or of the data, that is in progress. -/
  bit : Nat
  /-- Whether a frame is on the link. -/
  busy : Bool
  /-- Whether reads may be sent. -/
  awake : Bool
  /-- How many wake commands were completed. -/
  wakePhase : Nat
  /-- What is left of the pause after a wake command. -/
  delayLeft : Nat
  /-- Whether the frame on the link is a wake command. -/
  waking : Bool
  pins : Pins
  /-- How many reads were answered. -/
  transactions : Nat
  /-- How many wake commands were started. -/
  wakeCommands : Nat
  deriving DecidableEq, Repr

namespace Engine

/-- The state after power-on, and after every reset. -/
def powerOn (cfg : Config) : Engine where
  divider := 0
  phase := .idle
  shiftOut := 0
  shiftIn := 0
  bit := 0
  busy := false
  awake := !cfg.wakeOnBoot
  wakePhase := 0
  delayLeft := 0
  waking := false
  pins := Pins.idle
  transactions := 0
  wakeCommands := 0

/-- Puts a frame on the link. -/
def start (e : Engine) (frame : Frame) (waking : Bool) : Engine :=
  { e with
    shiftOut := frame.bits
    shiftIn := 0
    bit := 0
    waking
    busy := true
    pins := { e.pins with csN := false, sclk := false }
    phase := .setupBit }

/-- Starts the frame of a presented read. -/
def serve (cfg : Config) (request : Request) (e : Engine) : Engine :=
  match request with
  | .read address => e.start (Frame.read (cfg.translate address)) false
  | _ => e

/-- A cycle without a frame on the link: the next step of the wake handshake while the
device may be asleep, or else the start of a read. -/
def idle (cfg : Config) (request : Request) (e : Engine) : Engine :=
  if e.awake then e.serve cfg request
  else if 0 < e.delayLeft then { e with delayLeft := e.delayLeft - 1 }
  else
    match Opcode.wake[e.wakePhase]? with
    | some opcode =>
      { e.start (Frame.wake opcode) true with wakeCommands := e.wakeCommands + 1 }
    | none => { e with awake := true }.serve cfg request

/-- The end of a wake command: the device is released and the pause begins. -/
def endWake (cfg : Config) (e : Engine) : Engine :=
  { e with
    bit := 0
    pins := { e.pins with csN := true, mosi := false }
    busy := false
    waking := false
    wakePhase := e.wakePhase + 1
    delayLeft := cfg.wakeDelay.toNat
    phase := .idle }

/-- Stores the received data bit in its place, the most significant bit first. -/
def capture (e : Engine) (miso : Bool) : BitVec 32 :=
  let place := BitVec.twoPow 32 (31 - e.bit)
  if miso then e.shiftIn ||| place else e.shiftIn &&& ~~~place

/-- Whether the divider is at its end, so that the frame advances in this cycle. -/
def steps (cfg : Config) (e : Engine) : Bool := e.divider = cfg.divider.toNat

/-- The state after a cycle. -/
def next (cfg : Config) (request : Request) (miso : Bool) (e : Engine) : Engine :=
  let step := e.steps cfg
  let e := { e with divider := if step then 0 else e.divider + 1 }
  match e.phase with
  | .idle => e.idle cfg request
  | .setupBit =>
    let e := { e with pins := { e.pins with mosi := e.shiftOut.getMsbD e.bit } }
    if step then { e with phase := .clockHigh } else e
  | .clockHigh =>
    if step then { e with pins := { e.pins with sclk := true }, phase := .clockLow } else e
  | .clockLow =>
    if step then
      let e := { e with pins := { e.pins with sclk := false } }
      if e.bit = frameBits - 1 then
        if e.waking then e.endWake cfg else { e with bit := 0, phase := .readSetup }
      else { e with bit := e.bit + 1, phase := .setupBit }
    else e
  | .readSetup =>
    let e := { e with pins := { e.pins with mosi := false } }
    if step then { e with phase := .readHigh } else e
  | .readHigh =>
    if step then
      { e with
        pins := { e.pins with sclk := true }
        shiftIn := e.capture miso
        phase := .readLow }
    else e
  | .readLow =>
    if step then
      let e := { e with pins := { e.pins with sclk := false } }
      if e.bit = frameBits - 1 then { e with phase := .finish }
      else { e with bit := e.bit + 1, phase := .readHigh }
    else e
  | .finish =>
    { e with
      pins := { e.pins with csN := true, mosi := false }
      busy := false
      bit := 0
      transactions := e.transactions + 1
      phase := .idle }

/-- Whether the presented request is accepted: a write when no frame is on the link, a
read in the cycle of its answer. -/
def ready (request : Request) (e : Engine) : Bool :=
  (request.isWrite && !e.busy) || e.phase = .finish

/-- The answer of the cycle.  The byte at the lowest address arrived first, in the most
significant bits, and belongs into the least significant ones. -/
def response (e : Engine) : Option UInt32 :=
  if e.phase = .finish then some (Word.swap (UInt32.ofBitVec e.shiftIn)) else none

/-- One cycle: what the engine drives, and its state afterwards. -/
def tick (cfg : Config) (request : Request) (miso : Bool) (e : Engine) : Outputs × Engine :=
  let after := e.next cfg request miso
  (⟨e.ready request, e.response, after.pins⟩, after)

end Engine
end Flash
end WeightLink
