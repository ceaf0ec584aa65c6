/-
# The flash device

A serial flash device in clock mode 0, evaluated once per cycle with the wires that
the engine drives.  With the select line high it forgets the transaction and lets its
data line float high.  Otherwise it takes a bit of a command at each rising edge of
the clock and executes the frame when it has 32; after a read frame it puts out the
next bit at each falling edge, byte after byte, modulo 24 address bits.  While it is
in deep power-down, every byte reads as erased.
-/

import WeightLink.Buffer
import WeightLink.Fault
import WeightLink.Flash.Bus
import WeightLink.Flash.Frame
import WeightLink.Flash.Image

namespace WeightLink

namespace Flash

/-- Where the device is in a transaction. -/
inductive Device.Transaction where
  /-- It has taken so many bits of a frame. -/
  | command (shift : BitVec 32) (bits : Nat)
  /-- It is about to put out a bit of the byte at an address, bit `0` being the most
  significant one. -/
  | reading (address : BitVec 24) (bit : Nat)
  /-- It waits for its release. -/
  | ignoring
  deriving DecidableEq, Repr

/-- The state of the device. -/
structure Device where
  image : Image
  /-- Whether the device powers up in deep power-down. -/
  requiresWake : Bool
  awake : Bool
  /-- Whether the last frame allowed a reset. -/
  resetArmed : Bool
  transaction : Device.Transaction
  /-- The level of the clock in the cycle before. -/
  sclk : Bool
  /-- The level of the data line. -/
  miso : Bool
  /-- The first frames that were executed, in order. -/
  log : Array Frame
  /-- How many frames the log keeps. -/
  logLimit : Nat
  /-- How many frames were executed. -/
  seen : Nat
  /-- How often the contents or the power state were changed from outside. -/
  generation : Nat
  /-- How many bytes were put out to their last bit. -/
  streamed : Nat
  /-- How many resets were carried out. -/
  resets : Nat

namespace Device

/-- The largest capacity that 24 address bits reach. -/
def maxCapacity : Nat := 0x1000000

/-- The capacity of a device unless told otherwise. -/
def defaultCapacity : Nat := 2 * 1024 * 1024

/-- The length of the log unless told otherwise. -/
def defaultLogLimit : Nat := 4096

/-- The start of a transaction. -/
def fresh : Transaction := .command 0 0

/-- Takes the power away and gives it back.  The contents and the counters survive. -/
def powerCycle (d : Device) : Device :=
  { d with
    awake := !d.requiresWake
    resetArmed := false
    sclk := false
    generation := d.generation + 1
    transaction := fresh
    miso := true }

/-- An erased device after power-up. -/
def create (capacity : Nat) (requiresWake : Bool) : Except Fault Device :=
  if capacity = 0 ∨ maxCapacity < capacity then .error (.deviceCapacity capacity)
  else
    .ok
      { image := Image.erased capacity
        requiresWake
        awake := !requiresWake
        resetArmed := false
        transaction := fresh
        sclk := false
        miso := true
        log := #[]
        logLimit := defaultLogLimit
        seen := 0
        generation := 1
        streamed := 0
        resets := 0 }

/-- Programs bytes at an address.  Programming nothing is not an access. -/
def load (d : Device) (offset : Nat) (data : Buffer UInt8) : Except Fault Device :=
  match data with
  | .absent count => if count = 0 then .ok d else .error (.missing .image)
  | .held bytes =>
    if bytes.size = 0 then .ok d
    else if d.image.capacity < offset + bytes.size then
      .error (.imageBounds offset bytes.size d.image.capacity)
    else
      .ok { d with image := d.image.program offset bytes, generation := d.generation + 1 }

/-- The byte that a read at an address puts out. -/
def dataByte (d : Device) (address : BitVec 24) : UInt8 :=
  if d.requiresWake && !d.awake then Image.erasedByte else d.image.byte address.toNat

/-- Executes a frame. -/
def execute (d : Device) (f : Frame) : Device :=
  let armed := d.resetArmed
  let d :=
    { d with
      seen := d.seen + 1
      log := if d.log.size < d.logLimit then d.log.push f else d.log
      resetArmed := false
      transaction := .ignoring }
  if f.opcode = Opcode.read then { d with transaction := .reading f.payload 0 }
  else if f.opcode = Opcode.release then { d with awake := true }
  else if f.opcode = Opcode.resetEnable then { d with resetArmed := true }
  else if f.opcode = Opcode.reset then
    if armed then { d with resets := d.resets + 1 } else d
  else d

/-- A rising edge of the clock takes a bit of the command. -/
def rise (d : Device) (mosi : Bool) : Device :=
  match d.transaction with
  | .command shift bits =>
    let shift := shift.shiftConcat mosi
    if bits + 1 = frameBits then d.execute (Frame.ofBits shift)
    else { d with transaction := .command shift (bits + 1) }
  | _ => d

/-- A falling edge of the clock puts out the next data bit. -/
def fall (d : Device) : Device :=
  match d.transaction with
  | .reading address bit =>
    let d := { d with miso := (d.dataByte address).toBitVec.getMsbD bit }
    if bit + 1 = 8 then
      { d with transaction := .reading (address + 1) 0, streamed := d.streamed + 1 }
    else { d with transaction := .reading address (bit + 1) }
  | _ => d

/-- The state after a cycle with the given wires. -/
def eval (d : Device) (pins : Pins) : Device :=
  let before := d.sclk
  let d := { d with sclk := pins.sclk }
  if pins.csN then { d with transaction := fresh, miso := true }
  else if pins.sclk && !before then d.rise pins.mosi
  else if !pins.sclk && before then d.fall
  else d

end Device
end Flash
end WeightLink
