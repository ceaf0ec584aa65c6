/-
# The memory bus and the serial pins

A bus master presents at most one request per cycle and holds it until the cycle
that accepts it.  The engine answers a read with one little-endian word.  On the
other side it drives three wires to the flash device, idle with the select line
high and the clock low; the device drives one wire back.
-/

namespace WeightLink
namespace Flash

/-- What a bus master presents in one cycle. -/
inductive Request where
  /-- Nothing. -/
  | none
  /-- A read of the aligned word that holds a byte address of the weight window. -/
  | read (address : UInt32)
  /-- A write of a word under a mask of its bytes. -/
  | write (address data : UInt32) (mask : UInt8)
  deriving DecidableEq, Repr

/-- Whether a request is present. -/
def Request.isPresent : Request → Bool
  | .none => false
  | _ => true

/-- Whether the request is a write. -/
def Request.isWrite : Request → Bool
  | .write .. => true
  | _ => false

/-- The wires that the engine drives to the device. -/
structure Pins where
  /-- Device select, active low. -/
  csN : Bool
  /-- Serial clock. -/
  sclk : Bool
  /-- Data to the device. -/
  mosi : Bool
  deriving DecidableEq, Repr

/-- The wires of an idle link. -/
def Pins.idle : Pins := ⟨true, false, false⟩

/-- What the engine drives in one cycle. -/
structure Outputs where
  /-- The presented request is accepted in this cycle. -/
  ready : Bool
  /-- The answer to a read. -/
  response : Option UInt32
  pins : Pins
  deriving DecidableEq, Repr

end Flash
end WeightLink
