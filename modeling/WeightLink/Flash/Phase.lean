/-
# The phases of the read engine

A frame goes through the first four phases bit by bit.  A wake frame then ends; a
read goes on to the data bits and finishes with the answer.
-/

namespace WeightLink
namespace Flash

/-- What the engine is doing in a cycle. -/
inductive Phase where
  /-- No frame is on the link. -/
  | idle
  /-- Put the next bit of the frame on the wire while the clock is low. -/
  | setupBit
  /-- Raise the clock; the device takes the bit. -/
  | clockHigh
  /-- Lower the clock and go on to the next bit. -/
  | clockLow
  /-- The step between the frame and its data. -/
  | readSetup
  /-- Raise the clock and take a data bit. -/
  | readHigh
  /-- Lower the clock; the device puts out the next data bit. -/
  | readLow
  /-- Release the device and answer. -/
  | finish
  deriving DecidableEq, Repr

namespace Phase

/-- The phases in the order in which a read goes through them. -/
def all : List Phase :=
  [idle, setupBit, clockHigh, clockLow, readSetup, readHigh, readLow, finish]

/-- The name of a phase in messages. -/
def name : Phase → String
  | idle => "IDLE"
  | setupBit => "SETUP_BIT"
  | clockHigh => "CLOCK_HI"
  | clockLow => "CLOCK_LO"
  | readSetup => "READ_SETUP"
  | readHigh => "READ_HI"
  | readLow => "READ_LO"
  | finish => "FINISH"

/-- The name of the phase with a given number; a number past the last one is unknown. -/
def nameAt (n : Nat) : String := (all[n]?.map name).getD "UNKNOWN"

end Phase
end Flash
end WeightLink
