/-
# Command frames

Every transaction on the serial link starts with a frame of 32 bits, an opcode of
eight and a payload of 24, the most significant bit first.  Four opcodes have a
meaning: a read names its first byte address in the payload, and the three wake
commands have an empty payload.
-/

namespace WeightLink
namespace Flash

/-- How many bits a frame has, and how many data bits follow a read frame. -/
def frameBits : Nat := 32

/-- A command frame. -/
structure Frame where
  opcode : BitVec 8
  payload : BitVec 24
  deriving DecidableEq, Repr

namespace Opcode

/-- Read bytes from an address onwards. -/
def read : BitVec 8 := 0x03#8

/-- Allow the reset that may follow. -/
def resetEnable : BitVec 8 := 0x66#8

/-- Reset the device, right after it was allowed. -/
def reset : BitVec 8 := 0x99#8

/-- Leave deep power-down. -/
def release : BitVec 8 := 0xAB#8

/-- The wake handshake, in the order of its commands. -/
def wake : List (BitVec 8) := [resetEnable, reset, release]

end Opcode

namespace Frame

/-- The bits of a frame, the most significant one sent first. -/
def bits (f : Frame) : BitVec 32 := (f.opcode ++ f.payload).cast (by decide)

/-- The frame with the given bits. -/
def ofBits (w : BitVec 32) : Frame := ⟨w.extractLsb' 24 8, w.setWidth 24⟩

/-- The frame of a wake command. -/
def wake (opcode : BitVec 8) : Frame := ⟨opcode, 0#24⟩

/-- The frame of a read. -/
def read (address : BitVec 24) : Frame := ⟨Opcode.read, address⟩

theorem ofBits_bits (f : Frame) : ofBits f.bits = f := by
  obtain ⟨o, p⟩ := f
  simp only [ofBits, bits, Frame.mk.injEq]
  constructor
  · apply BitVec.eq_of_getLsbD_eq
    intro i h
    simp only [BitVec.getLsbD_extractLsb', BitVec.getLsbD_cast, BitVec.getLsbD_append,
      show ¬24 + i < 24 by omega, h]
    simp
  · apply BitVec.eq_of_getLsbD_eq
    intro i h
    simp only [BitVec.getLsbD_setWidth, BitVec.getLsbD_cast, BitVec.getLsbD_append, h]
    simp

theorem bits_ofBits (w : BitVec 32) : (ofBits w).bits = w := by
  apply BitVec.eq_of_getLsbD_eq
  intro i h
  simp only [ofBits, bits, BitVec.getLsbD_cast, BitVec.getLsbD_append, BitVec.getLsbD_setWidth,
    BitVec.getLsbD_extractLsb']
  by_cases h' : i < 24
  · simp [h']
  · simp [h', show i - 24 < 8 by omega, show 24 + (i - 24) = i by omega]

end Frame
end Flash
end WeightLink
