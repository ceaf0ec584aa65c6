/-
# The contents of a flash device

An image is a capacity and a byte for every address; an erased byte has all bits
set.  A read wraps around at the capacity.  Programming replaces a run of bytes and
leaves all others alone (`byte_program`).
-/

import WeightLink.Word

namespace WeightLink
namespace Flash

/-- The contents of a device of some capacity. -/
structure Image where
  capacity : Nat
  cell : Nat → UInt8

namespace Image

/-- An erased byte. -/
def erasedByte : UInt8 := 0xFF

/-- The image of a device that was never programmed. -/
def erased (capacity : Nat) : Image := ⟨capacity, fun _ => erasedByte⟩

/-- The byte at an address, modulo the capacity. -/
def byte (m : Image) (address : Nat) : UInt8 := m.cell (address % m.capacity)

/-- The image with a run of bytes replaced. -/
def program (m : Image) (offset : Nat) (bytes : Bytes) : Image :=
  { m with
    cell := fun a =>
      if h : offset ≤ a ∧ a - offset < bytes.size then bytes[a - offset] else m.cell a }

@[simp] theorem capacity_program (m : Image) (offset : Nat) (bytes : Bytes) :
    (m.program offset bytes).capacity = m.capacity := rfl

theorem byte_program (m : Image) (offset : Nat) (bytes : Bytes) {a : Nat} (h : a < m.capacity) :
    (m.program offset bytes).byte a =
      if h : offset ≤ a ∧ a - offset < bytes.size then bytes[a - offset] else m.byte a := by
  simp [byte, program, Nat.mod_eq_of_lt h]

end Image
end Flash
end WeightLink
