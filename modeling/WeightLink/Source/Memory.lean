/-
# A blob in memory

The source that has all of its bytes at hand.  Reading changes nothing.
-/

import WeightLink.Source.Basic

namespace WeightLink

/-- A blob held in memory. -/
structure MemorySource where
  bytes : Bytes
  deriving DecidableEq, Repr

namespace MemorySource

/-- Refuses a range that is not inside the blob. -/
def inside (m : MemorySource) (position count : Nat) : Except Fault Unit :=
  if m.bytes.size < position + count then
    .error (.memoryBounds position count m.bytes.size)
  else .ok ()

theorem inside_eq_ok_iff {m : MemorySource} {position count : Nat} :
    m.inside position count = .ok () ↔ position + count ≤ m.bytes.size := by
  unfold inside
  split <;> simp <;> omega

/-- Reads `count` bytes from a position onwards. -/
def read (position count : Nat) : Action MemorySource (Vector UInt8 count) := fun m =>
  ⟨(m.inside position count).map fun _ => Vector.ofFn fun i => m.bytes[position + i.val]?.getD 0,
    m, []⟩

/-- A read by a caller who has no room for the bytes: there must be none. -/
def readNowhere (m : MemorySource) (position count : Nat) : Except Fault Unit := do
  m.inside position count
  if count = 0 then return () else throw (.missing .memoryBytes)

instance : Source MemorySource where
  name := "memory"
  size m := m.bytes.size
  read := read

end MemorySource
end WeightLink
