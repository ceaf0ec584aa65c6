/-
# Buffers handed over by a caller

A caller hands over values as a place and a count.  The place may be missing, and then
only a count of zero makes sense.
-/

namespace WeightLink

/-- Some values of a caller, or a count without them. -/
inductive Buffer (α : Type) where
  | held (items : Array α)
  | absent (count : Nat)
  deriving Repr

end WeightLink
