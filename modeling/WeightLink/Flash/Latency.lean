/-
# How long reads take

The number of reads, the cycles they took together, and the slowest and the fastest
of them.  The sum is kept in 64 bits and wraps.
-/

import WeightLink.Decimal.Binary64

namespace WeightLink
namespace Flash

/-- The latencies of some reads, in cycles.  All fields are zero before the first one. -/
structure Latency where
  count : Nat
  total : Nat
  max : Nat
  min : Nat
  deriving DecidableEq, Repr

namespace Latency

/-- No reads. -/
def none : Latency := ⟨0, 0, 0, 0⟩

/-- One more read. -/
def add (l : Latency) (cycles : Nat) : Latency where
  count := l.count + 1
  total := (l.total + cycles) % 0x10000000000000000
  max := Nat.max l.max cycles
  min := if l.count = 0 then cycles else Nat.min l.min cycles

/-- The mean latency, zero for no reads. -/
def mean (l : Latency) : Binary64 :=
  if l.count = 0 then ⟨0, 0⟩ else (Binary64.ofNat l.total).div (Binary64.ofNat l.count)

end Latency
end Flash
end WeightLink
