/-
# Rounding a quotient to the nearest integer, a half to the even neighbour

The encoder scales magnitudes by it (`Block.encode`), a binary64 value is chosen
by it (`Binary64.ofRatio`), and the mean latency is shown to one place by it.
-/

namespace WeightLink
namespace Rounding

/-- `n / d` rounded to the nearest integer; of two equally near, the even one. -/
def halfEven (n d : Nat) : Nat :=
  let q := n / d
  let r := n % d
  if d < 2 * r then q + 1
  else if 2 * r = d then q + q % 2
  else q

theorem halfEven_one (n : Nat) : halfEven n 1 = n := by
  simp [halfEven, Nat.mod_one]

/-- **The rounded quotient is within half a unit of the exact one.** -/
theorem halfEven_near (n : Nat) {d : Nat} (hd : 0 < d) :
    2 * n ≤ (2 * halfEven n d + 1) * d ∧ 2 * halfEven n d * d ≤ 2 * n + d := by
  have hn : d * (n / d) + n % d = n := Nat.div_add_mod n d
  have hr : n % d < d := Nat.mod_lt n hd
  have hq : n / d % 2 ≤ 1 := by omega
  have e : ∀ a, (2 * a + 1) * d = 2 * (d * a) + d := fun a => by
    rw [Nat.add_mul, Nat.mul_assoc, Nat.mul_comm a d, Nat.one_mul]
  have e' : ∀ a, 2 * a * d = 2 * (d * a) := fun a => by rw [Nat.mul_assoc, Nat.mul_comm a d]
  have e₁ : d * (n / d + 1) = d * (n / d) + d := by rw [Nat.mul_add, Nat.mul_one]
  unfold halfEven
  simp only [e, e']
  split
  · rw [e₁]; omega
  · split
    · rcases Nat.lt_or_ge (n / d % 2) 1 with h | h
      · rw [show n / d % 2 = 0 by omega, Nat.add_zero]; omega
      · rw [show n / d % 2 = 1 by omega, e₁]; omega
    · omega

end Rounding
end WeightLink
