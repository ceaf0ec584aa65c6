/-
# The sixteen dialects

A dialect is a row of eight levels in ascending order, in units of one half, that
starts at zero.  Dialects come in pairs with the same four smallest levels and the same
largest one.  Between them the two of a pair differ, in one level or, in the first two
pairs, in two levels, so a block can choose where its resolution goes.

`scale` takes a level to the magnitude that it stands for under the exponent of
the block: halves are rounded up at exponent `0`, and every exponent above doubles
the magnitude, which saturates at `127`.  A weight of `-128` is therefore never
produced.
-/

import WeightLink.Block.Basic

namespace WeightLink
namespace Dialect

/-- The levels of every dialect. -/
def table : Vector (Vector UInt8 8) 16 := #v[
  #v[0, 1, 2, 3, 4, 4, 4, 4],
  #v[0, 1, 2, 3, 3, 3, 4, 4],
  #v[0, 1, 2, 3, 4, 5, 5, 5],
  #v[0, 1, 2, 3, 3, 4, 5, 5],
  #v[0, 1, 2, 3, 4, 5, 6, 6],
  #v[0, 1, 2, 3, 4, 4, 6, 6],
  #v[0, 1, 2, 3, 4, 5, 6, 7],
  #v[0, 1, 2, 3, 4, 5, 7, 7],
  #v[0, 1, 2, 3, 4, 6, 7, 8],
  #v[0, 1, 2, 3, 4, 6, 8, 8],
  #v[0, 1, 2, 3, 4, 6, 8, 10],
  #v[0, 1, 2, 3, 4, 6, 10, 10],
  #v[0, 1, 2, 3, 4, 6, 10, 12],
  #v[0, 1, 2, 3, 4, 6, 12, 12],
  #v[0, 1, 2, 3, 4, 6, 12, 15],
  #v[0, 1, 2, 3, 4, 6, 13, 15]]

/-- Level `i` of dialect `d`, in halves. -/
def level (d : Fin 16) (i : Fin 8) : UInt8 := table[d][i]

/-- The largest magnitude of a weight. -/
def maxMagnitude : Nat := 127

/-- The magnitude that a level stands for under an exponent.  A level other than zero
is beyond the largest magnitude once it is doubled seven times. -/
def scale (level exponent : UInt8) : UInt8 :=
  if exponent = 0 then UInt8.ofNat ((level.toNat + 1) / 2)
  else if level = 0 then 0
  else
    let doublings := exponent.toNat - 1
    if 7 ≤ doublings then UInt8.ofNat maxMagnitude
    else
      let wide := level.toNat <<< doublings
      if maxMagnitude < wide then UInt8.ofNat maxMagnitude else UInt8.ofNat wide

theorem level_zero (d : Fin 16) : level d 0 = 0 := by revert d; decide

theorem level_le (d : Fin 16) (i : Fin 8) : level d i ≤ 15 := by revert d i; decide

theorem level_mono (d : Fin 16) {i j : Fin 8} (h : i ≤ j) : level d i ≤ level d j := by
  revert d i j; decide

/-- **A scaled level is the rounded-up half, or the doubled level up to `127`.** -/
theorem toNat_scale {m e : UInt8} (hm : m.toNat ≤ 15) : (scale m e).toNat =
    if e = 0 then (m.toNat + 1) / 2 else min 127 (m.toNat <<< (e.toNat - 1)) := by
  unfold scale maxMagnitude
  by_cases he : e = 0
  · simp only [he, if_true, UInt8.toNat_ofNat']; omega
  by_cases h₀ : m = 0
  · simp [he, h₀]
  have hpos : 1 ≤ m.toNat := by
    have : m.toNat ≠ 0 := fun h => h₀ (UInt8.toNat_inj.1 h)
    omega
  simp only [he, h₀, if_false, Nat.shiftLeft_eq]
  split
  · next h =>
    have : 2 ^ 7 ≤ 2 ^ (e.toNat - 1) := Nat.pow_le_pow_right (by omega) h
    have : 1 * 2 ^ 7 ≤ m.toNat * 2 ^ (e.toNat - 1) := Nat.mul_le_mul hpos this
    simp only [UInt8.toNat_ofNat']; omega
  · split <;> simp only [UInt8.toNat_ofNat'] <;> omega

/-- The magnitudes that a block can hold under a dialect and an exponent, by index. -/
def magnitudes (d : Fin 16) (e : Fin 32) : Vector UInt8 8 :=
  Vector.ofFn fun i => scale (level d i) (UInt8.ofNat e)

end Dialect
end WeightLink
