/-
# The element law

Element `i` of a block, computed from its bytes without bounds on any intermediate result
(`Block.element`): the level that the code selects, shifted by the exponent without a limit
(`Dialect.shifted`) and only then cut off at `127`.  The host decoder follows the law
(`Block.toInt_weights`).
-/

import Mathlib.Algebra.Group.Nat.Defs
import WeightLink.Block.Decoder

namespace WeightLink

/-- The magnitude of a level of `m` halves under an exponent, in natural numbers. -/
def Dialect.shifted (m exponent : Nat) : Nat :=
  if exponent = 0 then (m + 1) / 2 else min 127 (m * 2 ^ (exponent - 1))

/-- Element `i` of a block. -/
def Block.element (b : Block) (i : Fin 32) : Int :=
  let word := 256 * (b.byte 0).toNat + (b.byte 1).toNat
  let dialect : Fin 16 := ⟨word / 4096 % 16, by omega⟩
  let exponent := word / 128 % 32
  let pair := (b.byte (2 + i.val / 2)).toNat
  let code := if i.val % 2 = 0 then pair / 16 else pair % 16
  let index : Fin 8 := ⟨code % 8, by omega⟩
  let size : Int := Dialect.shifted Dialect.table[dialect][index].toNat exponent
  if code / 8 = 1 then -size else size

namespace Dialect

theorem shifted_le {m : Nat} (hm : m ≤ 15) (exponent : Nat) : shifted m exponent ≤ 127 := by
  unfold shifted
  split <;> omega

theorem toNat_level_le (d : Fin 16) (i : Fin 8) : (level d i).toNat ≤ 15 :=
  UInt8.le_iff_toNat_le.1 (level_le d i)

/-- The scale of a level under the exponent of a header is the shifted level. -/
theorem toNat_scale_level (d : Fin 16) (i : Fin 8) (e : Fin 32) :
    (scale (level d i) (UInt8.ofNat e)).toNat = shifted (level d i).toNat e := by
  have he : (UInt8.ofNat e).toNat = e := by
    rw [UInt8.toNat_ofNat']
    omega
  have h0 : UInt8.ofNat e = 0 ↔ e.val = 0 := by
    rw [← UInt8.toNat_inj, he]
    rfl
  rw [toNat_scale (toNat_level_le d i), shifted, he, Nat.shiftLeft_eq]
  simp only [h0]

theorem scale_level_le (d : Fin 16) (i : Fin 8) (e : Fin 32) :
    (scale (level d i) (UInt8.ofNat e)).toNat ≤ 127 := by
  rw [toNat_scale_level]
  exact shifted_le (toNat_level_le d i) e

end Dialect

/-- The weight of a code is its shifted level with its sign. -/
theorem Code.toInt_weight (h : Header) (c : UInt8) : (weight h c).toInt =
    let size : Int := Dialect.shifted (Dialect.level h.dialect (index c)).toNat h.exponent
    if negative c then -size else size := by
  have hle := Dialect.shifted_le (Dialect.toNat_level_le h.dialect (index c)) h.exponent
  simp only [weight, Dialect.toNat_scale_level]
  split
  · rw [Int8.toInt_ofInt_of_le (by omega) (by omega)]
  · rw [Int8.toInt_ofInt_of_le (by omega) (by omega)]

/-- **The host decoder follows the law.** -/
theorem Block.toInt_weights (b : Block) {i : Nat} (hi : i < 32) :
    (b.weights[i]).toInt = b.element ⟨i, hi⟩ := by
  have hcode : (b.code i).toNat =
      let pair := (b.byte (2 + i / 2)).toNat
      if i % 2 = 0 then pair / 16 else pair % 16 := by
    simp only [code]
    split <;> simp
  have hsign : (b.code i).toNat / 8 % 2 = 1 ↔ (b.code i).toNat / 8 = 1 := by
    have := b.code_lt i
    omega
  simp only [weights, Vector.getElem_ofFn, Code.toInt_weight]
  simp only [element, Code.negative, Code.index, header, Header.ofBytes, decide_eq_true_eq, hsign]
  rw [hcode]
  rfl

/-- The smallest weight of a byte is never produced. -/
theorem Block.element_bounds (b : Block) (i : Fin 32) :
    -127 ≤ b.element i ∧ b.element i ≤ 127 := by
  have hsigned : ∀ (negative : Prop) [Decidable negative] (size : Nat), size ≤ 127 →
      -127 ≤ (if negative then -(size : Int) else size) ∧
        (if negative then -(size : Int) else size) ≤ 127 := by
    intro negative _ size hle
    split <;> omega
  exact hsigned _ _ (Dialect.shifted_le (Dialect.toNat_level_le _ _) _)

/-- The spare bits of the header do not matter. -/
theorem Block.weights_congr {b b' : Block} (h₀ : b.byte 0 = b'.byte 0)
    (h₁ : (b.byte 1).toNat / 128 = (b'.byte 1).toNat / 128)
    (hrest : ∀ k < 18, 2 ≤ k → b.byte k = b'.byte k) : b.weights = b'.weights := by
  have hheader : b.header = b'.header := Header.ofBytes_eq_iff.2 ⟨h₀, h₁⟩
  have hcode : ∀ i < 32, b.code i = b'.code i := by
    intro i hi
    rw [code, code, hrest _ (by omega) (by omega)]
  apply Vector.ext
  intro i hi
  simp only [weights, Vector.getElem_ofFn, hheader, hcode i hi]

end WeightLink
