/-
# The embedded reader against the definition

The embedded reader has its own table and works in signed 32-bit arithmetic, where it gives
up shifting above exponent `8`.  On the levels and exponents that a block can name, its
magnitudes are those of the definition, and so are its weights (`Embedded.decode_eq`).
-/

import WeightLink.Proofs.Block.Element

namespace WeightLink

/-! ### Fields of a header word -/

theorem Header.toNat_word (high low : UInt8) :
    (high.toUInt16 <<< 8 ||| low.toUInt16).toNat = 256 * high.toNat + low.toNat := by
  have h₁ := high.toNat_lt
  have h₂ := low.toNat_lt
  rw [UInt16.toNat_or, UInt16.toNat_shiftLeft, UInt8.toNat_toUInt16, UInt8.toNat_toUInt16]
  change high.toNat <<< 8 % 65536 ||| low.toNat = _
  rw [Nat.mod_eq_of_lt (by rw [Nat.shiftLeft_eq]; omega),
    ← Nat.shiftLeft_add_eq_or_of_lt (i := 8) h₂, Nat.shiftLeft_eq]
  omega

section HeaderWord

variable {w : UInt16} {b : Block}

theorem Block.dialect_of_word (hw : w.toNat = 256 * (b.byte 0).toNat + (b.byte 1).toNat) :
    ((w >>> 12) &&& 0xF).toUInt8 = UInt8.ofNat b.header.dialect := by
  rw [← UInt8.toNat_inj, UInt16.toNat_toUInt8, UInt16.toNat_and, UInt16.toNat_shiftRight, hw]
  change (_ >>> 12 &&& 15) % 256 = _
  rw [Nat.and_two_pow_sub_one_eq_mod _ 4, Nat.shiftRight_eq_div_pow, UInt8.toNat_ofNat']
  rfl

theorem Block.exponent_of_word (hw : w.toNat = 256 * (b.byte 0).toNat + (b.byte 1).toNat) :
    ((w >>> 7) &&& 0x1F).toUInt8 = UInt8.ofNat b.header.exponent := by
  rw [← UInt8.toNat_inj, UInt16.toNat_toUInt8, UInt16.toNat_and, UInt16.toNat_shiftRight, hw]
  change (_ >>> 7 &&& 31) % 256 = _
  rw [Nat.and_two_pow_sub_one_eq_mod _ 5, Nat.shiftRight_eq_div_pow, UInt8.toNat_ofNat']
  rfl

end HeaderWord

/-! ### Bits of a code -/

namespace Code

theorem shiftRight_four (pair : UInt8) : pair >>> 4 = pair / 16 := by
  rw [← UInt8.toNat_inj, UInt8.toNat_shiftRight, UInt8.toNat_div]
  exact Nat.shiftRight_eq_div_pow _ 4

theorem and_fifteen (pair : UInt8) : pair &&& 0x0F = pair % 16 := by
  rw [← UInt8.toNat_inj, UInt8.toNat_and, UInt8.toNat_mod]
  exact Nat.and_two_pow_sub_one_eq_mod pair.toNat 4

theorem sign_ne_zero_iff (c : UInt8) : (c >>> 3) &&& 1 ≠ 0 ↔ negative c = true := by
  rw [Ne, ← UInt8.toNat_inj, UInt8.toNat_and, UInt8.toNat_shiftRight]
  change ¬(c.toNat >>> 3 &&& 1 = 0) ↔ _
  rw [Nat.and_one_is_mod, Nat.shiftRight_eq_div_pow, negative, decide_eq_true_eq]
  omega

theorem toNat_and_seven (c : UInt8) : (c &&& 0x07).toNat = (index c).val := by
  rw [UInt8.toNat_and]
  exact Nat.and_two_pow_sub_one_eq_mod c.toNat 3

end Code

namespace Embedded

theorem table_eq_level (d : Fin 16) (i : Fin 8) :
    table[8 * d.val + i.val]?.getD 0 = Dialect.level d i := by
  revert d i; decide +kernel

/-- The sixteen levels and 32 exponents that there are. -/
theorem magnitude_eq_scale {level : UInt8} (hl : level.toNat ≤ 15) (e : Fin 32) :
    magnitude level.toUInt32.toInt32 (UInt8.ofNat e) =
      (Dialect.scale level (UInt8.ofNat e)).toUInt32.toInt32 := by
  have hall : ∀ m : Fin 16, ∀ e : Fin 32,
      magnitude (UInt8.ofNat m).toUInt32.toInt32 (UInt8.ofNat e) =
        (Dialect.scale (UInt8.ofNat m) (UInt8.ofNat e)).toUInt32.toInt32 := by decide +kernel
  have hm := hall ⟨level.toNat, by omega⟩ e
  rwa [UInt8.ofNat_toNat] at hm

theorem toInt8_magnitude {m : UInt8} (hm : m.toNat ≤ 127) :
    m.toUInt32.toInt32.toInt8 = Int8.ofInt m.toNat ∧
      (-m.toUInt32.toInt32).toInt8 = Int8.ofInt (-m.toNat) := by
  have hall : ∀ n : Fin 128, (UInt8.ofNat n).toUInt32.toInt32.toInt8 = Int8.ofInt n.val ∧
      (-(UInt8.ofNat n).toUInt32.toInt32).toInt8 = Int8.ofInt (-n.val) := by decide +kernel
  have hn := hall ⟨m.toNat, by omega⟩
  rwa [UInt8.ofNat_toNat] at hn

theorem weight_eq (h : Header) (c : UInt8) :
    weight (UInt8.ofNat h.dialect) (UInt8.ofNat h.exponent) c = Code.weight h c := by
  have hd : (UInt8.ofNat h.dialect).toNat = h.dialect.val := by
    rw [UInt8.toNat_ofNat']
    omega
  have hl := Dialect.toNat_level_le h.dialect (Code.index c)
  obtain ⟨hpos, hneg⟩ :=
    toInt8_magnitude (Dialect.scale_level_le h.dialect (Code.index c) h.exponent)
  simp only [weight, hd, Code.toNat_and_seven, table_eq_level, magnitude_eq_scale hl,
    Code.sign_ne_zero_iff, Code.weight, hpos, hneg]
  split <;> rfl

/-- **The embedded reader decodes by the definition.** -/
theorem decode_eq (b : Block) : decode b = b.weights := by
  have hw := Header.toNat_word (b.byte 0) (b.byte 1)
  have hhigh : ∀ pair : UInt8, (pair >>> 4) &&& 0x0F = pair / 16 := by
    intro pair
    rw [Code.shiftRight_four, Code.and_fifteen, ← UInt8.toNat_inj, UInt8.toNat_mod, UInt8.toNat_div]
    have := pair.toNat_lt
    exact Nat.mod_eq_of_lt (by change _ / 16 < 16; omega)
  apply Vector.ext
  intro i hi
  simp only [decode, Block.dialect_of_word hw, Block.exponent_of_word hw, pair, weight_eq,
    Block.weights, Block.code, Vector.getElem_ofFn, hhigh, Code.and_fifteen]
  split <;> rfl

end Embedded
end WeightLink
