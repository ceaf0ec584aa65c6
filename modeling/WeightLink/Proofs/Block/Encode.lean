/-
# What a block keeps of its weights

Packing loses nothing of the fields that the encoder chose (`Values.header_toBlock`,
`Values.code_toBlock`).  Level zero is the nearest one to a zero weight under every dialect,
so a zero weight is decoded as zero, whatever its neighbours are
(`Values.getElem_weights_toBlock`).
-/

import WeightLink.Proofs.Block.Element

namespace WeightLink

namespace Dialect

theorem scale_zero (e : UInt8) : scale 0 e = 0 := by
  unfold scale
  split <;> rfl

/-- The nearest level to nothing is nothing. -/
theorem level_nearest_zero (d : Fin 16) : level d (nearest d 0) = 0 := by
  have h := firstLeast_le 7 (fun i => 0 - (level d i).toNat + ((level d i).toNat - 0)) 0
  simp only [level_zero] at h
  rw [← UInt8.toNat_inj]
  simpa [nearest] using h

end Dialect

namespace Fields

variable (f : Fields)

theorem byte_ofFn {k : Nat} (hk : k < 18) :
    Block.byte (Vector.ofFn f.byte) k = f.byte ⟨k, hk⟩ := by
  rw [Block.byte_eq_getElem _ hk, Vector.getElem_ofFn]

/-- A header that fits its bits is packed as it is. -/
theorem header_ofFn (hd : f.dialect.toNat < 16) (he : f.exponent.toNat < 32) :
    Block.header (Vector.ofFn f.byte) = ⟨⟨f.dialect.toNat, hd⟩, ⟨f.exponent.toNat, he⟩⟩ := by
  rw [Block.header, byte_ofFn f (by decide), byte_ofFn f (by decide)]
  simp only [byte, Header.ofBytes, Header.mk.injEq, Fin.ofNat, Fin.mk.injEq, if_true,
    UInt8.toNat_ofNat', Nat.one_ne_zero, if_false]
  omega

/-- The two halves of a code byte. -/
theorem halves (a b : UInt8) : (16 * (a % 16) + b % 16) / 16 = a % 16 ∧
    (16 * (a % 16) + b % 16) % 16 = b % 16 := by
  have ha : (a % 16).toNat < 16 := by
    rw [UInt8.toNat_mod]
    exact Nat.mod_lt _ (by decide)
  have hb : (b % 16).toNat < 16 := by
    rw [UInt8.toNat_mod]
    exact Nat.mod_lt _ (by decide)
  have hsum : (16 * (a % 16) + b % 16).toNat = 16 * (a % 16).toNat + (b % 16).toNat := by
    rw [UInt8.toNat_add, UInt8.toNat_mul]
    change (16 * _ % 256 + _) % 256 = _
    omega
  constructor
  · rw [← UInt8.toNat_inj, UInt8.toNat_div, hsum]
    change (16 * _ + _) / 16 = _
    omega
  · rw [← UInt8.toNat_inj, UInt8.toNat_mod, hsum]
    change (16 * _ + _) % 16 = _
    omega

/-- Of a code, the low four bits are packed. -/
theorem code_ofFn {i : Nat} (hi : i < 32) :
    Block.code (Vector.ofFn f.byte) i = f.codes[i] % 16 := by
  have hk : 2 + i / 2 < 18 := by omega
  have h0 : ¬2 + i / 2 = 0 := by omega
  have h1 : ¬2 + i / 2 = 1 := by omega
  rw [Block.code, byte_ofFn f hk]
  simp only [byte, h0, h1, if_false, (halves _ _).1, (halves _ _).2]
  split
  · congr 2
    omega
  · congr 2
    omega

end Fields

namespace Values

variable (x : Values)

/-- The packed header is the one that the encoder chose. -/
theorem header_toBlock : x.toBlock.header =
    ⟨Dialect.best x.scaled, ⟨x.exponent, Nat.lt_succ_of_le x.exponent_le⟩⟩ := by
  have hd : (UInt8.ofNat (Dialect.best x.scaled)).toNat = (Dialect.best x.scaled).val := by
    rw [UInt8.toNat_ofNat']
    omega
  have he : (UInt8.ofNat x.exponent).toNat = x.exponent := by
    have := x.exponent_le
    rw [UInt8.toNat_ofNat']
    omega
  have hlt := x.exponent_le
  rw [toBlock, Fields.header_ofFn x.encode (by rw [encode, hd]; omega) (by rw [encode, he]; omega)]
  simp only [encode, hd, he]

/-- The packed codes are the ones that the encoder chose. -/
theorem code_toBlock {i : Nat} (hi : i < 32) : x.toBlock.code i =
    Code.ofSign (x[i].toInt < 0) (Dialect.nearest (Dialect.best x.scaled) x.scaled[i]) := by
  have hlow : ∀ (s : Bool) (k : Fin 8), Code.ofSign s k % 16 = Code.ofSign s k := by decide
  rw [toBlock, Fields.code_ofFn x.encode hi]
  simp only [encode, Vector.getElem_zipWith, hlow]

theorem scaled_of_eq_zero {i : Nat} (hi : i < 32) (h : x[i] = 0) : x.scaled[i] = 0 := by
  have hhalf : ∀ e, Rounding.halfEven 0 (1 <<< e) = 0 := by
    intro e
    simp [Rounding.halfEven]
  simp [scaled, h, hhalf]

/-- **A zero weight is decoded as zero.** -/
theorem getElem_weights_toBlock {i : Nat} (hi : i < 32) (h : x[i] = 0) :
    x.toBlock.weights[i] = 0 := by
  have hlevel : Dialect.level x.toBlock.header.dialect (Code.index (x.toBlock.code i)) = 0 := by
    rw [header_toBlock, x.code_toBlock hi, Code.index_ofSign, x.scaled_of_eq_zero hi h]
    exact Dialect.level_nearest_zero _
  simp only [Block.weights, Vector.getElem_ofFn]
  rw [Code.weight, hlevel, Dialect.scale_zero]
  split <;> rfl

end Values
end WeightLink
