/-
# Encoding a block keeps the order of its weights

A block is decoded to other weights than it was encoded from, but to weights in the same order:
every step on the way is monotone.  Rounding and the choice of a nearest level are so for one
reason, that of two numbers the smaller one is never nearer to the larger of two candidates
(`le_of_nearest`), and the exponent stage is so in spite of its limit (`Dialect.shifted_mono`).

All of these steps look at magnitudes only, and the weights are signed afterwards
(`Values.toInt_weights_toBlock`).  So zero stays zero, no weight changes its sign, and the negated
weights are encoded with the same dialect, exponent and levels.  The exception is `-128`, which has
no negative among the weights.
-/

import WeightLink.Proofs.Block.Optimal

namespace WeightLink

/-- Candidates that are nearest to two numbers are in the order of the numbers. -/
theorem le_of_nearest {s t a b : Nat} (hst : s < t) (ha : Nat.dist s a ≤ Nat.dist s b)
    (hb : Nat.dist t b ≤ Nat.dist t a) : a ≤ b := by
  simp only [Nat.dist] at ha hb
  omega

/-- Of two numbers, the smaller one is not rounded to the greater quotient. -/
theorem Rounding.IsHalfEven.mono {n n' d q q' : Nat} (h : IsHalfEven n d q)
    (h' : IsHalfEven n' d q') (hd : 0 < d) (hn : n ≤ n') : q ≤ q' := by
  rcases Nat.lt_or_eq_of_le hn with hlt | rfl
  · refine Nat.le_of_not_lt fun hgt => ?_
    obtain ⟨k, rfl⟩ := Nat.exists_eq_add_of_lt hgt
    have hfar : d * (q' + k + 1) = d * q' + d * k + d := by ring
    have hnear := h.near
    have hnear' := h'.near
    simp only [Nat.dist, hfar] at hnear hnear'
    omega
  · exact Nat.le_of_eq (h.unique h' hd)

namespace Dialect

/-- The nearest level of a greater magnitude is not a smaller one. -/
theorem level_nearest_mono (d : Fin 16) {s t : Nat} (h : s ≤ t) :
    (level d (nearest d s)).toNat ≤ (level d (nearest d t)).toNat := by
  rcases Nat.lt_or_eq_of_le h with hlt | rfl
  · exact le_of_nearest hlt (dist_nearest_le d s _) (dist_nearest_le d t _)
  · exact Nat.le_refl _

theorem shifted_mono {m n : Nat} (h : m ≤ n) (e : Nat) : shifted m e ≤ shifted n e := by
  unfold shifted
  split
  · omega
  · exact min_le_min_left 127 (Nat.mul_le_mul_right _ h)

end Dialect

namespace Values

variable (x : Values)

theorem size_le (i : Fin 32) : x.size i ≤ 127 :=
  Dialect.shifted_le (Dialect.toNat_level_le _ _) _

theorem size_of_eq_zero {i : Fin 32} (h : x.get i = 0) : x.size i = 0 := by
  have hscaled : x.scaled.get i = 0 := x.scaled_of_eq_zero i.isLt h
  rw [size, hscaled, Dialect.level_nearest_zero]
  simp [Dialect.shifted]

/-- A weight of greater magnitude has no smaller size. -/
theorem size_mono {i j : Fin 32} (h : (x.get i).toInt.natAbs ≤ (x.get j).toInt.natAbs) :
    x.size i ≤ x.size j := by
  have hscaled : x.scaled.get i ≤ x.scaled.get j := by
    rw [get_scaled, get_scaled]
    have hpos := Nat.two_pow_pos x.exponent
    exact (Rounding.isHalfEven_halfEven _ hpos).mono (Rounding.isHalfEven_halfEven _ hpos) hpos
      (Nat.mul_le_mul_left 2 h)
  exact Dialect.shifted_mono (Dialect.level_nearest_mono _ hscaled) _

/-- **Decoded weights are in the order of the weights.** -/
theorem weights_toBlock_mono {i j : Fin 32} (h : x.get i ≤ x.get j) :
    x.toBlock.weights.get i ≤ x.toBlock.weights.get j := by
  rw [Int8.le_iff_toInt_le] at h ⊢
  rw [toInt_weights_toBlock, toInt_weights_toBlock]
  split_ifs with hi hj hj
  · -- Of two negative weights, the smaller one has the greater magnitude.
    have hsize := x.size_mono (i := j) (j := i) (by omega)
    omega
  · omega
  · omega
  · have hsize := x.size_mono (i := i) (j := j) (by omega)
    omega

/-- A decoded weight is zero or has the sign of the weight. -/
theorem sign_weights_toBlock (i : Fin 32) : x.toBlock.weights.get i = 0 ∨
    (x.toBlock.weights.get i).toInt.sign = (x.get i).toInt.sign := by
  rw [← Int8.toInt_inj, toInt_weights_toBlock]
  rcases Nat.eq_zero_or_pos (x.size i) with hzero | hpos
  · left
    simp [hzero]
  have hne : x.get i ≠ 0 := fun h => Nat.ne_of_gt hpos (x.size_of_eq_zero h)
  have hne' : (x.get i).toInt ≠ 0 := fun h => hne (Int8.toInt_inj.1 h)
  right
  split_ifs with hi
  · rw [Int.sign_eq_neg_one_of_neg hi, Int.sign_eq_neg_one_of_neg (by omega)]
  · rw [Int.sign_eq_one_of_pos (by omega), Int.sign_eq_one_of_pos (by omega)]

/-! ### Negation -/

/-- The negative of a weight is a weight, unless that is the least one. -/
theorem toInt_neg_of_ne {v : Int8} (h : v ≠ -128) : (-v).toInt = -v.toInt := by
  have hlow := v.le_toInt
  have hhigh := v.toInt_lt
  have hne : v.toInt ≠ -128 := fun hv => h (Int8.toInt_inj.1 hv)
  rw [Int8.toInt_neg]
  exact Int.bmod_eq_of_le (by omega) (by omega)

/-- The weights with their signs changed. -/
def negated : Values := x.map fun v => -v

variable {x}

/-- The fields apart from the signs depend on the magnitudes alone. -/
theorem size_congr {y : Values}
    (h : ∀ i : Fin 32, (y.get i).toInt.natAbs = (x.get i).toInt.natAbs) : y.size = x.size := by
  have hpeak : y.peak = x.peak := by
    rw [peak_eq_sup, peak_eq_sup]
    simp only [h]
  have hexp : y.exponent = x.exponent := by
    unfold exponent
    rw [hpeak]
  have hscaled : y.scaled = x.scaled := by
    have hget (i : Fin 32) : y.scaled.get i = x.scaled.get i := by
      rw [get_scaled, get_scaled, h, hexp]
    exact Vector.ext fun i hi => hget ⟨i, hi⟩
  funext i
  rw [size, size, hscaled, hexp]

/-- **Negated weights are decoded to the negated weights.** -/
theorem weights_toBlock_negated (hmin : ∀ i : Fin 32, x.get i ≠ -128) (i : Fin 32) :
    x.negated.toBlock.weights.get i = -x.toBlock.weights.get i := by
  have hneg (i : Fin 32) : (x.negated.get i).toInt = -(x.get i).toInt := by
    rw [negated, Vector.get_map]
    exact toInt_neg_of_ne (hmin i)
  have hsize : x.negated.size = x.size := size_congr fun i => by rw [hneg, Int.natAbs_neg]
  have hbound := x.size_le i
  have hdecoded := x.toInt_weights_toBlock i
  have hne : x.toBlock.weights.get i ≠ -128 := by
    intro h
    have hlow : (x.toBlock.weights.get i).toInt = -128 := by rw [h]; rfl
    split_ifs at hdecoded <;> omega
  apply Int8.toInt_inj.1
  rw [toInt_weights_toBlock, hneg, hsize, toInt_neg_of_ne hne, hdecoded]
  rcases Int.lt_trichotomy (x.get i).toInt 0 with hlt | hzero | hgt
  · rw [if_pos hlt, if_neg (by omega), Int.neg_neg]
  · have hx : x.get i = 0 := Int8.toInt_inj.1 hzero
    simp [x.size_of_eq_zero hx]
  · have hnot : ¬(x.get i).toInt < 0 := by omega
    rw [if_neg hnot, if_pos (by omega)]

/-- **Quantisation keeps the order, and is odd.**  For all weights, what the packed block of the
encoder is decoded to is in the order of the weights; zero stays zero, no sign changes, and no
magnitude exceeds 127.  If no weight is `-128`, the negated weights are decoded to the negative of
it. -/
theorem quantised_in_order (x : Values) : ∃ b, x.encode.pack = .ok b ∧
    (∀ i j : Fin 32, x.get i ≤ x.get j → b.weights.get i ≤ b.weights.get j) ∧
    (∀ i : Fin 32, x.get i = 0 → b.weights.get i = 0) ∧
    (∀ i : Fin 32, b.weights.get i = 0 ∨
      (b.weights.get i).toInt.sign = (x.get i).toInt.sign) ∧
    (∀ i : Fin 32, (b.weights.get i).toInt.natAbs ≤ 127) ∧
    ((∀ i : Fin 32, x.get i ≠ -128) → ∃ b', x.negated.encode.pack = .ok b' ∧
      ∀ i : Fin 32, b'.weights.get i = -b.weights.get i) := by
  refine ⟨x.toBlock, x.pack_encode, fun i j => x.weights_toBlock_mono,
    fun i hi => x.getElem_weights_toBlock i.isLt hi, x.sign_weights_toBlock, fun i => ?_,
    fun hmin => ⟨_, x.negated.pack_encode, weights_toBlock_negated hmin⟩⟩
  have hbound := x.size_le i
  rw [toInt_weights_toBlock]
  split_ifs <;> omega

/-- Weights of both signs, none of them a level under the exponent that they need. -/
def ramp : Values := Vector.ofFn fun i => Int8.ofInt (7 * i.val - 108)

theorem quantised_in_order_ramp :
    ramp.get 15 ≤ ramp.get 16 ∧ (∀ i : Fin 32, ramp.get i ≠ -128) ∧
    ∃ b b', ramp.encode.pack = .ok b ∧ b.weights ≠ ramp ∧ b.weights.get 15 ≤ b.weights.get 16 ∧
      ramp.negated.encode.pack = .ok b' ∧ ∀ i : Fin 32, b'.weights.get i = -b.weights.get i := by
  have hle : ramp.get 15 ≤ ramp.get 16 := by decide +kernel
  have hmin : ∀ i : Fin 32, ramp.get i ≠ -128 := by decide +kernel
  have hexp : ramp.exponent = 4 := by decide +kernel
  have hchanged : ramp.toBlock.weights ≠ ramp := by
    -- Under that exponent the magnitudes are multiples of eight, which 108 is not.
    intro h
    have hfirst := ramp.toInt_weights_toBlock 0
    rw [h, show (ramp.get 0).toInt = -108 by decide +kernel, if_pos (by decide), size, hexp,
      Dialect.shifted, if_neg (by decide)] at hfirst
    omega
  obtain ⟨b, hb, horder, -, -, -, hodd⟩ := quantised_in_order ramp
  obtain ⟨b', hb', hneg⟩ := hodd hmin
  obtain rfl : b = ramp.toBlock := Except.ok.inj (hb.symm.trans ramp.pack_encode)
  exact ⟨hle, hmin, _, b', hb, hchanged, horder _ _ hle, hb', hneg⟩

end Values
end WeightLink
