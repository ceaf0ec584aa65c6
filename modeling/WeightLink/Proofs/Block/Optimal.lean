/-
# The encoder makes the best of a block

An encoder of 32 weights has a choice of 16 dialects, and of 8 levels for each weight.  The one of
`Values.encode` looks at one weight and one dialect at a time, but what it finds is the best of all
choices (`Dialect.error_le_distance`): the nearest levels of a dialect are the best choice from it,
and the dialect is the first one whose best choice is as good as any (`Values.encode_optimal`).

The exponent is the least that brings twice the largest magnitude under the largest level, so
neither the bound on exponents nor the one on scaled magnitudes is ever met.  A block whose scaled
magnitudes are levels of one dialect is therefore kept as it is, which is always so for magnitudes
of at most 5.
-/

import Mathlib
import WeightLink.Proofs.Block.Encode

namespace WeightLink

namespace Rounding

/-- The number `q` is nearest to `n / d`, and the even one of two that are equally near. -/
structure IsHalfEven (n d q : Nat) : Prop where
  near : 2 * Nat.dist n (d * q) ≤ d
  even : 2 * Nat.dist n (d * q) = d → q % 2 = 0

variable {n d : Nat}

theorem isHalfEven_mul (q : Nat) (hd : 0 < d) : IsHalfEven (d * q) d q where
  near := by rw [Nat.dist_self]; omega
  even h := by rw [Nat.dist_self] at h; omega

theorem isHalfEven_halfEven (n : Nat) (hd : 0 < d) : IsHalfEven n d (halfEven n d) where
  near := by
    have hlow : (2 * halfEven n d + 1) * d = 2 * (d * halfEven n d) + d := by ring
    have hhigh : 2 * halfEven n d * d = 2 * (d * halfEven n d) := by ring
    have hnear := halfEven_near n hd
    rw [hlow, hhigh] at hnear
    simp only [Nat.dist]
    omega
  even h := by
    have hn : d * (n / d) + n % d = n := Nat.div_add_mod n d
    have hr : n % d < d := Nat.mod_lt n hd
    have hsucc : d * (n / d + 1) = d * (n / d) + d := Nat.mul_succ _ _
    simp only [halfEven] at h ⊢
    -- Only a remainder of half the divisor is as far from one neighbour as from the other.
    split_ifs at h ⊢ with hup htie
    · simp only [Nat.dist, hsucc] at h
      omega
    · omega
    · simp only [Nat.dist] at h
      omega

/-- There is only one such number. -/
theorem IsHalfEven.unique {q q' : Nat} (h : IsHalfEven n d q) (h' : IsHalfEven n d q')
    (hd : 0 < d) : q = q' := by
  wlog hlt : q < q' generalizing q q'
  · rcases Nat.lt_or_eq_of_le (Nat.le_of_not_lt hlt) with hgt | heq
    · exact (this h' h hgt).symm
    · exact heq.symm
  -- Two such numbers are neighbours, with the quotient half way between them.
  obtain ⟨k, rfl⟩ := Nat.exists_eq_add_of_lt hlt
  have hfar : d * (q + k + 1) = d * q + d * k + d := by ring
  have hnear := h.near
  have hnear' := h'.near
  have heven := h.even
  have heven' := h'.even
  simp only [Nat.dist, hfar] at hnear hnear' heven heven'
  have hk : d * k = 0 := by omega
  have hzero : k = 0 := by simpa [Nat.pos_iff_ne_zero.1 hd] using hk
  omega

theorem IsHalfEven.le_of_le {q m : Nat} (h : IsHalfEven n d q) (hd : 0 < d) (hn : n ≤ d * m) :
    q ≤ m := by
  refine Nat.le_of_not_lt fun hlt => ?_
  obtain ⟨k, rfl⟩ := Nat.exists_eq_add_of_lt hlt
  have hfar : d * (m + k + 1) = d * m + d * k + d := by ring
  have hnear := h.near
  simp only [Nat.dist, hfar] at hnear
  omega

theorem halfEven_mul (q : Nat) (hd : 0 < d) : halfEven (d * q) d = q :=
  (isHalfEven_halfEven _ hd).unique (isHalfEven_mul q hd) hd

end Rounding

namespace Dialect

/-- The sum of the squared distances of scaled magnitudes to levels of a dialect, one chosen for
each. -/
def distance (d : Fin 16) (scaled : Vector Nat 32) (choice : Fin 32 → Fin 8) : Nat :=
  ∑ i, Nat.dist (scaled.get i) (level d (choice i)).toNat ^ 2

/-- No level is nearer than the nearest one. -/
theorem dist_nearest_le (d : Fin 16) (s : Nat) (k : Fin 8) :
    Nat.dist s (level d (nearest d s)).toNat ≤ Nat.dist s (level d k).toNat :=
  firstLeast_le 7 (fun i => Nat.dist s (level d i).toNat) k

/-- No level before it is as near. -/
theorem dist_nearest_lt (d : Fin 16) (s : Nat) {k : Fin 8} (hk : k < nearest d s) :
    Nat.dist s (level d (nearest d s)).toNat < Nat.dist s (level d k).toNat :=
  lt_of_lt_firstLeast 7 (fun i => Nat.dist s (level d i).toNat) k hk

/-- The error of a dialect is the distance to the nearest levels. -/
theorem error_eq (d : Fin 16) (scaled : Vector Nat 32) :
    error d scaled = distance d scaled fun i => nearest d (scaled.get i) := by
  let cost (s : Nat) := squaredDistance s (level d (nearest d s)).toNat
  -- The fold adds up a list, and the list has the magnitudes in the order of their places.
  have hlist : error d scaled = (scaled.toList.map cost).sum := by
    rw [List.sum_eq_foldl, List.foldl_map, error, ← Vector.foldl_toList]
  have hofFn : scaled.toList = List.ofFn fun i : Fin 32 => scaled.get i := by
    rw [← Vector.toList_ofFn]
    exact congrArg Vector.toList Vector.ofFn_getElem.symm
  rw [hlist, hofFn, List.map_ofFn, List.sum_ofFn]
  exact Finset.sum_congr rfl fun i _ => (pow_two _).symm

/-- **The nearest levels are the best choice from a dialect.** -/
theorem error_le_distance (d : Fin 16) (scaled : Vector Nat 32) (choice : Fin 32 → Fin 8) :
    error d scaled ≤ distance d scaled choice := by
  rw [error_eq]
  exact Finset.sum_le_sum fun i _ => Nat.pow_le_pow_left (dist_nearest_le d (scaled.get i) _) 2

theorem error_best_le (scaled : Vector Nat 32) (d : Fin 16) :
    error (best scaled) scaled ≤ error d scaled :=
  firstLeast_le 15 (fun d => error d scaled) d

theorem error_best_lt (scaled : Vector Nat 32) {d : Fin 16} (hd : d < best scaled) :
    error (best scaled) scaled < error d scaled :=
  lt_of_lt_firstLeast 15 (fun d => error d scaled) d hd

/-- Scaled magnitudes that are levels of one dialect are met by the best one. -/
theorem level_nearest_best {scaled : Vector Nat 32} {d : Fin 16}
    (h : ∀ i : Fin 32, ∃ k, (level d k).toNat = scaled.get i) (i : Fin 32) :
    (level (best scaled) (nearest (best scaled) (scaled.get i))).toNat = scaled.get i := by
  choose choice hchoice using h
  have hzero : distance d scaled choice = 0 := by simp [distance, hchoice, Nat.dist_self]
  have hbest : error (best scaled) scaled = 0 :=
    Nat.le_zero.1 (hzero ▸ (error_best_le scaled d).trans (error_le_distance d scaled choice))
  rw [error_eq, distance, Finset.sum_eq_zero_iff] at hbest
  have hnear := hbest i (Finset.mem_univ i)
  exact (Nat.eq_of_dist_eq_zero (pow_eq_zero_iff two_ne_zero |>.1 hnear)).symm

end Dialect

namespace Values

variable (x : Values)

/-! ### The exponent -/

theorem natAbs_le (v : Int8) : v.toInt.natAbs ≤ 128 := by
  have := v.le_toInt
  have := v.toInt_lt
  omega

theorem foldl_max_le_iff {α : Type} (size : α → Nat) (l : List α) (a m : Nat) :
    l.foldl (fun most v => max most (size v)) a ≤ m ↔ a ≤ m ∧ ∀ v ∈ l, size v ≤ m := by
  induction l generalizing a with
  | nil => simp
  | cons v l ih => simp [ih, and_assoc]

/-- The peak is the maximum of the magnitudes. -/
theorem peak_eq_sup : x.peak = Finset.univ.sup fun i : Fin 32 => (x.get i).toInt.natAbs := by
  refine eq_of_forall_ge_iff fun m => ?_
  rw [peak, ← Vector.foldl_toList, foldl_max_le_iff, Finset.sup_le_iff]
  simp only [Vector.mem_toList_iff, Vector.mem_iff_getElem]
  constructor
  · exact fun ⟨_, hall⟩ i _ => hall _ ⟨i, i.isLt, rfl⟩
  · intro hall
    refine ⟨Nat.zero_le _, ?_⟩
    rintro v ⟨i, hi, rfl⟩
    exact hall ⟨i, hi⟩ (Finset.mem_univ _)

theorem le_peak (i : Fin 32) : (x.get i).toInt.natAbs ≤ x.peak := by
  rw [peak_eq_sup]
  exact Finset.le_sup (f := fun i : Fin 32 => (x.get i).toInt.natAbs) (Finset.mem_univ i)

theorem peak_le {m : Nat} (h : ∀ i : Fin 32, (x.get i).toInt.natAbs ≤ m) : x.peak ≤ m := by
  rw [peak_eq_sup]
  exact Finset.sup_le fun i _ => h i

/-- The search for an exponent ends before its last candidate. -/
theorem exponent_isLeast : IsLeast {e | 2 * x.peak ≤ 15 * 2 ^ e} x.exponent := by
  have hpeak : x.peak ≤ 128 := x.peak_le fun i => natAbs_le (x.get i)
  unfold exponent
  cases h : (List.range 31).find? fun e => decide (2 * x.peak ≤ 15 <<< e) with
  | none =>
    have hfive := List.find?_eq_none.1 h 5 (by decide)
    simp only [decide_eq_true_eq] at hfive
    omega
  | some e =>
    obtain ⟨hfits, -, hbefore⟩ := List.find?_range_eq_some.1 h
    simp only [decide_eq_true_eq, Nat.shiftLeft_eq, Bool.not_eq_true', decide_eq_false_iff_not]
      at hfits hbefore
    exact ⟨hfits, fun e' he' => Nat.le_of_not_lt fun hlt => hbefore e' hlt he'⟩

theorem exponent_le_five : x.exponent ≤ 5 := by
  have hpeak : x.peak ≤ 128 := x.peak_le fun i => natAbs_le (x.get i)
  refine x.exponent_isLeast.2 ?_
  change 2 * x.peak ≤ 15 * 2 ^ 5
  omega

theorem toNat_exponent_encode : x.encode.exponent.toNat = x.exponent := by
  have := x.exponent_le
  rw [encode, UInt8.toNat_ofNat']
  omega

/-! ### The scaled magnitudes -/

/-- A magnitude never exceeds the largest level once it is scaled. -/
theorem halfEven_le (i : Fin 32) :
    Rounding.halfEven (2 * (x.get i).toInt.natAbs) (2 ^ x.exponent) ≤ 15 := by
  have hfits : 2 * x.peak ≤ 15 * 2 ^ x.exponent := x.exponent_isLeast.1
  have hle := x.le_peak i
  refine (Rounding.isHalfEven_halfEven _ (Nat.two_pow_pos _)).le_of_le (Nat.two_pow_pos _) ?_
  rw [Nat.mul_comm (2 ^ x.exponent)]
  omega

theorem get_scaled (i : Fin 32) :
    x.scaled.get i = Rounding.halfEven (2 * (x.get i).toInt.natAbs) (2 ^ x.exponent) := by
  rw [scaled, Vector.get_map, Nat.shiftLeft_eq, Nat.one_mul]
  exact Nat.min_eq_right (x.halfEven_le i)

/-! ### The fields -/

/-- What the fields of a block are to be for some weights: `d` is their dialect, and `s` are the
magnitudes of the weights in halves under their exponent. -/
structure Optimal (x : Values) (f : Fields) (d : Fin 16) (s : Vector Nat 32) : Prop where
  exponent_isLeast : IsLeast
    {e | 2 * (Finset.univ.sup fun i : Fin 32 => (x.get i).toInt.natAbs) ≤ 15 * 2 ^ e}
    f.exponent.toNat
  exponent_le : f.exponent.toNat ≤ 5
  scaled (i : Fin 32) :
    Rounding.IsHalfEven (2 * (x.get i).toInt.natAbs) (2 ^ f.exponent.toNat) (s.get i)
  scaled_le (i : Fin 32) : s.get i ≤ 15
  dialect_eq : f.dialect = UInt8.ofNat d
  /-- No choice of levels from any dialect is nearer. -/
  distance_le (d' : Fin 16) (choice : Fin 32 → Fin 8) :
    Dialect.distance d s (fun i => Code.index (f.codes.get i)) ≤ Dialect.distance d' s choice
  /-- No choice from an earlier dialect is as near. -/
  distance_lt (d' : Fin 16) (choice : Fin 32 → Fin 8) : d' < d →
    Dialect.distance d s (fun i => Code.index (f.codes.get i)) < Dialect.distance d' s choice
  level_le (i : Fin 32) (k : Fin 8) :
    Nat.dist (s.get i) (Dialect.level d (Code.index (f.codes.get i))).toNat ≤
      Nat.dist (s.get i) (Dialect.level d k).toNat
  level_lt (i : Fin 32) (k : Fin 8) : k < Code.index (f.codes.get i) →
    Nat.dist (s.get i) (Dialect.level d (Code.index (f.codes.get i))).toNat <
      Nat.dist (s.get i) (Dialect.level d k).toNat
  code_lt (i : Fin 32) : (f.codes.get i).toNat < 16
  sign (i : Fin 32) : (f.codes.get i).toNat.testBit 3 = true ↔ (x.get i).toInt < 0

theorem get_codes_encode (i : Fin 32) :
    x.encode.codes.get i = Code.ofSign ((x.get i).toInt < 0)
      (Dialect.nearest (Dialect.best x.scaled) (x.scaled.get i)) := by
  simp only [encode, Vector.get_eq_getElem, Vector.getElem_zipWith]

theorem index_encode (i : Fin 32) :
    Code.index (x.encode.codes.get i) =
      Dialect.nearest (Dialect.best x.scaled) (x.scaled.get i) := by
  rw [get_codes_encode, Code.index_ofSign]

/-- The encoder finds such fields. -/
theorem optimal_encode : x.Optimal x.encode (Dialect.best x.scaled) x.scaled where
  exponent_isLeast := by
    rw [toNat_exponent_encode, ← peak_eq_sup]
    exact x.exponent_isLeast
  exponent_le := by
    rw [toNat_exponent_encode]
    exact x.exponent_le_five
  scaled i := by
    rw [toNat_exponent_encode, get_scaled]
    exact Rounding.isHalfEven_halfEven _ (Nat.two_pow_pos _)
  scaled_le i := by
    rw [get_scaled]
    exact x.halfEven_le i
  dialect_eq := rfl
  distance_le d' choice := by
    simp only [index_encode, ← Dialect.error_eq]
    exact (Dialect.error_best_le x.scaled d').trans (Dialect.error_le_distance d' x.scaled choice)
  distance_lt d' choice hd := by
    simp only [index_encode, ← Dialect.error_eq]
    exact (Dialect.error_best_lt x.scaled hd).trans_le
      (Dialect.error_le_distance d' x.scaled choice)
  level_le i k := by
    rw [index_encode]
    exact Dialect.dist_nearest_le _ _ k
  level_lt i k hk := by
    rw [index_encode] at hk ⊢
    exact Dialect.dist_nearest_lt _ _ hk
  code_lt i := by
    have hlt : ∀ (s : Bool) (k : Fin 8), (Code.ofSign s k).toNat < 16 := by decide
    rw [get_codes_encode]
    exact hlt _ _
  sign i := by
    have hbit : ∀ (s : Bool) (k : Fin 8), (Code.ofSign s k).toNat.testBit 3 = s := by decide
    rw [get_codes_encode, hbit, decide_eq_true_eq]

/-! ### Blocks that are kept -/

/-- A level that is twice a magnitude under an exponent stands for the magnitude. -/
theorem shifted_eq {m e size : Nat} (h : m * 2 ^ e = 2 * size) (hsize : size ≤ 127) :
    Dialect.shifted m e = size := by
  unfold Dialect.shifted
  cases e with
  | zero =>
    rw [if_pos rfl]
    omega
  | succ e =>
    rw [pow_succ, ← Nat.mul_assoc] at h
    rw [if_neg (Nat.succ_ne_zero e), Nat.add_sub_cancel]
    omega

/-- The magnitude that a weight has once the block is encoded and decoded. -/
def size (i : Fin 32) : Nat :=
  Dialect.shifted (Dialect.level (Dialect.best x.scaled)
    (Dialect.nearest (Dialect.best x.scaled) (x.scaled.get i))).toNat x.exponent

/-- **The decoded weights are the sizes with the signs of the weights.** -/
theorem toInt_weights_toBlock (i : Fin 32) : (x.toBlock.weights.get i).toInt =
    if (x.get i).toInt < 0 then -(x.size i : Int) else x.size i := by
  rw [Block.weights, Vector.get_ofFn, Code.toInt_weight, header_toBlock, x.code_toBlock i.isLt]
  simp only [Code.index_ofSign, Code.negative_ofSign, decide_eq_true_eq, size,
    ← Vector.get_eq_getElem]

/-- A block whose scaled magnitudes are levels of one dialect is kept. -/
theorem weights_toBlock (hmin : ∀ i : Fin 32, x.get i ≠ -128)
    (hlevel : ∃ d : Fin 16, ∀ i : Fin 32, ∃ k,
      (Dialect.level d k).toNat * 2 ^ x.exponent = 2 * (x.get i).toInt.natAbs) :
    x.toBlock.weights = x := by
  obtain ⟨d, hlevel⟩ := hlevel
  have hexact (i : Fin 32) : x.scaled.get i * 2 ^ x.exponent = 2 * (x.get i).toInt.natAbs ∧
      ∃ k, (Dialect.level d k).toNat = x.scaled.get i := by
    obtain ⟨k, hk⟩ := hlevel i
    have hscaled : x.scaled.get i = (Dialect.level d k).toNat := by
      rw [get_scaled, ← hk, Nat.mul_comm, Rounding.halfEven_mul _ (Nat.two_pow_pos _)]
    exact ⟨hscaled ▸ hk, k, hscaled.symm⟩
  have hkept (i : Fin 32) : x.toBlock.weights.get i = x.get i := by
    have hnear := Dialect.level_nearest_best (fun i => (hexact i).2) i
    have hbound : (x.get i).toInt.natAbs ≤ 127 := by
      have hlow := (x.get i).le_toInt
      have hhigh := (x.get i).toInt_lt
      have hne : (x.get i).toInt ≠ -128 := fun h => hmin i (Int8.toInt_inj.1 h)
      omega
    have hsize := shifted_eq (hexact i).1 hbound
    apply Int8.toInt_inj.1
    rw [toInt_weights_toBlock, size, hnear, hsize]
    split <;> omega
  exact Vector.ext fun i hi => hkept ⟨i, hi⟩

theorem exponent_eq_zero {m : Nat} (hm : 2 * m ≤ 15)
    (h : ∀ i : Fin 32, (x.get i).toInt.natAbs ≤ m) : x.exponent = 0 := by
  have hpeak := x.peak_le h
  refine Nat.le_zero.1 (x.exponent_isLeast.2 ?_)
  change 2 * x.peak ≤ 15 * 2 ^ 0
  omega

/-- The double of every magnitude of at most 5 is a level of one dialect. -/
theorem level_of_small (h : ∀ i : Fin 32, (x.get i).toInt.natAbs ≤ 5) :
    ∃ d : Fin 16, ∀ i : Fin 32, ∃ k,
      (Dialect.level d k).toNat * 2 ^ x.exponent = 2 * (x.get i).toInt.natAbs := by
  have hrow : ∀ n < 6, ∃ k, (Dialect.level 10 k).toNat = 2 * n := by decide
  rw [x.exponent_eq_zero (by decide) h]
  refine ⟨10, fun i => ?_⟩
  obtain ⟨k, hk⟩ := hrow _ (Nat.lt_succ_of_le (h i))
  exact ⟨k, by rw [hk, pow_zero, Nat.mul_one]⟩

/-- **The encoder is optimal.**  For all weights, the exponent is the least that fits, without
meeting a bound; of all dialects and all choices of levels from them, the fields name one that is
nearest to the scaled magnitudes, the earliest dialect and the first levels that are so near.  So
weights whose scaled magnitudes are levels of one dialect come back unchanged from the packed
block, unless one of them is `-128`; small weights always do. -/
theorem encode_optimal :
    (∃ d scaled, x.Optimal x.encode d scaled) ∧
    ((∀ i : Fin 32, x.get i ≠ -128) →
      (∃ d : Fin 16, ∀ i : Fin 32, ∃ k,
        (Dialect.level d k).toNat * 2 ^ x.encode.exponent.toNat = 2 * (x.get i).toInt.natAbs) →
      ∃ b, x.encode.pack = .ok b ∧ b.weights = x) ∧
    ((∀ i : Fin 32, (x.get i).toInt.natAbs ≤ 5) → ∃ b, x.encode.pack = .ok b ∧ b.weights = x) := by
  refine ⟨⟨_, _, x.optimal_encode⟩, fun hmin hlevel => ?_, fun hsmall => ?_⟩
  · rw [toNat_exponent_encode] at hlevel
    exact ⟨_, x.pack_encode, x.weights_toBlock hmin hlevel⟩
  · have hmin (i : Fin 32) : x.get i ≠ -128 := by
      intro h
      have hle := hsmall i
      rw [h] at hle
      exact absurd hle (by decide)
    exact ⟨_, x.pack_encode, x.weights_toBlock hmin (x.level_of_small hsmall)⟩

/-- Weights far apart, on levels 12 and 3 of a dialect under exponent 4. -/
def coarse : Values := Vector.ofFn fun i => if i.val % 2 = 0 then 96 else -24

theorem encode_optimal_coarse :
    coarse.encode.exponent = 4 ∧ ∃ b, coarse.encode.pack = .ok b ∧ b.weights = coarse := by
  have hlevel : ∀ i : Fin 32, ∃ k,
      (Dialect.level 12 k).toNat * 2 ^ coarse.encode.exponent.toNat =
        2 * (coarse.get i).toInt.natAbs := by
    decide +kernel
  exact ⟨by decide +kernel, (encode_optimal coarse).2.1 (by decide +kernel) ⟨12, hlevel⟩⟩

end Values
end WeightLink
