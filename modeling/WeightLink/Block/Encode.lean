/-
# Encoding 32 weights

The exponent is the least under which twice the largest magnitude fits the largest
level, 15.  Every magnitude is then scaled to halves under that exponent, a tie
going to the even number.  The dialect is the first one with the least sum of
squared distances between the scaled magnitudes and their nearest levels, and each
code names the first nearest level.
-/

import WeightLink.Block.Decode
import WeightLink.Decimal.Rounding

namespace WeightLink

/-- The first of the numbers below `n + 1` at which a function is least. -/
def firstLeast : (n : Nat) → (Fin (n + 1) → Nat) → Fin (n + 1)
  | 0, _ => 0
  | n + 1, f =>
    let i := (firstLeast n fun j => f j.castSucc).castSucc
    if f (Fin.last (n + 1)) < f i then Fin.last (n + 1) else i

/-- A number below `n + 2` is the last one or a number below `n + 1`. -/
theorem eq_last_or_castSucc {n : Nat} (j : Fin (n + 2)) :
    j = Fin.last (n + 1) ∨ ∃ k : Fin (n + 1), j = k.castSucc := by
  by_cases h : j.val = n + 1
  · exact Or.inl (Fin.ext h)
  · exact Or.inr ⟨⟨j.val, by have := j.isLt; omega⟩, rfl⟩

/-- **Nothing is smaller than the value at the first least number.** -/
theorem firstLeast_le (n : Nat) (f : Fin (n + 1) → Nat) (j : Fin (n + 1)) :
    f (firstLeast n f) ≤ f j := by
  induction n with
  | zero => exact Nat.le_of_eq (congrArg f (Fin.ext (by omega)))
  | succ n ih =>
    have least := ih fun j => f j.castSucc
    unfold firstLeast
    dsimp only
    split
    · next h =>
      rcases eq_last_or_castSucc j with rfl | ⟨k, rfl⟩
      · exact Nat.le_refl _
      · exact Nat.le_of_lt (Nat.lt_of_lt_of_le h (least k))
    · next h =>
      rcases eq_last_or_castSucc j with rfl | ⟨k, rfl⟩
      · exact Nat.le_of_not_lt h
      · exact least k

/-- **Before the first least number every value is greater.** -/
theorem lt_of_lt_firstLeast (n : Nat) (f : Fin (n + 1) → Nat) (j : Fin (n + 1))
    (hj : j.val < (firstLeast n f).val) : f (firstLeast n f) < f j := by
  induction n with
  | zero => exact absurd hj (by omega)
  | succ n ih =>
    have least := firstLeast_le n fun j => f j.castSucc
    have first := ih fun j => f j.castSucc
    unfold firstLeast at hj ⊢
    dsimp only at hj ⊢
    split at hj
    · next h =>
      rw [if_pos h]
      rcases eq_last_or_castSucc j with rfl | ⟨k, rfl⟩
      · exact absurd hj (Nat.lt_irrefl _)
      · exact Nat.lt_of_lt_of_le h (least k)
    · next h =>
      rw [if_neg h]
      rcases eq_last_or_castSucc j with rfl | ⟨k, rfl⟩
      · have := (firstLeast n fun j => f j.castSucc).isLt
        exact absurd hj (Nat.not_lt.2 (Nat.le_of_lt this))
      · exact first k hj

/-- The square of the distance of two numbers. -/
def squaredDistance (a b : Nat) : Nat := (a - b + (b - a)) * (a - b + (b - a))

namespace Dialect

/-- The first level of a dialect that is nearest to a scaled magnitude. -/
def nearest (d : Fin 16) (scaled : Nat) : Fin 8 :=
  firstLeast 7 fun i => scaled - (level d i).toNat + ((level d i).toNat - scaled)

/-- The sum of the squared distances of scaled magnitudes to their nearest levels. -/
def error (d : Fin 16) (scaled : Vector Nat 32) : Nat :=
  scaled.foldl (fun total s => total + squaredDistance s (level d (nearest d s)).toNat) 0

/-- The first dialect with the least error. -/
def best (scaled : Vector Nat 32) : Fin 16 := firstLeast 15 fun d => error d scaled

end Dialect

namespace Values

/-- The largest magnitude of the weights. -/
def peak (x : Values) : Nat := x.foldl (fun m v => max m v.toInt.natAbs) 0

/-- The least exponent, or the largest there is, under which twice the largest
magnitude fits the largest level. -/
def exponent (x : Values) : Nat :=
  ((List.range 31).find? fun e => decide (2 * x.peak ≤ 15 <<< e)).getD 31

/-- The magnitudes in halves under the exponent, at most the largest level. -/
def scaled (x : Values) : Vector Nat 32 :=
  x.map fun v => min 15 (Rounding.halfEven (2 * v.toInt.natAbs) (1 <<< x.exponent))

/-- The fields that encode the weights. -/
def encode (x : Values) : Fields :=
  let scaled := x.scaled
  let dialect := Dialect.best scaled
  { dialect := UInt8.ofNat dialect
    exponent := UInt8.ofNat x.exponent
    codes := Vector.zipWith
      (fun v s => Code.ofSign (v.toInt < 0) (Dialect.nearest dialect s)) x scaled }

/-- The block that encodes the weights.  Dialect and exponent always fit. -/
def toBlock (x : Values) : Block := Vector.ofFn x.encode.byte

theorem exponent_le (x : Values) : x.exponent ≤ 31 := by
  unfold exponent
  cases h : (List.range 31).find? fun e => decide (2 * x.peak ≤ 15 <<< e) with
  | none => simp
  | some e =>
    have := List.mem_of_find?_eq_some h
    simp at this ⊢
    omega

theorem pack_encode (x : Values) : x.encode.pack = .ok x.toBlock := by
  have h₁ : ¬(16 : UInt8) ≤ x.encode.dialect := by
    simp only [encode, UInt8.le_iff_toNat_le, UInt8.toNat_ofNat']
    have := (Dialect.best x.scaled).isLt
    simp; omega
  have h₂ : ¬(32 : UInt8) ≤ x.encode.exponent := by
    simp only [encode, UInt8.le_iff_toNat_le, UInt8.toNat_ofNat']
    have := x.exponent_le
    simp; omega
  simp [Fields.pack, toBlock, h₁, h₂]

end Values
end WeightLink
