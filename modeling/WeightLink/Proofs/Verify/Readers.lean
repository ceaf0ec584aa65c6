/-
# What is stored under a key

A setting is what is stored under its key, as the key is read, or a default if nothing is stored
there (`Json.Takes`).  So whether it is accepted is a property of the value (`Json.Holds`).  Such an
equation holds for each way in which a configuration reads a single key: as a text
(`Config.textOr_eq_ok_iff`), as a name (`Config.bind_ofName_eq_ok_iff`), as a truth value, and as an
unsigned integer of some width.  An integer that is accepted is taken as it is; one of the signed
type is not, also if it is not negative.
-/

import WeightLink.Proofs.Verify.Checks

namespace WeightLink

namespace Json

variable {α : Type} {fields : List (String × Json)} {key : String}

/-! ### What is stored under a key -/

/-- What is stored under a key has a property. -/
def Holds (P : Json → Prop) (fields : List (String × Json)) (key : String) : Prop :=
  ∀ v, get? key fields = some v → P v

/-- A setting is what is stored under a key, as `Is` reads it, or a default if nothing is. -/
def Takes (Is : Json → α → Prop) (fields : List (String × Json)) (key : String)
    (default value : α) : Prop :=
  (get? key fields = none → value = default) ∧ ∀ v, get? key fields = some v → Is v value

/-- A value is a text. -/
def IsText (v : Json) (s : String) : Prop := v = .string s

/-- A value is a truth value. -/
def IsTruth (v : Json) (b : Bool) : Prop := v = .bool b

/-- A value is a natural number, of the unsigned type. -/
def IsNatural (v : Json) (n : Nat) : Prop := ∃ w : UInt64, v = .number (.unsigned w) ∧ w.toNat = n

/-- A value is a number of 32 bits. -/
def IsWord (v : Json) (w : UInt32) : Prop := v = .ofWord w

/-- A value is an integer of the unsigned type within bounds. -/
def Between (low high : Nat) (v : Json) : Prop :=
  ∃ w : UInt64, v = .number (.unsigned w) ∧ low ≤ w.toNat ∧ w.toNat ≤ high

section Takes

variable {Is : Json → α → Prop} {default value : α}

theorem takes_of_eq_none (h : get? key fields = none) :
    Takes Is fields key default value ↔ value = default := by
  simp [Takes, h]

theorem takes_of_eq_some {v : Json} (h : get? key fields = some v) :
    Takes Is fields key default value ↔ Is v value := by
  simp [Takes, h]

theorem holds_of_eq_some {P : Json → Prop} {v : Json} (h : get? key fields = some v) :
    Holds P fields key ↔ P v := by
  simp [Holds, h]

/-- What holds of the default and of what is read holds of the setting. -/
theorem Takes.elim {P : Json → Prop} {Q : α → Prop} (h : Takes Is fields key default value)
    (hP : Holds P fields key) (hdefault : Q default) (hread : ∀ v x, P v → Is v x → Q x) :
    Q value := by
  cases hv : get? key fields with
  | none => exact (takes_of_eq_none hv).1 h ▸ hdefault
  | some v => exact hread v value (hP v hv) ((takes_of_eq_some hv).1 h)

theorem Takes.holds {P : Json → Prop} (h : Takes Is fields key default value)
    (hread : ∀ v, Is v value → P v) : Holds P fields key :=
  fun v hv => hread v (h.2 v hv)

/-- What can be read is what some setting takes. -/
theorem Holds.exists_takes (default : α) (h : Holds (fun v => ∃ x, Is v x) fields key) :
    ∃ value, Takes Is fields key default value := by
  cases hv : get? key fields with
  | none => exact ⟨default, (takes_of_eq_none hv).2 rfl⟩
  | some v =>
    obtain ⟨x, hx⟩ := h v hv
    exact ⟨x, (takes_of_eq_some hv).2 hx⟩

theorem Holds.imp {P Q : Json → Prop} (h : Holds P fields key) (hPQ : ∀ v, P v → Q v) :
    Holds Q fields key :=
  fun v hv => hPQ v (h v hv)

end Takes

theorem isNatural_unsigned_iff {w : UInt64} {n : Nat} :
    IsNatural (.number (.unsigned w)) n ↔ w.toNat = n := by
  simp [IsNatural]

/-- An integer of 32 bits is a word. -/
theorem Between.exists_word {low high : Nat} {v : Json} (h : Between low high v)
    (hhigh : high < 2 ^ 32) : ∃ w, IsWord v w := by
  obtain ⟨w, rfl, -, hle⟩ := h
  exact ⟨UInt32.ofNat w.toNat, (ofWord_ofNat (Nat.lt_of_le_of_lt hle hhigh)).symm⟩

theorem Between.exists_natural {low high : Nat} {v : Json} (h : Between low high v) :
    ∃ n, IsNatural v n := by
  obtain ⟨w, rfl, -⟩ := h
  exact ⟨w.toNat, w, rfl, rfl⟩

theorem Holds.exists_word {low high : Nat} (h : Holds (Between low high) fields key)
    (hhigh : high < 2 ^ 32) (default : UInt32) : ∃ w, Takes IsWord fields key default w :=
  (h.imp fun _ hv => hv.exists_word hhigh).exists_takes default

theorem Holds.exists_natural {low high : Nat} (h : Holds (Between low high) fields key)
    (default : Nat) : ∃ n, Takes IsNatural fields key default n :=
  (h.imp fun _ hv => hv.exists_natural).exists_takes default

theorem between_ofWord_iff {low high : Nat} {w : UInt32} :
    Between low high (.ofWord w) ↔ low ≤ w.toNat ∧ w.toNat ≤ high := by
  simp [Between, ofWord]

theorem IsWord.between {v : Json} {w : UInt32} (h : IsWord v w) : Between 0 (2 ^ 32 - 1) v := by
  rw [h]
  exact between_ofWord_iff.2 ⟨Nat.zero_le _, Nat.le_of_lt_succ w.toNat_lt⟩

end Json

namespace Verify.Config

open Json (Holds Takes IsText IsTruth IsNatural IsWord Between)

variable {fields : List (String × Json)} {scope key : String}

/-! ### Readers of a single key -/

theorem textOr_eq_ok_iff {default s : String} :
    textOr fields key default = .ok s ↔ Takes IsText fields key default s := by
  unfold textOr
  cases hv : Json.get? key fields with
  | none => rw [Json.takes_of_eq_none hv, Except.ok.injEq, eq_comm]
  | some v =>
    rw [Json.takes_of_eq_some hv]
    cases v <;> simp [IsText]

theorem boolOr_eq_ok_iff {default b : Bool} :
    boolOr fields scope key default = .ok b ↔ Takes IsTruth fields key default b := by
  unfold boolOr
  cases hv : Json.get? key fields with
  | none => rw [Json.takes_of_eq_none hv, Except.ok.injEq, eq_comm]
  | some v =>
    rw [Json.takes_of_eq_some hv]
    cases v <;> simp [IsTruth]

theorem unsignedOr_eq_ok_iff {default limit n : Nat} :
    unsignedOr fields scope key default limit = .ok n ↔
      Takes IsNatural fields key default n ∧ Holds (Between 0 limit) fields key := by
  unfold unsignedOr
  cases hv : Json.get? key fields with
  | none =>
    rw [Json.takes_of_eq_none hv, Except.ok.injEq, eq_comm]
    exact (and_iff_left fun v h => nomatch hv.symm.trans h).symm
  | some v =>
    rw [Json.takes_of_eq_some hv, Json.holds_of_eq_some hv, unsigned_eq_ok_iff]
    constructor
    · rintro ⟨w, rfl, rfl, hle⟩
      exact ⟨⟨w, rfl, rfl⟩, w, rfl, Nat.zero_le _, hle⟩
    · rintro ⟨⟨w, rfl, rfl⟩, w', hw', -, hle⟩
      obtain rfl := Json.Number.unsigned.inj (Json.number.inj hw')
      exact ⟨w, rfl, rfl, hle⟩

/-- The same for a number that must not be zero. -/
theorem positiveOr_eq_ok_iff {default limit n : Nat} (hdefault : default ≠ 0) :
    unsignedOr fields scope key default limit = .ok n ∧ n ≠ 0 ↔
      Takes IsNatural fields key default n ∧ Holds (Between 1 limit) fields key := by
  rw [unsignedOr_eq_ok_iff]
  constructor
  · rintro ⟨⟨hn, hlimit⟩, hpos⟩
    refine ⟨hn, fun v hv => ?_⟩
    obtain ⟨w, rfl, -, hle⟩ := hlimit v hv
    obtain rfl := Json.isNatural_unsigned_iff.1 (hn.2 _ hv)
    exact ⟨w, rfl, Nat.one_le_iff_ne_zero.2 hpos, hle⟩
  · rintro ⟨hn, hrange⟩
    refine ⟨⟨hn, hrange.imp ?_⟩, hn.elim (Q := fun n => n ≠ 0) hrange hdefault ?_⟩
    · rintro v ⟨w, hv, -, hle⟩
      exact ⟨w, hv, Nat.zero_le _, hle⟩
    · rintro v n ⟨w, rfl, hpos, -⟩ hn
      obtain rfl := Json.isNatural_unsigned_iff.1 hn
      exact Nat.one_le_iff_ne_zero.1 hpos

theorem wordOr_eq_ok_iff {default w : UInt32} :
    wordOr fields scope key default = .ok w ↔ Takes IsWord fields key default w := by
  unfold wordOr unsignedOr
  cases hv : Json.get? key fields with
  | none =>
    rw [Json.takes_of_eq_none hv, Except.map, Except.ok.injEq, UInt32.ofNat_toNat, eq_comm]
  | some v =>
    rw [Json.takes_of_eq_some hv]
    constructor
    · intro h
      cases hn : unsigned (scope ++ key) maxWord v with
      | error e => exact nomatch (congrArg (Except.map _) hn).symm.trans h
      | ok n =>
        obtain rfl := Except.ok.inj ((congrArg (Except.map _) hn).symm.trans h)
        obtain ⟨w, rfl, rfl, hle⟩ := unsigned_eq_ok_iff.1 hn
        exact (Json.ofWord_ofNat (Nat.lt_succ_of_le hle)).symm
    · intro h
      have hok : unsigned (scope ++ key) maxWord v = .ok w.toNat :=
        unsigned_eq_ok_iff.2 ⟨w.toUInt64, h, UInt32.toNat_toUInt64 w, Nat.le_of_lt_succ w.toNat_lt⟩
      change Except.map UInt32.ofNat (unsigned (scope ++ key) maxWord v) = .ok w
      rw [hok, Except.map, UInt32.ofNat_toNat]

/-- A choice between names takes the one whose name is stored. -/
theorem bind_ofName_eq_ok_iff {α : Type} {name : α → String} {ofName : String → Except Fault α}
    (hname : ∀ a, ofName (name a) = .ok a) (hof : ∀ s a, ofName s = .ok a → s = name a)
    {default a : α} : (textOr fields key (name default)).bind ofName = .ok a ↔
      Takes (fun v a => IsText v (name a)) fields key default a := by
  have hinj : ∀ a b, name a = name b → a = b := by
    intro a b h
    have := hname a
    rw [h, hname b] at this
    exact (Except.ok.inj this).symm
  have htext : Takes (fun v a => IsText v (name a)) fields key default a ↔
      Takes IsText fields key (name default) (name a) := by
    cases hv : Json.get? key fields with
    | none =>
      rw [Json.takes_of_eq_none hv, Json.takes_of_eq_none hv]
      exact ⟨congrArg name, hinj a default⟩
    | some v => rw [Json.takes_of_eq_some hv, Json.takes_of_eq_some hv]
  rw [htext, ← textOr_eq_ok_iff]
  constructor
  · intro h
    obtain ⟨s, hs, ha⟩ := eq_ok_of_bind h
    rw [hs, hof s a ha]
  · intro h
    rw [h]
    exact hname a

end Verify.Config
end WeightLink
