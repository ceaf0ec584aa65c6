/-
# The checks of a configuration

An expected hash is an integer of either type, or a text that denotes one (`Json.Denotes`).  An
integer is accepted if it has 32 bits.  A text is accepted if the integer has 32 bits modulo
`2 ^ 64` and no more than 64 bits without its sign, so some texts of negative integers stand for a
hash that they do not denote (`Json.StandsFor`, `Config.hashOf_eq_ok_iff`).

The element counts of a check are unsigned integers of 32 bits (`Config.countsOf_eq_ok_iff`), and
the checks of a configuration are those that its entries describe, one after the other
(`Config.checksOf_eq_ok_iff`).
-/

import WeightLink.Proofs.Text.Numeral
import WeightLink.Verify.Config

namespace WeightLink

theorem eq_ok_of_bind {α β : Type} {m : Except Fault α} {f : α → Except Fault β} {b : β}
    (h : m >>= f = .ok b) : ∃ a, m = .ok a ∧ f a = .ok b := by
  cases m with
  | error e => exact nomatch h
  | ok a => exact ⟨a, rfl, h⟩

theorem bind_eq_ok_iff {α β : Type} {m : Except Fault α} {f : α → Except Fault β} {b : β} :
    m >>= f = .ok b ↔ ∃ a, m = .ok a ∧ f a = .ok b := by
  refine ⟨eq_ok_of_bind, ?_⟩
  rintro ⟨a, rfl, h⟩
  exact h

theorem guarded_eq_ok_iff {β : Type} {p : Prop} [Decidable p] {e : Fault}
    {f : PUnit → Except Fault β} {b : β} :
    (if p then throw e >>= f else f ⟨⟩) = .ok b ↔ ¬p ∧ f ⟨⟩ = .ok b := by
  by_cases hp : p
  · rw [if_pos hp]
    exact iff_of_false nofun fun h => h.1 hp
  · rw [if_neg hp]
    exact (and_iff_right hp).symm

/-- The bits of an unsigned number, taken as a signed one. -/
theorem toInt_toInt64 (n : UInt64) :
    n.toInt64.toInt = if n.toNat < 2 ^ 63 then (n.toNat : Int) else n.toNat - 2 ^ 64 := by
  change n.toBitVec.toInt = _
  rw [BitVec.toInt_eq_toNat_cond]
  simp only [UInt64.toNat_toBitVec]
  split <;> split <;> omega

theorem toNat_toUInt64 {n : Int64} (h : 0 ≤ n.toInt) : (n.toUInt64.toNat : Int) = n.toInt := by
  have hn := toInt_toInt64 n.toUInt64
  rw [Int64.toInt64_toUInt64] at hn
  have := n.toUInt64.toNat_lt
  rw [hn] at h ⊢
  split at h
  · next hlt => rw [if_pos hlt]
  · omega

namespace Json

/-- The number that a word is. -/
def ofWord (w : UInt32) : Json := .number (.unsigned w.toUInt64)

theorem ofWord_ofNat {n : UInt64} (h : n.toNat < 2 ^ 32) :
    ofWord (UInt32.ofNat n.toNat) = .number (.unsigned n) := by
  have hn : (UInt32.ofNat n.toNat).toUInt64 = n := by
    rw [← UInt64.toNat_inj, UInt32.toNat_toUInt64, UInt32.toNat_ofNat', Nat.mod_eq_of_lt h]
  rw [ofWord, hn]

/-- The integer that a value denotes: a number of either type itself, a text the one that is
written in it. -/
inductive Denotes : Json → Int → Prop where
  | unsigned (n : UInt64) : Denotes (.number (.unsigned n)) n.toNat
  | signed (n : Int64) : Denotes (.number (.signed n)) n.toInt
  | text {s : String} {m : Int} : Numeral.Denotes s.toList m → Denotes (.string s) m

/-- A value stands for a hash if it denotes it, or if it is a text that denotes the negative
integer `2 ^ 64` below it, but not `-2 ^ 64` itself. -/
def StandsFor (v : Json) (h : UInt32) : Prop :=
  ∃ m, v.Denotes m ∧ (m = h.toNat ∨ (∃ s, v = .string s) ∧ -2 ^ 64 < m ∧ m + 2 ^ 64 = h.toNat)

theorem Denotes.unique {v : Json} {m m' : Int} (h : v.Denotes m) (h' : v.Denotes m') : m = m' := by
  cases h with
  | unsigned n | signed n =>
    cases h'
    rfl
  | text h =>
    cases h' with
    | text h' => exact h.unique h'

/-- What a value stands for is what it denotes, unless it is a text of a negative integer. -/
theorem standsFor_iff_of_denotes {v : Json} {m : Int} {h : UInt32} (hv : v.Denotes m) :
    v.StandsFor h ↔
      m = h.toNat ∨ (∃ s, v = .string s) ∧ -2 ^ 64 < m ∧ m + 2 ^ 64 = h.toNat := by
  constructor
  · rintro ⟨m', hv', hm⟩
    obtain rfl := hv.unique hv'
    exact hm
  · exact fun hm => ⟨m, hv, hm⟩

theorem standsFor_number_iff {n : Number} {m : Int} {h : UInt32} (hn : (number n).Denotes m) :
    (number n).StandsFor h ↔ m = h.toNat := by
  rw [standsFor_iff_of_denotes hn]
  exact or_iff_left fun ⟨⟨s, hs⟩, _⟩ => nomatch hs

end Json

namespace Numeral

theorem natAbs_toInt (n : Numeral) : n.toInt.natAbs = n.magnitude := by
  unfold toInt
  split <;> omega

/-- A numeral of 64 bits is its integer modulo `2 ^ 64`. -/
theorem word64?_eq_some_iff {n : Numeral} {w : UInt64} : n.word64? = some w ↔
    n.magnitude < 2 ^ 64 ∧
      (n.toInt = w.toNat ∨ -2 ^ 64 < n.toInt ∧ n.toInt + 2 ^ 64 = w.toNat) := by
  have hw := w.toNat_lt
  unfold word64? toInt
  by_cases hsize : n.magnitude ≤ 0xFFFFFFFFFFFFFFFF
  · have hmagnitude : (UInt64.ofNat n.magnitude).toNat = n.magnitude := by
      rw [UInt64.toNat_ofNat']
      omega
    rw [if_pos hsize, Option.some.injEq, ← UInt64.toNat_inj]
    cases n.negative with
    | false =>
      simp only [Bool.false_eq_true, if_false, hmagnitude]
      omega
    | true =>
      simp only [if_true, UInt64.toNat_neg, hmagnitude, UInt64.size]
      omega
  · rw [if_neg hsize]
    refine iff_of_false nofun fun h => hsize ?_
    omega

end Numeral

namespace Verify.Config

/-! ### Expected hashes -/

/-- A text is read as a hash if it is a numeral with nothing behind it, of 64 bits the upper half of
which is zero. -/
theorem hashOfText_parts {s : String} {h : UInt32} : hashOfText s = .ok h ↔
    ∃ n, Numeral.read s.toList = some n ∧ n.rest = [] ∧ n.word64? = some h.toUInt64 := by
  constructor
  · intro hok
    unfold hashOfText at hok
    split at hok
    · exact nomatch hok
    next n hn =>
      split at hok
      · exact nomatch hok
      next w hw =>
        split at hok
        · exact nomatch hok
        next hgood =>
          obtain rfl := Except.ok.inj hok
          rw [not_or, Decidable.not_not, Nat.not_lt] at hgood
          have hword : w.toUInt32.toUInt64 = w := by
            rw [← UInt64.toNat_inj, UInt32.toNat_toUInt64, UInt64.toNat_toUInt32]
            exact Nat.mod_eq_of_lt (Nat.lt_succ_of_le hgood.2)
          exact ⟨n, hn, hgood.1, hw.trans (congrArg some hword.symm)⟩
  · rintro ⟨n, hn, hrest, hword⟩
    have hgood : ¬(n.rest ≠ [] ∨ maxWord < h.toUInt64.toNat) := by
      rw [not_or, Decidable.not_not, UInt32.toNat_toUInt64]
      exact ⟨hrest, Nat.not_lt.2 (Nat.le_of_lt_succ h.toNat_lt)⟩
    unfold hashOfText
    simp only [hn, hword, if_neg hgood, UInt32.toUInt32_toUInt64]

theorem hashOfText_eq_ok_iff {s : String} {h : UInt32} :
    hashOfText s = .ok h ↔ (Json.string s).StandsFor h := by
  rw [hashOfText_parts]
  constructor
  · rintro ⟨n, hn, hrest, hword⟩
    obtain ⟨-, hvalue⟩ := Numeral.word64?_eq_some_iff.1 hword
    rw [UInt32.toNat_toUInt64] at hvalue
    exact ⟨_, .text (Numeral.denotes_iff.2 ⟨n, hn, hrest, rfl⟩),
      hvalue.imp_right fun h => ⟨⟨s, rfl⟩, h⟩⟩
  · rintro ⟨m, hm, hvalue⟩
    cases hm with
    | text hm =>
      obtain ⟨n, hn, hrest, rfl⟩ := Numeral.denotes_iff.1 hm
      refine ⟨n, hn, hrest, Numeral.word64?_eq_some_iff.2 ?_⟩
      have := n.natAbs_toInt
      have := h.toNat_lt
      rw [UInt32.toNat_toUInt64]
      exact ⟨by omega, hvalue.imp_right And.right⟩

theorem hashOfInteger_eq_ok_iff {n : Int64} {h : UInt32} :
    hashOfInteger n = .ok h ↔ n.toInt = h.toNat := by
  have hh := h.toNat_lt
  have h0 : (0 : Int64).toInt = 0 := rfl
  have hmax : (0xFFFFFFFF : Int64).toInt = 4294967295 := rfl
  unfold hashOfInteger
  simp only [Int64.lt_iff_toInt_lt, h0, hmax]
  by_cases hrange : n.toInt < 0 ∨ 4294967295 < n.toInt
  · rw [if_pos hrange]
    exact iff_of_false nofun fun h => by omega
  · rw [not_or, Int.not_lt, Int.not_lt] at hrange
    have hn := toNat_toUInt64 hrange.1
    rw [if_neg (by omega), Except.ok.injEq, ← UInt32.toNat_inj, UInt64.toNat_toUInt32]
    omega

/-- An unsigned number that becomes negative as a signed one is no hash. -/
theorem hashOfInteger_toInt64_eq_ok_iff {n : UInt64} {h : UInt32} :
    hashOfInteger n.toInt64 = .ok h ↔ (n.toNat : Int) = h.toNat := by
  have hn := n.toNat_lt
  have hh := h.toNat_lt
  rw [hashOfInteger_eq_ok_iff, toInt_toInt64]
  split <;> omega

/-- **A hash is accepted** exactly if the value stands for it. -/
theorem hashOf_eq_ok_iff {v : Json} {h : UInt32} : hashOf v = .ok h ↔ v.StandsFor h := by
  cases v with
  | string s => exact hashOfText_eq_ok_iff
  | number n =>
    cases n with
    | unsigned n =>
      exact hashOfInteger_toInt64_eq_ok_iff.trans (Json.standsFor_number_iff (.unsigned n)).symm
    | signed n => exact hashOfInteger_eq_ok_iff.trans (Json.standsFor_number_iff (.signed n)).symm
    | binary64 negative magnitude =>
      refine iff_of_false nofun ?_
      rintro ⟨m, hm, -⟩
      exact nomatch hm
  | null | bool | array | object =>
    refine iff_of_false nofun ?_
    rintro ⟨m, hm, -⟩
    exact nomatch hm

/-! ### Entries -/

/-- A setting is a number of the unsigned type, up to the limit. -/
theorem unsigned_eq_ok_iff {name : String} {limit n : Nat} {v : Json} :
    unsigned name limit v = .ok n ↔
      ∃ w : UInt64, v = .number (.unsigned w) ∧ w.toNat = n ∧ n ≤ limit := by
  constructor
  · intro h
    unfold unsigned at h
    split at h
    · next w =>
      split at h
      · next hle =>
        obtain rfl := Except.ok.inj h
        exact ⟨w, rfl, rfl, hle⟩
      · exact nomatch h
    · exact nomatch h
  · rintro ⟨w, rfl, rfl, hle⟩
    exact if_pos hle

/-- The element counts of a check are the words of its array. -/
theorem countsOf_eq_ok_iff {check : String} {vs : List Json} {ns : List UInt32} :
    countsOf check vs = .ok ns ↔ vs = ns.map Json.ofWord := by
  induction vs generalizing ns with
  | nil => cases ns <;> simp [countsOf]
  | cons v vs ih =>
    rw [countsOf, bind_eq_ok_iff]
    simp only [bind_eq_ok_iff, ih, unsigned_eq_ok_iff]
    constructor
    · rintro ⟨n, ⟨w, rfl, rfl, hle⟩, ns, rfl, h⟩
      obtain rfl := Except.ok.inj h
      rw [List.map_cons, Json.ofWord_ofNat (Nat.lt_succ_of_le hle)]
    · intro h
      cases ns with
      | nil => exact nomatch h
      | cons n ns =>
        obtain ⟨rfl, rfl⟩ := List.cons.inj h
        refine ⟨n.toNat, ⟨n.toUInt64, rfl, UInt32.toNat_toUInt64 n,
          Nat.le_of_lt_succ n.toNat_lt⟩, ns, rfl, ?_⟩
        rw [UInt32.ofNat_toNat]
        rfl

theorem checksOf_cons_eq_ok_iff {number : Nat} {v : Json} {vs : List Json} {checks : List Check} :
    checksOf number (v :: vs) = .ok checks ↔ ∃ check rest, checks = check :: rest ∧
      checkOf number v = .ok check ∧ checksOf (number + 1) vs = .ok rest := by
  rw [checksOf, bind_eq_ok_iff]
  simp only [bind_eq_ok_iff]
  constructor
  · rintro ⟨check, hcheck, rest, hrest, h⟩
    exact ⟨check, rest, (Except.ok.inj h).symm, hcheck, hrest⟩
  · rintro ⟨check, rest, rfl, hcheck, hrest⟩
    exact ⟨check, hcheck, rest, hrest, rfl⟩

/-- The checks are those of the entries, in their order and with their numbers. -/
theorem checksOf_eq_ok_iff {number : Nat} {vs : List Json} {checks : List Check} :
    checksOf number vs = .ok checks ↔ vs.length = checks.length ∧
      ∀ i v check, vs[i]? = some v → checks[i]? = some check →
        checkOf (number + i) v = .ok check := by
  induction vs generalizing number checks with
  | nil =>
    cases checks with
    | nil => exact iff_of_true rfl ⟨rfl, nofun⟩
    | cons check checks => exact iff_of_false nofun fun h => nomatch h.1
  | cons v vs ih =>
    rw [checksOf_cons_eq_ok_iff]
    constructor
    · rintro ⟨check, rest, rfl, hcheck, hrest⟩
      obtain ⟨hlength, hall⟩ := ih.1 hrest
      refine ⟨congrArg (· + 1) hlength, fun i v' check' hv hc => ?_⟩
      cases i with
      | zero =>
        obtain rfl := Option.some.inj hv
        obtain rfl := Option.some.inj hc
        exact hcheck
      | succ i =>
        rw [Nat.add_comm i 1, ← Nat.add_assoc]
        exact hall i v' check' hv hc
    · rintro ⟨hlength, hall⟩
      cases checks with
      | nil => exact nomatch hlength
      | cons check rest =>
        refine ⟨check, rest, rfl, hall 0 v check rfl rfl,
          ih.2 ⟨Nat.succ.inj hlength, fun i v' check' hv hc => ?_⟩⟩
        rw [Nat.add_assoc, Nat.add_comm 1 i]
        exact hall (i + 1) v' check' hv hc

/-- Entries that each describe a check make a list of checks. -/
theorem exists_checksOf {number : Nat} {vs : List Json}
    (h : ∀ i v, vs[i]? = some v → ∃ check, checkOf (number + i) v = .ok check) :
    ∃ checks, checksOf number vs = .ok checks := by
  induction vs generalizing number with
  | nil => exact ⟨[], rfl⟩
  | cons v vs ih =>
    obtain ⟨check, hcheck⟩ := h 0 v rfl
    have htail : ∀ i v', vs[i]? = some v' → ∃ check, checkOf (number + 1 + i) v' = .ok check := by
      intro i v' hv
      rw [Nat.add_assoc, Nat.add_comm 1 i]
      exact h (i + 1) v' hv
    obtain ⟨rest, hrest⟩ := ih htail
    exact ⟨check :: rest, checksOf_cons_eq_ok_iff.2 ⟨check, rest, rfl, hcheck, hrest⟩⟩

end Verify.Config
end WeightLink
