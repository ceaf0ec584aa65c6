/-
# The integer that a text denotes

A text denotes an integer if it consists of blanks, a sign or none, and a number in one of three
notations (`Numeral.Denotes`, `Numeral.Magnitude`): decimal digits without a `0` in front, octal
digits behind a `0`, or hexadecimal digits behind `0x`.  A text denotes an integer exactly if the
numeral in front of it leaves nothing over, and then it denotes that numeral
(`Numeral.denotes_iff`).  So it denotes at most one (`Numeral.Denotes.unique`).

Two texts of a word denote it: its decimal digits (`Numeral.denotes_toString`) and the form that is
shown to a reader (`Numeral.denotes_hex`).
-/

import Mathlib.Data.Nat.Digits.Defs
import WeightLink.Text.Numeral
import WeightLink.Word

namespace WeightLink
namespace Numeral

/-! ### Notations -/

/-- The characters are digits of a base, the most significant one in front, and write a number. -/
def Writes (base : Nat) (cs : List Char) (n : Nat) : Prop :=
  ∃ ds : List Nat, cs.map (digit? base) = ds.map some ∧ n = Nat.ofDigits base ds.reverse

/-- The characters are a number in one of the three notations. -/
inductive Magnitude : List Char → Nat → Prop where
  | decimal {c : Char} {cs : List Char} {n : Nat} :
    c ≠ '0' → Writes 10 (c :: cs) n → Magnitude (c :: cs) n
  | octal {cs : List Char} {n : Nat} : Writes 8 cs n → Magnitude ('0' :: cs) n
  | hexadecimal {x : Char} {cs : List Char} {n : Nat} :
    x = 'x' ∨ x = 'X' → cs ≠ [] → Writes 16 cs n → Magnitude ('0' :: x :: cs) n

/-- The characters are a number behind a sign, or one without a sign. -/
inductive Signed : List Char → Int → Prop where
  | bare {cs : List Char} {n : Nat} : Magnitude cs n → Signed cs n
  | plus {cs : List Char} {n : Nat} : Magnitude cs n → Signed ('+' :: cs) n
  | minus {cs : List Char} {n : Nat} : Magnitude cs n → Signed ('-' :: cs) (-n)

/-- The characters are blanks and a number with its sign. -/
def Denotes (cs : List Char) (m : Int) : Prop :=
  ∃ blanks number, cs = blanks ++ number ∧ (∀ c ∈ blanks, isBlank c = true) ∧ Signed number m

/-- The integer that a numeral stands for. -/
def toInt (n : Numeral) : Int := if n.negative then -(n.magnitude : Int) else n.magnitude

/-! ### Digits -/

theorem value_eq_ofDigits (base : Nat) (ds : List Nat) :
    value base ds = Nat.ofDigits base ds.reverse := by
  rw [Nat.ofDigits_eq_foldr, List.foldr_reverse, value]
  congr 1
  funext n d
  rw [Nat.cast_id, Nat.add_comm]

/-- The digits in front are everything exactly if every character is a digit. -/
theorem digits_eq_iff {base : Nat} {cs : List Char} {ds : List Nat} :
    digits base cs = (ds, []) ↔ cs.map (digit? base) = ds.map some := by
  induction cs generalizing ds with
  | nil => cases ds <;> simp [digits]
  | cons c cs ih =>
    cases hc : digit? base c with
    | none => cases ds <;> simp [digits, hc]
    | some d =>
      cases ds with
      | nil => simp [digits, hc]
      | cons d' ds =>
        simp only [digits, hc, List.map_cons, List.cons.injEq, Option.some.injEq, Prod.mk.injEq,
          ← ih, and_assoc]
        rw [← Prod.mk.injEq, Prod.mk.eta]

theorem writes_iff {base : Nat} {cs : List Char} {n : Nat} :
    Writes base cs n ↔ ∃ ds, digits base cs = (ds, []) ∧ n = value base ds := by
  simp only [Writes, digits_eq_iff, value_eq_ofDigits]

/-- The characters of digits are behind the blanks and the signs. -/
theorem le_toNat_of_digit? {base : Nat} {c : Char} (hbase : base ≤ 36)
    (h : (digit? base c).isSome) : 48 ≤ c.toNat := by
  by_contra hlt
  have h0 : ¬('0' ≤ c ∧ c ≤ '9') := fun hc => hlt (UInt32.le_iff_toNat_le.1 hc.1)
  have ha : ¬('a' ≤ c ∧ c ≤ 'z') := fun hc => hlt
    (Nat.le_trans (by decide) (UInt32.le_iff_toNat_le.1 hc.1))
  have hA : ¬('A' ≤ c ∧ c ≤ 'Z') := fun hc => hlt
    (Nat.le_trans (by decide) (UInt32.le_iff_toNat_le.1 hc.1))
  simp only [digit?, h0, ha, hA, if_false, Nat.not_lt.2 hbase, Option.isSome_none] at h
  exact Bool.noConfusion h

theorem isBlank_eq_false {c : Char} (h : 33 ≤ c.toNat) : isBlank c = false := by
  have hspace : c ≠ ' ' := by
    rintro rfl
    exact absurd h (by decide)
  have hcontrol : ¬c ≤ '\r' := fun hc =>
    absurd (Nat.le_trans h (UInt32.le_iff_toNat_le.1 hc)) (by decide)
  simp [isBlank, hspace, hcontrol]

theorem Writes.isSome_digit? {base : Nat} {c : Char} {cs : List Char} {n : Nat}
    (h : Writes base (c :: cs) n) : (digit? base c).isSome := by
  obtain ⟨ds, hds, -⟩ := h
  cases ds with
  | nil => exact nomatch hds
  | cons d ds => rw [(List.cons.inj hds).1, Option.isSome_some]

/-- Characters write at most one number. -/
theorem Writes.unique {base : Nat} {cs : List Char} {n m : Nat} (h : Writes base cs n)
    (h' : Writes base cs m) : n = m := by
  obtain ⟨ds, hds, rfl⟩ := h
  obtain ⟨ds', hds', rfl⟩ := h'
  rw [(List.map_inj_right fun _ _ => Option.some.inj).1 (hds.symm.trans hds')]

theorem Writes.not_mem {base : Nat} {cs : List Char} {n : Nat} (h : Writes base cs n) {c : Char}
    (hc : digit? base c = none) : c ∉ cs := by
  obtain ⟨ds, hds, -⟩ := h
  intro hmem
  have hnone := List.mem_map_of_mem (f := digit? base) hmem
  rw [hds, hc] at hnone
  simp at hnone

/-! ### Reading -/

/-- The notation shows in the first characters. -/
theorem base_cases (cs : List Char) :
    (∃ x d r, cs = '0' :: x :: d :: r ∧ (x = 'x' ∨ x = 'X') ∧ (digit? 16 d).isSome ∧
      base cs = (16, d :: r)) ∨
    (∃ r, cs = '0' :: r ∧ base cs = (8, cs) ∧
      ∀ x d r', r = x :: d :: r' → x = 'x' ∨ x = 'X' → ¬(digit? 16 d).isSome) ∨
    (cs.head? ≠ some '0' ∧ base cs = (10, cs)) := by
  cases cs with
  | nil => exact .inr (.inr ⟨nofun, rfl⟩)
  | cons c cs =>
    by_cases hc : c = '0'
    · subst hc
      rcases cs with _ | ⟨x, _ | ⟨d, r⟩⟩
      · exact .inr (.inl ⟨[], rfl, rfl, nofun⟩)
      · exact .inr (.inl ⟨[x], rfl, rfl, nofun⟩)
      · by_cases hx : (x = 'x' ∨ x = 'X') ∧ (digit? 16 d).isSome
        · exact .inl ⟨x, d, r, rfl, hx.1, hx.2, by simp only [base, if_pos hx]⟩
        · refine .inr (.inl ⟨x :: d :: r, rfl, by simp only [base, if_neg hx], ?_⟩)
          rintro x' d' r' heq hx' hd'
          obtain ⟨rfl, rfl, -⟩ : x = x' ∧ d = d' ∧ r = r' := by simpa using heq
          exact hx ⟨hx', hd'⟩
    · refine .inr (.inr ⟨by simpa using hc, ?_⟩)
      unfold base
      split
      · next h => exact absurd (List.cons.inj h).1 hc
      · next h => exact absurd (List.cons.inj h).1 hc
      · rfl

/-- A number of at least one digit. -/
theorem writes_cons_iff {base : Nat} {c : Char} {cs : List Char} {n : Nat} :
    Writes base (c :: cs) n ↔
      ∃ ds, ds ≠ [] ∧ digits base (c :: cs) = (ds, []) ∧ n = value base ds := by
  rw [writes_iff]
  constructor
  · rintro ⟨ds, hds, hn⟩
    refine ⟨ds, ?_, hds, hn⟩
    rintro rfl
    exact nomatch digits_eq_iff.1 hds
  · rintro ⟨ds, -, hds, hn⟩
    exact ⟨ds, hds, hn⟩

/-- A zero in front makes no difference. -/
theorem writes_zero_iff {cs : List Char} {n : Nat} : Writes 8 ('0' :: cs) n ↔ Writes 8 cs n := by
  have h0 : digit? 8 '0' = some 0 := by decide
  simp only [writes_iff, digits, h0, Prod.mk.injEq]
  constructor
  · rintro ⟨_, ⟨rfl, hrest⟩, hn⟩
    exact ⟨_, Prod.ext rfl hrest, hn⟩
  · rintro ⟨ds, hds, hn⟩
    rw [hds]
    exact ⟨_, ⟨rfl, rfl⟩, hn⟩

/-- The digits behind the mark of a notation are a number in it. -/
theorem magnitude_iff {cs : List Char} {n : Nat} : Magnitude cs n ↔
    ∃ ds, ds ≠ [] ∧ digits (base cs).1 (base cs).2 = (ds, []) ∧ n = value (base cs).1 ds := by
  rcases base_cases cs with ⟨x, d, r, rfl, hx, hd, hb⟩ | ⟨r, rfl, hb, hno⟩ | ⟨hhead, hb⟩
  · have hoctal : ¬(digit? 8 x).isSome := by
      rcases hx with rfl | rfl <;> decide
    rw [hb, ← writes_cons_iff]
    constructor
    · intro h
      cases h with
      | decimal h0 _ => exact absurd rfl h0
      | octal h => exact absurd h.isSome_digit? hoctal
      | hexadecimal _ _ h => exact h
    · exact .hexadecimal hx (List.cons_ne_nil d r)
  · rw [hb, ← writes_cons_iff, writes_zero_iff]
    constructor
    · intro h
      cases h with
      | decimal h0 _ => exact absurd rfl h0
      | octal h => exact h
      | @hexadecimal x cs n hx hne h =>
        cases cs with
        | nil => exact absurd rfl hne
        | cons d r' => exact absurd h.isSome_digit? (hno x d r' rfl hx)
    · exact .octal
  · rw [hb]
    cases cs with
    | nil =>
      refine iff_of_false nofun ?_
      rintro ⟨ds, hne, hds, -⟩
      exact hne (congrArg Prod.fst hds).symm
    | cons c cs =>
      have hc : c ≠ '0' := fun hc => hhead (congrArg some hc)
      rw [← writes_cons_iff]
      constructor
      · intro h
        cases h with
        | decimal _ h => exact h
        | octal h => exact absurd rfl hc
        | hexadecimal _ _ h => exact absurd rfl hc
      · exact .decimal hc

/-- A number starts with a digit. -/
theorem Magnitude.head {cs : List Char} {n : Nat} (h : Magnitude cs n) :
    ∃ c r, cs = c :: r ∧ 48 ≤ c.toNat := by
  cases h with
  | decimal _ h => exact ⟨_, _, rfl, le_toNat_of_digit? (by decide) h.isSome_digit?⟩
  | octal h => exact ⟨_, _, rfl, by decide⟩
  | hexadecimal _ _ h => exact ⟨_, _, rfl, by decide⟩

theorem sign_cases (cs : List Char) : (∃ r, cs = '-' :: r ∧ sign cs = (true, r)) ∨
    (∃ r, cs = '+' :: r ∧ sign cs = (false, r)) ∨ sign cs = (false, cs) := by
  unfold sign
  split
  · exact .inl ⟨_, rfl, rfl⟩
  · exact .inr (.inl ⟨_, rfl, rfl⟩)
  · exact .inr (.inr rfl)

theorem sign_of_digit {c : Char} {r : List Char} (h : 48 ≤ c.toNat) :
    sign (c :: r) = (false, c :: r) := by
  rcases sign_cases (c :: r) with ⟨_, hc, -⟩ | ⟨_, hc, -⟩ | hs
  · obtain rfl := (List.cons.inj hc).1
    exact absurd h (by decide)
  · obtain rfl := (List.cons.inj hc).1
    exact absurd h (by decide)
  · exact hs

theorem signed_iff {cs : List Char} {m : Int} : Signed cs m ↔
    ∃ n : Nat, Magnitude (sign cs).2 n ∧ m = if (sign cs).1 then -(n : Int) else n := by
  constructor
  · intro h
    cases h with
    | bare h =>
      obtain ⟨c, r, rfl, hc⟩ := h.head
      rw [sign_of_digit hc]
      exact ⟨_, h, rfl⟩
    | plus h => exact ⟨_, h, rfl⟩
    | minus h => exact ⟨_, h, rfl⟩
  · rintro ⟨n, h, rfl⟩
    rcases sign_cases cs with ⟨r, rfl, hs⟩ | ⟨r, rfl, hs⟩ | hs
    · rw [hs] at h ⊢
      exact .minus h
    · rw [hs] at h ⊢
      exact .plus h
    · rw [hs] at h ⊢
      exact .bare h

theorem Signed.dropWhile {cs : List Char} {m : Int} (h : Signed cs m) :
    cs.dropWhile isBlank = cs := by
  have hhead : ∃ c r, cs = c :: r ∧ 33 ≤ c.toNat := by
    cases h with
    | bare h =>
      obtain ⟨c, r, hcs, hc⟩ := h.head
      exact ⟨c, r, hcs, by omega⟩
    | plus h => exact ⟨_, _, rfl, by decide⟩
    | minus h => exact ⟨_, _, rfl, by decide⟩
  obtain ⟨c, r, rfl, hc⟩ := hhead
  rw [List.dropWhile_cons, isBlank_eq_false hc]
  rfl

theorem denotes_iff_signed {cs : List Char} {m : Int} :
    Denotes cs m ↔ Signed (cs.dropWhile isBlank) m := by
  constructor
  · rintro ⟨blanks, number, rfl, hblanks, h⟩
    rwa [List.dropWhile_append_of_pos hblanks, h.dropWhile]
  · intro h
    refine ⟨cs.takeWhile isBlank, _, List.takeWhile_append_dropWhile.symm, ?_, h⟩
    exact fun c hc => List.all_eq_true.1 List.all_takeWhile c hc

theorem read_eq_some_iff {cs : List Char} {n : Numeral} : read cs = some n ↔
    let signed := sign (cs.dropWhile isBlank)
    ∃ ds, ds ≠ [] ∧ digits (base signed.2).1 (base signed.2).2 = (ds, n.rest) ∧
      n.negative = signed.1 ∧ n.magnitude = value (base signed.2).1 ds := by
  obtain ⟨negative, magnitude, rest⟩ := n
  dsimp only [read]
  generalize sign (cs.dropWhile isBlank) = signed
  generalize base signed.2 = based
  generalize hds : digits based.1 based.2 = found
  obtain ⟨ds, left⟩ := found
  cases ds with
  | nil =>
    refine iff_of_false nofun ?_
    rintro ⟨ds, hne, hds', -⟩
    exact hne (congrArg Prod.fst hds').symm
  | cons d ds =>
    simp only [Option.some.injEq, Numeral.mk.injEq, Prod.mk.injEq]
    constructor
    · rintro ⟨rfl, rfl, rfl⟩
      exact ⟨d :: ds, List.cons_ne_nil d ds, ⟨rfl, rfl⟩, rfl, rfl⟩
    · rintro ⟨ds', -, ⟨rfl, rfl⟩, rfl, rfl⟩
      exact ⟨rfl, rfl, rfl⟩

/-- **A text denotes an integer** exactly if the numeral in front of it is that integer and leaves
nothing over. -/
theorem denotes_iff {cs : List Char} {m : Int} :
    Denotes cs m ↔ ∃ n, read cs = some n ∧ n.rest = [] ∧ m = n.toInt := by
  rw [denotes_iff_signed, signed_iff]
  simp only [magnitude_iff, read_eq_some_iff]
  constructor
  · rintro ⟨n, ⟨ds, hne, hds, hn⟩, hm⟩
    exact ⟨⟨_, n, []⟩, ⟨ds, hne, hds, rfl, hn⟩, rfl, hm⟩
  · rintro ⟨⟨negative, n, rest⟩, ⟨ds, hne, hds, hnegative, hn⟩, hrest, hm⟩
    dsimp only at hds hnegative hn hrest
    subst hrest hnegative
    exact ⟨n, ⟨ds, hne, hds, hn⟩, hm⟩

theorem Denotes.unique {cs : List Char} {m m' : Int} (h : Denotes cs m) (h' : Denotes cs m') :
    m = m' := by
  obtain ⟨n, hn, -, rfl⟩ := denotes_iff.1 h
  obtain ⟨n', hn', -, rfl⟩ := denotes_iff.1 h'
  obtain rfl := Option.some.inj (hn.symm.trans hn')
  rfl

/-! ### The texts of a number -/

/-- One more digit behind the others. -/
theorem Writes.concat {base : Nat} {cs : List Char} {n : Nat} (h : Writes base cs n) {c : Char}
    {d : Nat} (hd : digit? base c = some d) : Writes base (cs ++ [c]) (base * n + d) := by
  obtain ⟨ds, hds, rfl⟩ := h
  refine ⟨ds ++ [d], by simp [hds, hd], ?_⟩
  rw [List.reverse_append, List.reverse_singleton, List.singleton_append, Nat.ofDigits_cons,
    Nat.add_comm]

theorem digit?_digitChar {d : Nat} (hd : d < 10) : digit? 10 (Nat.digitChar d) = some d := by
  have hall : ∀ d : Fin 10, digit? 10 (Nat.digitChar d) = some d.val := by decide
  exact hall ⟨d, hd⟩

theorem digit?_hexDigit (n : Nat) : digit? 16 (Word.hexDigit n) = some (n % 16) := by
  have hall : ∀ d : Fin 16, digit? 16 (Nat.digitChar d).toUpper = some d.val := by decide
  exact hall ⟨n % 16, Nat.mod_lt n (by decide)⟩

theorem writes_toDigits (n : Nat) : Writes 10 (Nat.toDigits 10 n) n := by
  induction n using Nat.strongRecOn with
  | _ n ih =>
    by_cases hn : n < 10
    · rw [Nat.toDigits_of_lt_base hn]
      exact ⟨[n], by rw [List.map_singleton, List.map_singleton, digit?_digitChar hn],
        Nat.ofDigits_singleton.symm⟩
    · rw [Nat.toDigits_of_base_le (by decide) (Nat.not_lt.1 hn)]
      have h := (ih (n / 10) (by omega)).concat (digit?_digitChar (Nat.mod_lt n (by decide)))
      rwa [Nat.div_add_mod] at h

/-- The decimal digits of a number do not start with a zero. -/
theorem toDigits_head {n : Nat} (hn : 0 < n) : ∃ c cs, Nat.toDigits 10 n = c :: cs ∧ c ≠ '0' := by
  induction n using Nat.strongRecOn with
  | _ n ih =>
    by_cases hlt : n < 10
    · have hall : ∀ d : Fin 10, 0 < d.val → Nat.digitChar d ≠ '0' := by decide
      exact ⟨_, [], Nat.toDigits_of_lt_base hlt, hall ⟨n, hlt⟩ hn⟩
    · obtain ⟨c, cs, hcs, hc⟩ := ih (n / 10) (by omega) (by omega)
      exact ⟨c, _, by rw [Nat.toDigits_of_base_le (by decide) (Nat.not_lt.1 hlt), hcs]; rfl, hc⟩

theorem Denotes.of_magnitude {cs : List Char} {n : Nat} (h : Magnitude cs n) : Denotes cs n :=
  ⟨[], cs, rfl, nofun, .bare h⟩

/-- **The decimal digits of a number denote it.** -/
theorem denotes_toString (n : Nat) : Denotes (toString n).toList n := by
  have hwrites := writes_toDigits n
  rw [Nat.toString_eq_repr, Nat.toList_repr]
  by_cases hn : n = 0
  · subst hn
    exact .of_magnitude (.octal ⟨[], rfl, rfl⟩)
  · obtain ⟨c, cs, hcs, hc⟩ := toDigits_head (Nat.pos_of_ne_zero hn)
    rw [hcs] at hwrites ⊢
    exact .of_magnitude (.decimal hc hwrites)

/-- The form of a word that is shown to a reader is `0x` and eight hexadecimal digits that write
the word. -/
theorem writes_hex (w : UInt32) : ∃ digits, (Word.hex w).toList = '0' :: 'x' :: digits ∧
    digits.length = 8 ∧ Writes 16 digits w.toNat := by
  have htext : (Word.hex w).toList =
      '0' :: 'x' :: (List.range 8).map fun k => Word.hexDigit (w.toNat >>> (4 * (7 - k))) := by
    rw [Word.hex, String.toList_append]
    exact congrArg (['0', 'x'] ++ ·) String.toList_ofList
  have hvalue : w.toNat = Nat.ofDigits 16
      ((List.range 8).map fun k => w.toNat >>> (4 * (7 - k)) % 16).reverse := by
    have := w.toNat_lt
    simp only [show List.range 8 = [0, 1, 2, 3, 4, 5, 6, 7] by rfl, List.map_cons, List.map_nil,
      List.reverse_cons, List.reverse_nil, List.nil_append, List.cons_append, Nat.ofDigits_cons,
      Nat.ofDigits_nil, Nat.shiftRight_eq_div_pow, Nat.reduceSub, Nat.reduceMul, Nat.reducePow]
    omega
  refine ⟨_, htext, by simp, _, ?_, hvalue⟩
  rw [List.map_map, List.map_map]
  exact List.map_congr_left fun k _ => digit?_hexDigit _

/-- **A word denotes itself** in the form that is shown to a reader. -/
theorem denotes_hex (w : UInt32) : Denotes (Word.hex w).toList w.toNat := by
  obtain ⟨digits, htext, hlength, hwrites⟩ := writes_hex w
  have hne : digits ≠ [] := List.ne_nil_of_length_pos (by omega)
  rw [htext]
  exact .of_magnitude (.hexadecimal (.inl rfl) hne hwrites)

end Numeral
end WeightLink
