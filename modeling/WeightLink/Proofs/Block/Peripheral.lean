/-
# The peripheral against the definition

The peripheral takes a block through its registers: the header as a word, the codes as four
little-endian words, and the weights back as eight.  Taken apart again, the registers give
the codes and the fields of the block, and its exponent stage, with one arm per exponent,
is the scale of the definition.  So a block that is driven through it decodes by the
definition, whatever the registers held before (`Peripheral.weights_load`).
-/

import WeightLink.Proofs.Block.Embedded

namespace WeightLink

/-! ### Words and their bytes -/

namespace Word

/-- Four bytes shifted into their places make the word of these bytes. -/
theorem or_eq_ofBytes (b₀ b₁ b₂ b₃ : UInt8) :
    b₀.toUInt32 ||| b₁.toUInt32 <<< 8 ||| b₂.toUInt32 <<< 16 ||| b₃.toUInt32 <<< 24 =
      ofBytes b₀ b₁ b₂ b₃ := by
  have h₀ := b₀.toNat_lt
  have h₁ := b₁.toNat_lt
  have h₂ := b₂.toNat_lt
  have h₃ := b₃.toNat_lt
  have hor : ∀ {x y i : Nat}, x < 2 ^ i → x ||| y <<< i = x + y * 2 ^ i := by
    intro x y i hx
    rw [Nat.or_comm, ← Nat.shiftLeft_add_eq_or_of_lt hx, Nat.shiftLeft_eq, Nat.add_comm]
  rw [← UInt32.toNat_inj, toNat_ofBytes, UInt32.toNat_or, UInt32.toNat_or, UInt32.toNat_or,
    UInt32.toNat_shiftLeft, UInt32.toNat_shiftLeft, UInt32.toNat_shiftLeft]
  simp only [UInt8.toNat_toUInt32]
  change b₀.toNat ||| (b₁.toNat <<< 8) % 2 ^ 32 ||| (b₂.toNat <<< 16) % 2 ^ 32
    ||| (b₃.toNat <<< 24) % 2 ^ 32 = _
  rw [Nat.mod_eq_of_lt (a := b₁.toNat <<< 8) (by rw [Nat.shiftLeft_eq]; omega),
    Nat.mod_eq_of_lt (a := b₂.toNat <<< 16) (by rw [Nat.shiftLeft_eq]; omega),
    Nat.mod_eq_of_lt (a := b₃.toNat <<< 24) (by rw [Nat.shiftLeft_eq]; omega),
    hor (i := 8) h₀, hor (i := 16) (by omega), hor (i := 24) (by omega)]
  omega

theorem byte_ofBytes (b : Nat → UInt8) {k : Nat} (hk : k < 4) :
    byte (ofBytes (b 0) (b 1) (b 2) (b 3)) k = b k := by
  have h := congrArg (·[k]?) (bytes_ofBytes (b 0) (b 1) (b 2) (b 3))
  match k, hk with
  | 0, _ => simpa [bytes] using h
  | 1, _ => simpa [bytes] using h
  | 2, _ => simpa [bytes] using h
  | 3, _ => simpa [bytes] using h

/-- A byte of a word by shifting and masking. -/
theorem toUInt8_shiftRight (w : UInt32) {k : Nat} (hk : k < 4) :
    ((w >>> UInt32.ofNat (8 * k)) &&& 0xFF).toUInt8 = byte w k := by
  rw [← UInt8.toNat_inj, toNat_byte, UInt32.toNat_toUInt8, UInt32.toNat_and,
    UInt32.toNat_shiftRight, UInt32.toNat_ofNat']
  change (w.toNat >>> (8 * k % 2 ^ 32 % 32) &&& 255) % 256 = _
  rw [Nat.and_two_pow_sub_one_eq_mod _ 8, Nat.mod_mod,
    show 8 * k % 2 ^ 32 % 32 = 8 * k by omega]

end Word

namespace Peripheral

/-! ### The registers of a block -/

theorem write_codes (p : Peripheral) {k : Nat} (hk : k < 4) (value : UInt32) :
    p.write (codesOffset k) value = { p with codes := p.codes.set k value } := by
  have hall : ∀ k : Fin 4, codesOffset k ≠ 0x00 ∧
      ((0x04 ≤ codesOffset k ∧ codesOffset k < 0x14) ∧ codesOffset k % 4 = 0) ∧
      ((codesOffset k - 0x04) / 4).toNat = k.val := by decide
  obtain ⟨h0, hin, hk'⟩ := hall ⟨k, hk⟩
  rw [write, if_neg h0, if_pos hin, hk']
  congr 1
  apply Vector.ext
  intro i hi
  simp [Vector.getElem_setIfInBounds, Vector.getElem_set]

/-- Whatever the registers held before, they hold the block afterwards. -/
theorem load_eq (p : Peripheral) (b : Block) : p.load b =
    ⟨((b.byte 0).toUInt32 <<< 8 ||| (b.byte 1).toUInt32).toUInt16,
      #v[codesWord b 0, codesWord b 1, codesWord b 2, codesWord b 3]⟩ := by
  simp only [load, show List.range 4 = [0, 1, 2, 3] by rfl, List.foldl_cons, List.foldl_nil,
    write_codes _ (show 0 < 4 by decide), write_codes _ (show 1 < 4 by decide),
    write_codes _ (show 2 < 4 by decide), write_codes _ (show 3 < 4 by decide)]
  congr 1
  apply Vector.ext
  intro k hk
  match k, hk with
  | 0, _ => simp
  | 1, _ => simp
  | 2, _ => simp
  | 3, _ => simp

theorem read_weights (p : Peripheral) {k : Nat} (hk : k < 8) :
    p.read (weightsOffset k) = p.weightsWord k := by
  have hall : ∀ k : Fin 8, weightsOffset k ≠ 0x40 ∧
      ((0x20 ≤ weightsOffset k ∧ weightsOffset k < 0x40) ∧ weightsOffset k % 4 = 0) ∧
      ((weightsOffset k - 0x20) / 4).toNat = k.val := by decide
  obtain ⟨hs, hin, hk'⟩ := hall ⟨k, hk⟩
  rw [read, if_neg hs, if_pos hin, hk']

/-- Weight by weight, the peripheral shows the elements of its codes. -/
theorem getElem_weights (p : Peripheral) {i : Nat} (hi : i < 32) :
    p.weights[i] = (p.element (p.code i)).toInt8 := by
  rw [weights, Vector.getElem_ofFn, read_weights p (by omega), weightsWord, Word.or_eq_ofBytes,
    Word.byte_ofBytes (fun j => p.element (p.code (4 * (i / 4) + j))) (by omega),
    show 4 * (i / 4) + i % 4 = i by omega]

/-! ### The fields of a loaded block -/

section Load

variable (p : Peripheral) (b : Block)

theorem toNat_header_load :
    (p.load b).header.toNat = 256 * (b.byte 0).toNat + (b.byte 1).toNat := by
  rw [load_eq, ← Header.toNat_word]
  simp

theorem codes_load {k : Nat} (hk : k < 4) : (p.load b).codes[k]?.getD 0 = codesWord b k := by
  rw [load_eq]
  match k, hk with
  | 0, _ => rfl
  | 1, _ => rfl
  | 2, _ => rfl
  | 3, _ => rfl

omit p in
/-- Code byte `k` of a block in its code word. -/
theorem byte_codesWord (k : Nat) : Word.byte (codesWord b (k / 4)) (k % 4) = b.byte (2 + k) := by
  have h := Word.byte_ofBytes (fun j => b.byte (2 + 4 * (k / 4) + j))
    (show k % 4 < 4 from Nat.mod_lt k (by decide))
  rw [show 2 + 4 * (k / 4) + k % 4 = 2 + k by omega] at h
  rw [← h, codesWord]
  congr 2 <;> congr 1 <;> omega

theorem code_load {i : Nat} (hi : i < 32) : (p.load b).code i = b.code i := by
  rw [code, codes_load p b (by omega), Word.toUInt8_shiftRight _ (by omega), byte_codesWord,
    Code.shiftRight_four, Code.and_fifteen]
  rfl

end Load

/-! ### The data path -/

theorem levelMemory_eq_level (d : Fin 16) (i : Fin 8) :
    levelMemory[8 * d.val + i.val]?.getD 0 = Dialect.level d i := by
  revert d i; decide +kernel

/-- The sixteen levels and 32 exponents that there are. -/
theorem exponentStage_eq_scale {level : UInt8} (hl : level.toNat ≤ 15) (e : Fin 32) :
    exponentStage level (UInt8.ofNat e) = Dialect.scale level (UInt8.ofNat e) := by
  have hall : ∀ m : Fin 16, ∀ e : Fin 32, exponentStage (UInt8.ofNat m) (UInt8.ofNat e) =
      Dialect.scale (UInt8.ofNat m) (UInt8.ofNat e) := by decide +kernel
  have hm := hall ⟨level.toNat, by omega⟩ e
  rwa [UInt8.ofNat_toNat] at hm

/-- A magnitude and its two's complement as weights. -/
theorem toInt8_magnitude {m : UInt8} (hm : m.toNat ≤ 127) :
    m.toInt8 = Int8.ofInt m.toNat ∧ (~~~m + 1).toInt8 = Int8.ofInt (-m.toNat) := by
  have hall : ∀ n : Fin 128, (UInt8.ofNat n).toInt8 = Int8.ofInt n.val ∧
      (~~~(UInt8.ofNat n) + 1).toInt8 = Int8.ofInt (-n.val) := by decide +kernel
  have hn := hall ⟨m.toNat, by omega⟩
  rwa [UInt8.ofNat_toNat] at hn

/-- The dialect and the index side by side. -/
theorem toNat_address (d : Fin 16) (c : UInt8) :
    ((UInt8.ofNat d <<< 3) ||| (c &&& 0x07)).toNat = 8 * d.val + (Code.index c).val := by
  have hd : (UInt8.ofNat d <<< 3).toNat = d.val <<< 3 := by
    rw [UInt8.toNat_shiftLeft, UInt8.toNat_ofNat']
    change (d.val % 256) <<< 3 % 256 = _
    rw [Nat.shiftLeft_eq, Nat.shiftLeft_eq]
    omega
  rw [UInt8.toNat_or, hd, Code.toNat_and_seven,
    ← Nat.shiftLeft_add_eq_or_of_lt (i := 3) (Code.index c).isLt, Nat.shiftLeft_eq]
  omega

theorem element_load (p : Peripheral) (b : Block) (c : UInt8) :
    ((p.load b).element c).toInt8 = Code.weight b.header c := by
  have hdialect : (p.load b).dialect = UInt8.ofNat b.header.dialect :=
    Block.dialect_of_word (toNat_header_load p b)
  have hexponent : (p.load b).exponent = UInt8.ofNat b.header.exponent :=
    Block.exponent_of_word (toNat_header_load p b)
  have hl := Dialect.toNat_level_le b.header.dialect (Code.index c)
  obtain ⟨hpos, hneg⟩ :=
    toInt8_magnitude (Dialect.scale_level_le b.header.dialect (Code.index c) b.header.exponent)
  simp only [element, hdialect, hexponent, toNat_address, levelMemory_eq_level,
    exponentStage_eq_scale hl, Code.sign_ne_zero_iff, Code.weight]
  split
  · exact hneg
  · exact hpos

/-- **A peripheral decodes by the definition, whatever its registers held before.** -/
theorem weights_load (p : Peripheral) (b : Block) : (p.load b).weights = b.weights := by
  apply Vector.ext
  intro i hi
  rw [getElem_weights _ hi, code_load p b hi, element_load, Block.weights, Vector.getElem_ofFn]

end Peripheral
end WeightLink
