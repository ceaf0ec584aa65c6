/-
# Packing and taking apart

Fields that fit their bits are what the packed block is taken apart into (`Fields.fields_ofFn`),
and the fields of a block are packed into the block with its spare bits zero (`Block.pack_fields`).
So the fields of a block are what is left of it when the spare bits are forgotten
(`Block.fields_eq_iff`), and nothing else is lost in either direction (`Fields.packing_inverts`).
-/

import WeightLink.Proofs.Block.Encode

namespace WeightLink

namespace Block

/-! ### Bits -/

/-- Bit `i` of byte `k`, bit `0` being the least significant one. -/
def bit (b : Block) (k i : Nat) : Bool := (b.byte k).toNat.testBit i

/-- The spare bits: the seven low ones of the second header byte. -/
def spare (k i : Nat) : Bool := decide (k = 1 ∧ i < 7)

/-- The block with its spare bits zero. -/
def cleared (b : Block) : Block := b.setIfInBounds 1 (b.byte 1 / 128 * 128)

/-- A block is determined by its bits. -/
theorem eq_of_bit {b b' : Block} (h : ∀ k i, b.bit k i = b'.bit k i) : b = b' := by
  apply Vector.ext
  intro k hk
  rw [← byte_eq_getElem b hk, ← byte_eq_getElem b' hk, ← UInt8.toNat_inj]
  exact Nat.eq_of_testBit_eq (h k)

theorem byte_cleared_one (b : Block) : b.cleared.byte 1 = b.byte 1 / 128 * 128 := by
  rw [byte_eq_getElem _ (by decide), cleared, Vector.getElem_setIfInBounds_self]

theorem byte_cleared_of_ne (b : Block) {k : Nat} (hk : k ≠ 1) : b.cleared.byte k = b.byte k := by
  rw [byte, byte, cleared, Vector.getElem?_setIfInBounds_ne (Ne.symm hk)]

theorem toNat_byte_cleared_one (b : Block) :
    (b.cleared.byte 1).toNat = (b.byte 1).toNat / 128 * 128 := by
  have := (b.byte 1).toNat_lt
  rw [byte_cleared_one, UInt8.toNat_mul, UInt8.toNat_div]
  change _ / 128 * 128 % 256 = _
  omega

theorem bit_cleared (b : Block) (k i : Nat) :
    b.cleared.bit k i = (b.bit k i && !spare k i) := by
  by_cases hk : k = 1
  · subst hk
    have hshift : (b.byte 1).toNat / 128 * 128 = (b.byte 1).toNat >>> 7 <<< 7 := by
      rw [Nat.shiftLeft_eq, Nat.shiftRight_eq_div_pow]
    rw [bit, toNat_byte_cleared_one, hshift, Nat.testBit_shiftLeft, Nat.testBit_shiftRight, bit]
    by_cases hi : 7 ≤ i
    · simp [spare, hi]
    · simp [spare, hi]
      omega
  · simp [bit, byte_cleared_of_ne b hk, spare, hk]

/-- Two blocks agree up to their spare bits if no other bit tells them apart. -/
theorem cleared_eq_iff {b b' : Block} :
    b.cleared = b'.cleared ↔ ∀ k i, b.bit k i ≠ b'.bit k i → spare k i = true := by
  constructor
  · intro h k i hne
    have hbit := congrArg (bit · k i) h
    simp only [bit_cleared] at hbit
    cases hspare : spare k i with
    | true => rfl
    | false =>
      rw [hspare, Bool.not_false, Bool.and_true, Bool.and_true] at hbit
      exact absurd hbit hne
  · intro h
    refine eq_of_bit fun k i => ?_
    rw [bit_cleared, bit_cleared]
    cases hspare : spare k i with
    | true => rw [Bool.not_true, Bool.and_false, Bool.and_false]
    | false =>
      by_cases hbit : b.bit k i = b'.bit k i
      · rw [hbit]
      · exact absurd (h k i hbit) (by simp [hspare])

/-- The spare bits do not matter to the weights. -/
theorem weights_cleared (b : Block) : b.cleared.weights = b.weights := by
  refine weights_congr (byte_cleared_of_ne b (by decide)) ?_ fun k _ hk =>
    byte_cleared_of_ne b (by omega)
  rw [toNat_byte_cleared_one]
  omega

end Block

/-! ### Fields and blocks -/

namespace Fields

variable (f : Fields)

theorem pack_eq_ok (hd : f.dialect.toNat < 16) (he : f.exponent.toNat < 32) :
    f.pack = .ok (Vector.ofFn f.byte) := by
  rw [pack, if_neg (by rw [UInt8.le_iff_toNat_le]; exact Nat.not_le.2 hd),
    if_neg (by rw [UInt8.le_iff_toNat_le]; exact Nat.not_le.2 he)]

/-- A field without room for its bits is refused, the dialect before the exponent. -/
theorem pack_cases : (f.dialect.toNat < 16 ∧ f.exponent.toNat < 32) ∨
    ((16 ≤ f.dialect.toNat ∨ 32 ≤ f.exponent.toNat) ∧
      ∃ e, f.pack = .error e ∧ e.kind = .bounds) := by
  by_cases hd : 16 ≤ f.dialect
  · refine .inr ⟨.inl (UInt8.le_iff_toNat_le.1 hd), .packedDialect, ?_, rfl⟩
    rw [pack, if_pos hd]
  by_cases he : 32 ≤ f.exponent
  · refine .inr ⟨.inr (UInt8.le_iff_toNat_le.1 he), .packedExponent, ?_, rfl⟩
    rw [pack, if_neg hd, if_pos he]
  · rw [UInt8.le_iff_toNat_le] at hd he
    exact .inl ⟨Nat.not_le.1 hd, Nat.not_le.1 he⟩

/-- **Taking a packed block apart** gives its fields back, of each code the low four bits. -/
theorem fields_ofFn (hd : f.dialect.toNat < 16) (he : f.exponent.toNat < 32) :
    Block.fields (Vector.ofFn f.byte) = { f with codes := f.codes.map (· % 16) } := by
  have hcodes : Vector.ofFn (fun i : Fin 32 => Block.code (Vector.ofFn f.byte) i) =
      f.codes.map (· % 16) := by
    apply Vector.ext
    intro i hi
    rw [Vector.getElem_ofFn, Vector.getElem_map, code_ofFn f hi]
  rw [Block.fields, hcodes, header_ofFn f hd he, UInt8.ofNat_toNat, UInt8.ofNat_toNat]

theorem codes_map_of_lt (h : ∀ i : Fin 32, f.codes.get i < 16) :
    f.codes.map (· % 16) = f.codes := by
  apply Vector.ext
  intro i hi
  have hlt : f.codes[i].toNat < 16 := UInt8.lt_iff_toNat_lt.1 (h ⟨i, hi⟩)
  rw [Vector.getElem_map, ← UInt8.toNat_inj, UInt8.toNat_mod]
  exact Nat.mod_eq_of_lt hlt

end Fields

namespace Block

variable (b : Block)

theorem toNat_dialect_fields : b.fields.dialect.toNat = b.header.dialect.val := by
  rw [fields, UInt8.toNat_ofNat']
  omega

theorem toNat_exponent_fields : b.fields.exponent.toNat = b.header.exponent.val := by
  rw [fields, UInt8.toNat_ofNat']
  omega

/-- The header word of the fields of a block is that of the block without its spare bits. -/
theorem word_fields : 4096 * b.fields.dialect.toNat + 128 * b.fields.exponent.toNat =
    (256 * (b.byte 0).toNat + (b.byte 1).toNat) / 128 * 128 := by
  have := (b.byte 0).toNat_lt
  have := (b.byte 1).toNat_lt
  rw [toNat_dialect_fields, toNat_exponent_fields]
  simp only [header, Header.ofBytes, Fin.ofNat]
  omega

/-- The two codes of a byte are its halves. -/
theorem codes_byte {k : Nat} (hk : 2 ≤ k) :
    16 * (b.code (2 * (k - 2)) % 16) + b.code (2 * (k - 2) + 1) % 16 = b.byte k := by
  have heven : 2 * (k - 2) % 2 = 0 := by omega
  have hodd : ¬(2 * (k - 2) + 1) % 2 = 0 := by omega
  have hbyte : 2 + 2 * (k - 2) / 2 = k ∧ 2 + (2 * (k - 2) + 1) / 2 = k := by omega
  have := (b.byte k).toNat_lt
  simp only [code, heven, hodd, hbyte.1, hbyte.2, if_true, if_false]
  rw [← UInt8.toNat_inj]
  simp only [UInt8.toNat_add, UInt8.toNat_mul, UInt8.toNat_mod, UInt8.toNat_div]
  change (16 * ((b.byte k).toNat / 16 % 16) % 256 + (b.byte k).toNat % 16 % 16) % 256 = _
  omega

/-- **Packing the fields of a block** gives the block with its spare bits zero. -/
theorem pack_fields : b.fields.pack = .ok b.cleared := by
  have h0 := (b.byte 0).toNat_lt
  have h1 := (b.byte 1).toNat_lt
  rw [Fields.pack_eq_ok _ (by rw [toNat_dialect_fields]; omega)
    (by rw [toNat_exponent_fields]; omega)]
  refine congrArg Except.ok (Vector.ext ?_)
  intro k hk
  rw [Vector.getElem_ofFn, ← byte_eq_getElem _ hk]
  by_cases hk0 : k = 0
  · subst hk0
    rw [byte_cleared_of_ne b (by decide), ← UInt8.toNat_inj]
    simp only [Fields.byte, if_true, word_fields, UInt8.toNat_ofNat']
    omega
  by_cases hk1 : k = 1
  · subst hk1
    rw [← UInt8.toNat_inj, toNat_byte_cleared_one]
    simp only [Fields.byte, if_true, word_fields, UInt8.toNat_ofNat', Nat.one_ne_zero, if_false]
    omega
  · rw [byte_cleared_of_ne b hk1, ← codes_byte b (by omega)]
    simp only [Fields.byte, hk0, hk1, if_false, fields, Vector.getElem_ofFn]

theorem codes_fields_lt (i : Fin 32) : b.fields.codes.get i < 16 := by
  obtain ⟨i, hi⟩ := i
  change (Vector.ofFn fun i : Fin 32 => b.code i)[i] < 16
  rw [Vector.getElem_ofFn, UInt8.lt_iff_toNat_lt]
  exact b.code_lt i

/-- The spare bits do not matter to the fields. -/
theorem fields_cleared : b.cleared.fields = b.fields := by
  have hd : b.fields.dialect.toNat < 16 := by rw [toNat_dialect_fields]; omega
  have he : b.fields.exponent.toNat < 32 := by rw [toNat_exponent_fields]; omega
  have hpack : Vector.ofFn b.fields.byte = b.cleared :=
    Except.ok.inj ((Fields.pack_eq_ok _ hd he).symm.trans b.pack_fields)
  rw [← hpack, Fields.fields_ofFn _ hd he, Fields.codes_map_of_lt _ b.codes_fields_lt]

/-- **Two blocks have the same fields** if at most spare bits tell them apart. -/
theorem fields_eq_iff {b b' : Block} :
    b.fields = b'.fields ↔ ∀ k i, b.bit k i ≠ b'.bit k i → spare k i = true := by
  rw [← cleared_eq_iff]
  constructor
  · intro h
    have hpack := b.pack_fields
    rw [h, b'.pack_fields] at hpack
    exact (Except.ok.inj hpack).symm
  · intro h
    rw [← b.fields_cleared, h, b'.fields_cleared]

end Block

/-- **Packing and taking apart are inverse.**  Fields are refused exactly if the dialect does not
fit four bits or the exponent five; the block of any others is taken apart into them, with each code
modulo 16, so into themselves if every code fits four bits.  The fields of any block are packed into
the block with its spare bits zero, which has the same weights.  So two blocks have the same fields
exactly if they differ in spare bits only. -/
theorem Fields.packing_inverts :
    (∀ f : Fields,
      ((∃ e, f.pack = .error e ∧ e.kind = .bounds) ↔ 15 < f.dialect ∨ 31 < f.exponent) ∧
      (f.dialect ≤ 15 → f.exponent ≤ 31 → ∃ b, f.pack = .ok b ∧
        b.fields = { f with codes := f.codes.map (· % 16) } ∧
        ((∀ i : Fin 32, f.codes.get i < 16) → b.fields = f))) ∧
    (∀ b : Block, ∃ packed, b.fields.pack = .ok packed ∧
      (∀ k i, packed.bit k i = (b.bit k i && !Block.spare k i)) ∧ packed.weights = b.weights) ∧
    ∀ b b' : Block, b.fields = b'.fields ↔
      ∀ k i, b.bit k i ≠ b'.bit k i → Block.spare k i = true := by
  refine ⟨fun f => ⟨?_, fun hd he => ?_⟩, fun b => ⟨b.cleared, b.pack_fields, b.bit_cleared,
    b.weights_cleared⟩, fun b b' => Block.fields_eq_iff⟩
  · rw [UInt8.lt_iff_toNat_lt, UInt8.lt_iff_toNat_lt]
    rcases f.pack_cases with ⟨hd, he⟩ | ⟨hover, hrefused⟩
    · rw [f.pack_eq_ok hd he]
      refine iff_of_false (fun ⟨e, h, _⟩ => nomatch h) ?_
      exact not_or.2 ⟨Nat.not_lt.2 (Nat.le_of_lt_succ hd), Nat.not_lt.2 (Nat.le_of_lt_succ he)⟩
    · exact iff_of_true hrefused hover
  · have hd : f.dialect.toNat < 16 := Nat.lt_succ_of_le (UInt8.le_iff_toNat_le.1 hd)
    have he : f.exponent.toNat < 32 := Nat.lt_succ_of_le (UInt8.le_iff_toNat_le.1 he)
    refine ⟨_, f.pack_eq_ok hd he, f.fields_ofFn hd he, fun hcodes => ?_⟩
    rw [f.fields_ofFn hd he, f.codes_map_of_lt hcodes]

/-- Fields whose exponent straddles the two header bytes, with every code. -/
def Fields.straddling : Fields := ⟨11, 19, Vector.ofFn fun i => UInt8.ofNat (5 * i.val % 16)⟩

/-- A block with these fields and all spare bits set. -/
def Block.straddling : Block :=
  #v[0xB9, 0xFF, 0x05, 0xAF, 0x49, 0xE3, 0x8D, 0x27, 0xC1, 0x6B,
    0x05, 0xAF, 0x49, 0xE3, 0x8D, 0x27, 0xC1, 0x6B]

theorem Fields.packing_inverts_straddling :
    Fields.straddling.dialect ≤ 15 ∧ Fields.straddling.exponent ≤ 31 ∧
    (∀ i : Fin 32, Fields.straddling.codes.get i < 16) ∧
    (∃ b, Fields.straddling.pack = .ok b ∧ b.fields = Fields.straddling ∧ b ≠ Block.straddling) ∧
    Block.straddling.fields = Fields.straddling ∧
    (∀ k i, Block.straddling.bit k i ≠ Block.straddling.cleared.bit k i →
      Block.spare k i = true) := by
  have hcodes : ∀ i : Fin 32, Fields.straddling.codes.get i < 16 := by decide
  obtain ⟨hpack, -, hsame⟩ := Fields.packing_inverts
  obtain ⟨b, hb, -, hfields⟩ := (hpack Fields.straddling).2 (by decide) (by decide)
  have hne : Fields.straddling.pack.toOption ≠ some Block.straddling := by decide
  refine ⟨by decide, by decide, hcodes, ⟨b, hb, hfields hcodes, ?_⟩, by decide,
    (hsame _ _).1 (by decide)⟩
  rintro rfl
  exact hne (congrArg Except.toOption hb)

end WeightLink
