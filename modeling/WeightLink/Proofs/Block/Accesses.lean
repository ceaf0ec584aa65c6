/-
# The peripheral under any accesses

A caller may write, read, reset and drive the peripheral in any order.  At any time its registers
hold the block that the last accesses to each of them left there (`Peripheral.held`), and what
can be read is a function of that block: the weights of the definition, the status, and zero
everywhere else (`Peripheral.accesses_combinational`).

The header and the code words take a block byte by byte, each byte in one place
(`Peripheral.stored`).  One access stores some of the bytes and leaves the others
(`Peripheral.stored_act`), and a peripheral is what is left by driving the block that it stores
(`Peripheral.load_block`).
-/

import Mathlib.Data.List.Induction
import WeightLink.Proofs.Block.Peripheral

namespace WeightLink

/-- A weight as a byte in two's complement, zero past the last one. -/
def Values.byte (x : Values) (i : Nat) : UInt8 := (x[i]?.getD 0).toUInt8

/-- Word `k` of the weights: the weights `4 k` to `4 k + 3`, the first one in the least significant
byte. -/
def Values.word (x : Values) (k : Nat) : UInt32 :=
  Word.ofBytes (x.byte (4 * k)) (x.byte (4 * k + 1)) (x.byte (4 * k + 2)) (x.byte (4 * k + 3))

namespace Peripheral

/-- An access to the peripheral. -/
inductive Access where
  | write (offset value : UInt32)
  | read (offset : UInt32)
  | reset
  /-- Drives a block that may be missing, for a caller who may have no room for the weights. -/
  | drive (block : Option Block) (room : Bool)
  deriving DecidableEq, Repr

/-- The registers after an access. -/
def act (p : Peripheral) : Access → Peripheral
  | .write offset value => p.write offset value
  | .read _ => p
  | .reset => cleared
  | .drive block room =>
    match p.driveInto block room with
    | .ok driven => driven.2
    | .error _ => p

/-- The registers after some accesses, the first of which finds them cleared. -/
def after (history : List Access) : Peripheral := history.foldl act cleared

/-! ### What the accesses have left -/

/-- The offset of the register that holds byte `k` of the block. -/
def offsetOf (k : Nat) : Nat := if k < 2 then 0x00 else 0x04 + 4 * ((k - 2) / 4)

/-- The byte of that register which holds it: the header has its most significant byte in front,
the code words their least significant one. -/
def laneOf (k : Nat) : Nat := if k < 2 then 1 - k else (k - 2) % 4

/-- What an access leaves in byte `k` of the block, unless it leaves that alone. -/
def Access.stores (k : Nat) : Access → Option UInt8
  | .write offset value =>
    if offset.toNat = offsetOf k then some (Word.byte value (laneOf k)) else none
  | .read _ => none
  | .reset => some 0
  | .drive (some b) true => some (b.byte k)
  | .drive _ _ => none

/-- The block that is left in the registers: every byte as the last access stored it that did not
leave it alone, and zero if there was none. -/
def held (history : List Access) : Block :=
  Vector.ofFn fun k : Fin 18 => (history.reverse.findSome? (Access.stores k)).getD 0

theorem byte_held (history : List Access) {k : Nat} (hk : k < 18) :
    (held history).byte k = (history.reverse.findSome? (Access.stores k)).getD 0 := by
  rw [Block.byte_eq_getElem _ hk, held, Vector.getElem_ofFn]

theorem byte_held_concat (history : List Access) (a : Access) {k : Nat} (hk : k < 18) :
    (held (history ++ [a])).byte k = (a.stores k).getD ((held history).byte k) := by
  rw [byte_held _ hk, byte_held _ hk, List.reverse_concat, List.findSome?_cons]
  cases a.stores k <;> rfl

/-! ### What the registers store -/

/-- Byte `k` of the block, as the registers store it. -/
def stored (p : Peripheral) (k : Nat) : UInt8 :=
  if k < 2 then Word.byte p.header.toUInt32 (1 - k)
  else Word.byte (p.codes[(k - 2) / 4]?.getD 0) ((k - 2) % 4)

/-- The block that the registers store. -/
def block (p : Peripheral) : Block := Vector.ofFn fun k : Fin 18 => p.stored k

theorem byte_block (p : Peripheral) {k : Nat} (hk : k < 18) : p.block.byte k = p.stored k := by
  rw [Block.byte_eq_getElem _ hk, block, Vector.getElem_ofFn]

theorem block_eq {p : Peripheral} {b : Block} (h : ∀ k < 18, p.stored k = b.byte k) :
    p.block = b := by
  apply Vector.ext
  intro k hk
  rw [← Block.byte_eq_getElem _ hk, byte_block _ hk, h k hk, Block.byte_eq_getElem _ hk]

/-- A write sets the header or one code word, or nothing. -/
theorem write_cases (p : Peripheral) (offset value : UInt32) :
    (offset.toNat = 0 ∧ p.write offset value = { p with header := value.toUInt16 }) ∨
    (∃ j < 4, offset.toNat = 4 + 4 * j ∧
      p.write offset value = { p with codes := p.codes.setIfInBounds j value }) ∨
    ((∀ k < 5, offset.toNat ≠ 4 * k) ∧ p.write offset value = p) := by
  have hzero : offset = 0x00 ↔ offset.toNat = 0 := by
    rw [← UInt32.toNat_inj]
    rfl
  have hcodes : ((0x04 ≤ offset ∧ offset < 0x14) ∧ offset % 4 = 0) ↔
      (4 ≤ offset.toNat ∧ offset.toNat < 20) ∧ offset.toNat % 4 = 0 := by
    rw [UInt32.le_iff_toNat_le, UInt32.lt_iff_toNat_lt, ← UInt32.toNat_inj, UInt32.toNat_mod]
    rfl
  unfold write
  by_cases h0 : offset = 0x00
  · exact .inl ⟨hzero.1 h0, if_pos h0⟩
  by_cases hin : (0x04 ≤ offset ∧ offset < 0x14) ∧ offset % 4 = 0
  · have hword := hcodes.1 hin
    refine .inr (.inl ⟨(offset.toNat - 4) / 4, by omega, by omega, ?_⟩)
    rw [if_neg h0, if_pos hin, UInt32.toNat_div, UInt32.toNat_sub_of_le _ _ hin.1.1]
    rfl
  · rw [hzero] at h0
    rw [hcodes] at hin
    refine .inr (.inr ⟨fun k hk heq => by omega, ?_⟩)
    rw [if_neg (mt hzero.1 h0), if_neg (mt hcodes.1 hin)]

theorem byte_toUInt16 (value : UInt32) {k : Nat} (hk : k < 2) :
    Word.byte value.toUInt16.toUInt32 k = Word.byte value k := by
  rw [← UInt8.toNat_inj, Word.toNat_byte, Word.toNat_byte, UInt16.toNat_toUInt32,
    UInt32.toNat_toUInt16, Nat.shiftRight_eq_div_pow, Nat.shiftRight_eq_div_pow]
  have := value.toNat_lt
  rcases (show k = 0 ∨ k = 1 by omega) with rfl | rfl
  · omega
  · omega

theorem stored_write (p : Peripheral) (offset value : UInt32) {k : Nat} (hk : k < 18) :
    (p.write offset value).stored k =
      if offset.toNat = offsetOf k then Word.byte value (laneOf k) else p.stored k := by
  unfold stored offsetOf laneOf
  by_cases hheader : k < 2
  · simp only [hheader, if_true]
    rcases p.write_cases offset value with ⟨h0, hw⟩ | ⟨j, hj, ho, hw⟩ | ⟨hno, hw⟩
    · rw [hw, if_pos h0, byte_toUInt16 value (by omega)]
    · rw [hw, if_neg (by omega)]
    · rw [hw, if_neg (hno 0 (by decide))]
  · simp only [hheader, if_false]
    rcases p.write_cases offset value with ⟨h0, hw⟩ | ⟨j, hj, ho, hw⟩ | ⟨hno, hw⟩
    · rw [hw, if_neg (by omega)]
    · rw [hw, Vector.getElem?_setIfInBounds]
      by_cases hjk : j = (k - 2) / 4
      · rw [if_pos hjk, if_pos hj, if_pos (by omega), Option.getD_some]
      · rw [if_neg hjk, if_neg (by omega)]
    · rw [hw, if_neg (by have := hno ((k - 2) / 4 + 1) (by omega); omega)]

theorem stored_cleared (k : Nat) : cleared.stored k = 0 := by
  have hcodes : ∀ j : Nat, cleared.codes[j]?.getD 0 = 0 := by
    intro j
    rw [cleared, Vector.getElem?_replicate]
    split <;> rfl
  have hzero : ∀ j, Word.byte 0 j = 0 := by
    intro j
    rw [← UInt8.toNat_inj, Word.toNat_byte]
    simp
  rw [stored, hcodes, hzero]
  split
  · exact hzero _
  · rfl

/-- A loaded block is stored as it is. -/
theorem stored_load (p : Peripheral) (b : Block) {k : Nat} (hk : k < 18) :
    (p.load b).stored k = b.byte k := by
  unfold stored
  by_cases hheader : k < 2
  · have h0 := (b.byte 0).toNat_lt
    have h1 := (b.byte 1).toNat_lt
    rw [if_pos hheader, ← UInt8.toNat_inj, Word.toNat_byte, UInt16.toNat_toUInt32,
      toNat_header_load, Nat.shiftRight_eq_div_pow]
    rcases (show k = 0 ∨ k = 1 by omega) with rfl | rfl
    · omega
    · omega
  · have hword : (p.load b).codes[(k - 2) / 4]?.getD 0 = codesWord b ((k - 2) / 4) :=
      codes_load p b (by omega)
    rw [if_neg hheader, hword, byte_codesWord]
    congr 1
    omega

/-- **An access** stores its bytes and leaves the others. -/
theorem stored_act (p : Peripheral) (a : Access) {k : Nat} (hk : k < 18) :
    (p.act a).stored k = (a.stores k).getD (p.stored k) := by
  cases a with
  | write offset value =>
    rw [act, stored_write p offset value hk, Access.stores]
    split <;> rfl
  | read offset => rfl
  | reset => exact stored_cleared k
  | drive block room =>
    cases block with
    | none => rfl
    | some b =>
      cases room with
      | false => rfl
      | true => exact stored_load p b hk

/-- **A run of accesses** leaves the bytes that its last accesses to each of them stored. -/
theorem block_after (history : List Access) : (after history).block = held history := by
  refine block_eq fun k hk => ?_
  induction history using List.reverseRecOn with
  | nil =>
    rw [byte_held _ hk]
    exact stored_cleared k
  | append_singleton history a ih =>
    have hlast : after (history ++ [a]) = (after history).act a := by
      rw [after, List.foldl_append]
      rfl
    rw [hlast, stored_act _ a hk, ih, byte_held_concat history a hk]

/-! ### What the registers show -/

theorem toNat_header_block (p : Peripheral) :
    p.header.toNat = 256 * (p.block.byte 0).toNat + (p.block.byte 1).toNat := by
  have := p.header.toNat_lt
  rw [byte_block p (by decide), byte_block p (by decide), stored, stored, if_pos (by decide),
    if_pos (by decide), Word.toNat_byte, Word.toNat_byte, UInt16.toNat_toUInt32,
    Nat.shiftRight_eq_div_pow, Nat.shiftRight_eq_div_pow]
  omega

/-- **Driving the block that is stored** changes nothing. -/
theorem load_block (p : Peripheral) : p.load p.block = p := by
  have hheader : (p.load p.block).header = p.header := by
    rw [← UInt16.toNat_inj, toNat_header_load, ← toNat_header_block]
  have hcodes : (p.load p.block).codes = p.codes := by
    apply Vector.ext
    intro j hj
    have hbyte : ∀ k i, i < 4 → k = 2 + 4 * j + i →
        p.block.byte k = Word.byte p.codes[j] i := by
      intro k i hi hk
      rw [byte_block p (by omega), stored, if_neg (by omega), show (k - 2) / 4 = j by omega,
        show (k - 2) % 4 = i by omega, Vector.getElem?_eq_getElem hj, Option.getD_some]
    have hword := codes_load p p.block hj
    rw [Vector.getElem?_eq_getElem hj, Option.getD_some] at hword
    rw [hword, codesWord, hbyte (2 + 4 * j) 0 (by decide) rfl,
      hbyte (3 + 4 * j) 1 (by decide) (by omega), hbyte (4 + 4 * j) 2 (by decide) (by omega),
      hbyte (5 + 4 * j) 3 (by decide) (by omega), Word.ofBytes_byte]
  calc p.load p.block = ⟨(p.load p.block).header, (p.load p.block).codes⟩ := rfl
    _ = p := by rw [hheader, hcodes]

/-- **The words of the weights** are those of the block that is stored. -/
theorem read_word (p : Peripheral) {k : Nat} (hk : k < 8) :
    p.read (UInt32.ofNat (0x20 + 4 * k)) = p.block.weights.word k := by
  have hoffset : ∀ k : Fin 8, UInt32.ofNat (0x20 + 4 * k.val) = weightsOffset k.val := by decide
  have hbyte : ∀ i < 32, p.block.weights.byte i = p.element (p.code i) := by
    intro i hi
    rw [← weights_load p, load_block, Values.byte, Vector.getElem?_eq_getElem hi,
      Option.getD_some, getElem_weights p hi]
    rfl
  rw [hoffset ⟨k, hk⟩, read_weights p hk, weightsWord, Word.or_eq_ofBytes, Values.word,
    hbyte _ (by omega), hbyte _ (by omega), hbyte _ (by omega), hbyte _ (by omega)]
  rfl

theorem read_elsewhere (p : Peripheral) {offset : UInt32} (hstatus : offset ≠ 0x40)
    (hweights : ∀ k < 8, offset.toNat ≠ 0x20 + 4 * k) : p.read offset = 0 := by
  have hrange : ((0x20 ≤ offset ∧ offset < 0x40) ∧ offset % 4 = 0) ↔
      (32 ≤ offset.toNat ∧ offset.toNat < 64) ∧ offset.toNat % 4 = 0 := by
    rw [UInt32.le_iff_toNat_le, UInt32.lt_iff_toNat_lt, ← UInt32.toNat_inj, UInt32.toNat_mod]
    rfl
  rw [read, if_neg hstatus, if_neg]
  intro hin
  have hword := hrange.1 hin
  have := hweights ((offset.toNat - 32) / 4) (by omega)
  omega

/-- An access that changes nothing may be left out. -/
theorem after_without {history : List Access} {a : Access}
    (h : (after history).act a = after history) (later : List Access) :
    after (history ++ a :: later) = after (history ++ later) := by
  unfold after at h ⊢
  rw [List.foldl_append, List.foldl_cons, h, ← List.foldl_append]

/-- **The peripheral is combinational.**  Whatever was written, read, reset and driven, in any
order: the registers show the block that the accesses left in them.  The header is that of the
block, the words of the weights are those of its weights by the definition, the status is ready,
and nothing can be read anywhere else.  A read, and a write to anything but the header and the code
words, may be left out of any history.  Driving a block gives its weights by the definition and
leaves the registers showing it, whatever they held before. -/
theorem accesses_combinational (history : List Access) :
    let p := after history
    let b := held history
    p.header.toNat = 256 * (b.byte 0).toNat + (b.byte 1).toNat ∧
    (∀ k < 8, p.read (UInt32.ofNat (0x20 + 4 * k)) = b.weights.word k) ∧
    p.read 0x40 = 1 ∧
    (∀ offset, offset ≠ 0x40 → (∀ k < 8, offset.toNat ≠ 0x20 + 4 * k) → p.read offset = 0) ∧
    (∀ later offset, after (history ++ .read offset :: later) = after (history ++ later)) ∧
    (∀ later offset value, (∀ k < 5, offset.toNat ≠ 4 * k) →
      after (history ++ .write offset value :: later) = after (history ++ later)) ∧
    ∀ (p : Peripheral) (b : Block), ∃ q, p.driveInto (some b) true = .ok (b.weights, q) ∧
      q.header.toNat = 256 * (b.byte 0).toNat + (b.byte 1).toNat ∧
      ∀ k < 8, q.read (UInt32.ofNat (0x20 + 4 * k)) = b.weights.word k := by
  intro p b
  have hblock : p.block = b := block_after history
  refine ⟨?_, fun k hk => ?_, rfl, fun offset => p.read_elsewhere,
    fun later offset => after_without rfl later, fun later offset value hno => ?_,
    fun p b => ⟨p.load b, ?_, toNat_header_load p b, fun k hk => ?_⟩⟩
  · rw [p.toNat_header_block, hblock]
  · rw [p.read_word hk, hblock]
  · refine after_without ?_ later
    rcases p.write_cases offset value with ⟨h0, -⟩ | ⟨j, hj, ho, -⟩ | ⟨-, hw⟩
    · exact absurd h0 (hno 0 (by decide))
    · exact absurd ho (by have := hno (j + 1) (by omega); omega)
    · exact hw
  · rw [driveInto, drive, weights_load]
  · rw [(p.load b).read_word hk, block_eq fun k hk => stored_load p b hk]

/-- A reset behind a write, a block, and then another header and another last code word.  The writes
to `0x12` and `0x40`, the read and the drive without a block leave no trace. -/
def overwritten : List Access :=
  [.write 0x04 0xFFFFFFFF, .reset,
    .drive (some #v[0x6A, 0x80, 0x01, 0x23, 0x45, 0x67, 0x89, 0xAB, 0xCD, 0xEF, 0xFE, 0xDC, 0xBA,
      0x98, 0x76, 0x54, 0x32, 0x10]) true,
    .write 0x00 0x12346080, .read 0x20, .write 0x10 0x0000000F, .write 0x12 7, .write 0x40 0,
    .drive none true]

theorem accesses_combinational_overwritten :
    6 < 8 ∧ (after overwritten).read (UInt32.ofNat (0x20 + 4 * 6)) = 0x0000F900 ∧
    ((0x14 : UInt32) ≠ 0x40 ∧ ∀ k < 8, (0x14 : UInt32).toNat ≠ 0x20 + 4 * k) ∧
    (after overwritten).read 0x14 = 0 ∧
    (∀ k < 5, (0x12 : UInt32).toNat ≠ 4 * k) ∧
    after (overwritten ++ .write 0x12 7 :: [.write 0x0C 1]) =
      after (overwritten ++ [.write 0x0C 1]) := by
  have hunmapped : ∀ k < 8, (0x14 : UInt32).toNat ≠ 0x20 + 4 * k := by decide
  have hbetween : ∀ k < 5, (0x12 : UInt32).toNat ≠ 4 * k := by decide
  obtain ⟨-, hweights, -, helsewhere, -, hignored, -⟩ := accesses_combinational overwritten
  exact ⟨by decide, (hweights 6 (by decide)).trans (by decide +kernel), ⟨by decide, hunmapped⟩,
    helsewhere 0x14 (by decide) hunmapped, hbetween, hignored _ 0x12 7 hbetween⟩

end Peripheral
end WeightLink
