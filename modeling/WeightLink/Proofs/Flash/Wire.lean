/-
# Bits in the order of the wire

A frame goes out most significant bit first, and the data bits of a read come in the
same way.  The device collects a frame by shifting it in from the right
(`shiftConcat_ushiftRight`); the engine puts each data bit in its place
(`Engine.getMsbD_capture`).  When all 32 are in place, the answer holds the four bytes
in the order in which they came (`Word.byte_swap_of_getMsbD`).
-/

import WeightLink.Flash.Engine

namespace WeightLink

/-- Byte `k` of a word whose bytes were reversed. -/
theorem Word.byte_swap (w : UInt32) {k : Nat} (hk : k < 4) :
    Word.byte (Word.swap w) k = Word.byte w (3 - k) := by
  have h := Word.bytes_ofBytes (Word.byte w 3) (Word.byte w 2) (Word.byte w 1) (Word.byte w 0)
  simp only [Word.bytes, Array.mk.injEq, List.cons.injEq] at h
  obtain ⟨h₀, h₁, h₂, h₃, -⟩ := h
  have hk' : k = 0 ∨ k = 1 ∨ k = 2 ∨ k = 3 := by omega
  rcases hk' with rfl | rfl | rfl | rfl
  · exact h₀
  · exact h₁
  · exact h₂
  · exact h₃

/-- The bits of byte `k` of a word, most significant first. -/
theorem Word.getMsbD_byte (x : BitVec 32) {k i : Nat} (hk : k < 4) (hi : i < 8) :
    (Word.byte (UInt32.ofBitVec x) k).toBitVec.getMsbD i = x.getMsbD (8 * (3 - k) + i) := by
  have hb : (Word.byte (UInt32.ofBitVec x) k).toBitVec = (x >>> (8 * k)).setWidth 8 := by
    apply BitVec.eq_of_toNat_eq
    simp [Word.byte, BitVec.toNat_setWidth]
  have hlt : 8 * (3 - k) + i < 32 := by omega
  rw [hb]
  simp only [BitVec.getMsbD, BitVec.getLsbD_setWidth, BitVec.getLsbD_ushiftRight, hi, hlt,
    show 8 - 1 - i < 8 by omega, decide_true, Bool.true_and]
  congr 1
  omega

/-- **Four bytes that came in bit by bit are answered in the order of their arrival.** -/
theorem Word.byte_swap_of_getMsbD {x : BitVec 32} {b : Nat → UInt8}
    (h : ∀ i < 32, x.getMsbD i = (b (i / 8)).toBitVec.getMsbD (i % 8)) {k : Nat} (hk : k < 4) :
    Word.byte (Word.swap (UInt32.ofBitVec x)) k = b k := by
  rw [byte_swap _ hk]
  apply UInt8.toBitVec_inj.1
  apply BitVec.eq_of_getMsbD_eq
  intro i hi
  rw [getMsbD_byte x (by omega) hi, h _ (by omega)]
  congr 3 <;> omega

namespace Flash

/-- One more bit of a frame moves the window over its leading bits by one. -/
theorem shiftConcat_ushiftRight (f : BitVec 32) {n : Nat} (h : n < 32) :
    (f >>> (32 - n)).shiftConcat (f.getMsbD n) = f >>> (32 - (n + 1)) := by
  apply BitVec.eq_of_getLsbD_eq
  intro i hi
  rw [BitVec.getLsbD_shiftConcat, BitVec.getLsbD_ushiftRight, BitVec.getLsbD_ushiftRight]
  by_cases h₀ : i = 0
  · subst h₀
    simp [BitVec.getMsbD, h]
  · simp only [h₀, hi, decide_true, Bool.true_and, if_false]
    congr 1
    omega

/-- A captured bit is in its place, and the other bits stay. -/
theorem Engine.getMsbD_capture (e : Engine) (miso : Bool) (h : e.bit ≤ 31) {i : Nat} (hi : i < 32) :
    (e.capture miso).getMsbD i = if i = e.bit then miso else e.shiftIn.getMsbD i := by
  unfold capture
  cases miso <;> simp [BitVec.getMsbD, BitVec.getLsbD_twoPow, hi] <;> grind

end Flash
end WeightLink
