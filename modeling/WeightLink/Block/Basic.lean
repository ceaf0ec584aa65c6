/-
# Blocks of 32 weights

A block stores 32 signed 8-bit weights in 18 bytes:

| bytes | content |
| --- | --- |
| 0, 1 | header, most significant byte first: dialect in bits 15–12, exponent in bits 11–7 |
| 2 … 17 | 32 codes of four bits, the even one of a pair in the high half of its byte |

A code is a sign (bit 3) and an index (bits 2–0) into the eight levels of the
block's dialect.  The seven low bits of the header are spare: they are written as
zero and never looked at.
-/

namespace WeightLink

/-- A packed block. -/
abbrev Block := Vector UInt8 18

/-- The weights of one block. -/
abbrev Values := Vector Int8 32

/-- What the header of a block says: which dialect its codes index, and the exponent
that all of its weights share. -/
structure Header where
  dialect : Fin 16
  exponent : Fin 32
  deriving DecidableEq, Repr

namespace Header

/-- The header with the given two bytes, the most significant one first. -/
def ofBytes (high low : UInt8) : Header :=
  let word := 256 * high.toNat + low.toNat
  ⟨Fin.ofNat 16 (word / 4096), Fin.ofNat 32 (word / 128)⟩

/-- The header as a 16-bit word with its spare bits zero. -/
def word (h : Header) : Nat := 4096 * h.dialect.val + 128 * h.exponent.val

theorem ofBytes_eq_iff {high low high' low' : UInt8} :
    ofBytes high low = ofBytes high' low' ↔
      high = high' ∧ low.toNat / 128 = low'.toNat / 128 := by
  have h₁ := high.toNat_lt
  have h₂ := high'.toNat_lt
  have h₃ := low.toNat_lt
  have h₄ := low'.toNat_lt
  simp only [ofBytes, Header.mk.injEq, Fin.ofNat, Fin.mk.injEq, ← UInt8.toNat_inj]
  omega

end Header

namespace Block

/-- Byte `k` of a block, zero past its end. -/
def byte (b : Block) (k : Nat) : UInt8 := b[k]?.getD 0

/-- The header of a block. -/
def header (b : Block) : Header := Header.ofBytes (b.byte 0) (b.byte 1)

/-- Code `i` of a block: half of byte `2 + i / 2`, the high half for even `i`. -/
def code (b : Block) (i : Nat) : UInt8 :=
  let pair := b.byte (2 + i / 2)
  if i % 2 = 0 then pair / 16 else pair % 16

theorem byte_eq_getElem (b : Block) {k : Nat} (h : k < 18) : b.byte k = b[k] := by
  simp [byte, h]

theorem code_lt (b : Block) (i : Nat) : (b.code i).toNat < 16 := by
  unfold code
  have := (b.byte (2 + i / 2)).toNat_lt
  dsimp only
  split <;> simp <;> omega

end Block

namespace Code

/-- Whether a code stands for a negative weight. -/
def negative (c : UInt8) : Bool := c.toNat / 8 % 2 = 1

/-- The level that a code selects. -/
def index (c : UInt8) : Fin 8 := Fin.ofNat 8 c.toNat

/-- The code with a given sign and index. -/
def ofSign (negative : Bool) (index : Fin 8) : UInt8 :=
  UInt8.ofNat ((if negative then 8 else 0) + index.val)

theorem negative_ofSign (s : Bool) (i : Fin 8) : negative (ofSign s i) = s := by
  revert s i; decide

theorem index_ofSign (s : Bool) (i : Fin 8) : index (ofSign s i) = i := by
  revert s i; decide

end Code
end WeightLink
