/-
# Bytes and 32-bit words

Blobs, registers and bus responses hold their words with the least significant
byte first.  `Word.ofBytes` and `Word.byte` are the two directions, and
`ofBytes_byte` and `bytes_ofBytes` say that they are inverse.  A word is shown to
a reader as `0x` and eight upper-case hexadecimal digits (`Word.hex`).
-/

namespace WeightLink

/-- A run of bytes: a blob, a file, the contents of a flash region. -/
abbrev Bytes := Array UInt8

namespace Word

/-- The word whose four bytes are given, least significant first. -/
def ofBytes (b₀ b₁ b₂ b₃ : UInt8) : UInt32 :=
  UInt32.ofNat (b₀.toNat + 256 * b₁.toNat + 65536 * b₂.toNat + 16777216 * b₃.toNat)

/-- Byte `k` of a word, byte `0` being the least significant. -/
def byte (w : UInt32) (k : Nat) : UInt8 :=
  UInt8.ofNat (w.toNat >>> (8 * k))

/-- The four bytes of a word, least significant first. -/
def bytes (w : UInt32) : Bytes := #[byte w 0, byte w 1, byte w 2, byte w 3]

/-- The word with the same four bytes in the opposite order. -/
def swap (w : UInt32) : UInt32 :=
  ofBytes (byte w 3) (byte w 2) (byte w 1) (byte w 0)

/-- One upper-case hexadecimal digit. -/
def hexDigit (n : Nat) : Char := (Nat.digitChar (n % 16)).toUpper

/-- `0x` and the eight upper-case hexadecimal digits of a word. -/
def hex (w : UInt32) : String :=
  "0x" ++ String.ofList ((List.range 8).map fun k => hexDigit (w.toNat >>> (4 * (7 - k))))

theorem toNat_ofBytes (b₀ b₁ b₂ b₃ : UInt8) : (ofBytes b₀ b₁ b₂ b₃).toNat =
    b₀.toNat + 256 * b₁.toNat + 65536 * b₂.toNat + 16777216 * b₃.toNat := by
  have h₀ := b₀.toNat_lt
  have h₁ := b₁.toNat_lt
  have h₂ := b₂.toNat_lt
  have h₃ := b₃.toNat_lt
  simp only [ofBytes, UInt32.toNat_ofNat']
  omega

theorem toNat_byte (w : UInt32) (k : Nat) : (byte w k).toNat = w.toNat >>> (8 * k) % 256 := by
  simp [byte]

/-- A word is the word of its four bytes. -/
theorem ofBytes_byte (w : UInt32) : ofBytes (byte w 0) (byte w 1) (byte w 2) (byte w 3) = w := by
  apply UInt32.toNat_inj.1
  have := w.toNat_lt
  simp only [toNat_ofBytes, toNat_byte, Nat.shiftRight_eq_div_pow, Nat.reduceMul, Nat.reducePow]
  omega

/-- The bytes of a word are the bytes that it was made of. -/
theorem bytes_ofBytes (b₀ b₁ b₂ b₃ : UInt8) :
    bytes (ofBytes b₀ b₁ b₂ b₃) = #[b₀, b₁, b₂, b₃] := by
  have h₀ := b₀.toNat_lt
  have h₁ := b₁.toNat_lt
  have h₂ := b₂.toNat_lt
  have h₃ := b₃.toNat_lt
  have e₀ : byte (ofBytes b₀ b₁ b₂ b₃) 0 = b₀ := by
    apply UInt8.toNat_inj.1
    simp only [toNat_ofBytes, toNat_byte, Nat.shiftRight_eq_div_pow, Nat.reduceMul, Nat.reducePow]
    omega
  have e₁ : byte (ofBytes b₀ b₁ b₂ b₃) 1 = b₁ := by
    apply UInt8.toNat_inj.1
    simp only [toNat_ofBytes, toNat_byte, Nat.shiftRight_eq_div_pow, Nat.reduceMul, Nat.reducePow]
    omega
  have e₂ : byte (ofBytes b₀ b₁ b₂ b₃) 2 = b₂ := by
    apply UInt8.toNat_inj.1
    simp only [toNat_ofBytes, toNat_byte, Nat.shiftRight_eq_div_pow, Nat.reduceMul, Nat.reducePow]
    omega
  have e₃ : byte (ofBytes b₀ b₁ b₂ b₃) 3 = b₃ := by
    apply UInt8.toNat_inj.1
    simp only [toNat_ofBytes, toNat_byte, Nat.shiftRight_eq_div_pow, Nat.reduceMul, Nat.reducePow]
    omega
  simp only [bytes, e₀, e₁, e₂, e₃]

end Word
end WeightLink
