/-
# Reading back one record

The bytes of a record, wherever they lie in a blob in memory, are read back as the count and
the blocks that were written (`Blob.run_tensor`).  What lies in front of the record and what
follows it does not matter; only its position has to be a multiple of four for the reader to
find the next one.
-/

import Mathlib.Algebra.Group.Nat.Defs
import Mathlib.Data.List.Induction
import WeightLink.Blob.Reader
import WeightLink.Blob.Writer
import WeightLink.Source.Memory

namespace WeightLink

/-! ### Bytes at a position -/

namespace MemorySource

variable {m : MemorySource} {front rest : Bytes}

theorem size_eq (m : MemorySource) : Source.size m = m.bytes.size := rfl

/-- The bytes between `front` and `rest` are read as they are. -/
theorem run_read {n : Nat} (x : Vector UInt8 n) (h : m.bytes = front ++ x.toArray ++ rest) :
    (read front.size n).run m = ⟨.ok x, m, []⟩ := by
  have hin : m.inside front.size n = .ok () := by
    rw [inside_eq_ok_iff, h, Array.size_append, Array.size_append, Vector.size_toArray]
    omega
  have hx : (Vector.ofFn fun i : Fin n => m.bytes[front.size + i.val]?.getD 0) = x := by
    apply Vector.ext
    intro i hi
    have hpast : ¬front.size + i < front.size := by omega
    rw [Vector.getElem_ofFn, h]
    simp [Array.getElem?_append, hi, hpast]
  change (⟨(m.inside front.size n).map _, m, []⟩ : Outcome _ _) = _
  rw [hin]
  exact congrArg (fun y => (⟨.ok y, m, []⟩ : Outcome _ _)) hx

/-- A word between `front` and `rest` is read as it is. -/
theorem run_readWord (w : UInt32) (h : m.bytes = front ++ Word.bytes w ++ rest) :
    (Source.readWord front.size : Action MemorySource UInt32).run m = ⟨.ok w, m, []⟩ := by
  have hr : (Source.read front.size 4 : Action MemorySource _).run m = _ :=
    run_read (⟨Word.bytes w, rfl⟩ : Vector UInt8 4) h
  rw [Source.readWord, Action.run_bind, hr]
  simp [Word.bytes, Word.ofBytes_byte]

end MemorySource

namespace Blob

/-! ### Blocks one after the other -/

/-- The bytes of some blocks. -/
def packed (blocks : List Block) : Bytes := (blocks.map Vector.toArray).foldl (· ++ ·) #[]

/-- The weights of some blocks. -/
def decoded (d : Decoder) (blocks : List Block) : Array Int8 :=
  (blocks.map fun b => (d.decode b).toArray).foldl (· ++ ·) #[]

theorem packed_concat (blocks : List Block) (b : Block) :
    packed (blocks ++ [b]) = packed blocks ++ b.toArray := by
  simp [packed, List.foldl_append]

theorem decoded_concat (d : Decoder) (blocks : List Block) (b : Block) :
    decoded d (blocks ++ [b]) = decoded d blocks ++ (d.decode b).toArray := by
  simp [decoded, List.foldl_append]

theorem size_packed (blocks : List Block) : (packed blocks).size = blocks.length * blockBytes := by
  induction blocks using List.reverseRecOn with
  | nil => rfl
  | append_singleton blocks b ih =>
    rw [packed_concat, Array.size_append, ih, Vector.size_toArray, List.length_append,
      List.length_singleton, Nat.add_mul]
    rfl

theorem size_decoded (d : Decoder) (blocks : List Block) :
    (decoded d blocks).size = blocks.length * blockElements := by
  induction blocks using List.reverseRecOn with
  | nil => rfl
  | append_singleton blocks b ih =>
    rw [decoded_concat, Array.size_append, ih, Vector.size_toArray, List.length_append,
      List.length_singleton, Nat.add_mul]
    rfl

/-- Weight `i` of block `k`. -/
theorem getElem_decoded (d : Decoder) {blocks : List Block} {k i : Nat} (hk : k < blocks.length)
    (hi : i < 32) : (decoded d blocks)[k * blockElements + i]? = some (d.decode blocks[k])[i] := by
  induction blocks using List.reverseRecOn with
  | nil => exact absurd hk (Nat.not_lt_zero k)
  | append_singleton blocks b ih =>
    have hsize := size_decoded d blocks
    unfold blockElements at hsize ih ⊢
    rw [decoded_concat, Array.getElem?_append, hsize]
    rw [List.length_append, List.length_singleton] at hk
    by_cases hlast : k = blocks.length
    · subst hlast
      rw [if_neg (by omega), show blocks.length * 32 + i - blocks.length * 32 = i by omega]
      simp [hi]
    · rw [if_pos (by omega), ih (by omega), List.getElem_append_left (by omega)]

/-- The blocks between `front` and `rest` are decoded one after the other. -/
theorem run_blocks {m : MemorySource} {front rest : Bytes} (d : Decoder) (blocks : List Block)
    (h : m.bytes = front ++ packed blocks ++ rest) :
    (Reader.blocks d front.size blocks.length : Action MemorySource _).run m =
      ⟨.ok (decoded d blocks), m, []⟩ := by
  induction blocks using List.reverseRecOn generalizing rest with
  | nil => rfl
  | append_singleton blocks b ih =>
    rw [packed_concat] at h
    have hat : m.bytes = front ++ packed blocks ++ (b.toArray ++ rest) := by
      rw [h]
      simp [Array.append_assoc]
    have hnext : m.bytes = (front ++ packed blocks) ++ b.toArray ++ rest := by
      rw [h]
      simp [Array.append_assoc]
    have hfront := ih hat
    have hlast : (Source.read (front ++ packed blocks).size 18 : Action MemorySource _).run m = _ :=
      MemorySource.run_read b hnext
    rw [Array.size_append, size_packed] at hlast
    rw [List.length_append, List.length_singleton, Reader.blocks, Action.run_bind, hfront]
    simp [hlast, decoded_concat, Except.map]

/-! ### A record -/

theorem record_eq (count : UInt32) (blocks : List Block) : Writer.record count blocks =
    Word.bytes count ++ Word.bytes (UInt32.ofNat blocks.length) ++ packed blocks := rfl

theorem size_record (count : UInt32) (blocks : List Block) :
    (Writer.record count blocks).size = recordBytes + blocks.length * blockBytes := by
  rw [record_eq, Array.size_append, Array.size_append, size_packed]
  rfl

variable {r : Reader MemorySource} {front rest : Bytes} {count : UInt32} {blocks : List Block}

/-- The first eight bytes of a record. -/
theorem run_record (ha : r.accepted = true)
    (hb : r.source.bytes = front ++ Writer.record count blocks ++ rest)
    (hc : r.cursor = front.size) :
    (Reader.record : Action (Reader MemorySource) _).run r =
      ⟨.ok ⟨front.size, count, UInt32.ofNat blocks.length⟩, r, []⟩ := by
  have hsize : ¬r.source.bytes.size < front.size + recordBytes := by
    rw [hb, Array.size_append, Array.size_append, size_record]
    omega
  have hfirst : r.source.bytes = front ++ Word.bytes count ++
      (Word.bytes (UInt32.ofNat blocks.length) ++ packed blocks ++ rest) := by
    rw [hb, record_eq]
    simp [Array.append_assoc]
  have hsecond : r.source.bytes = front ++ Word.bytes count ++
      Word.bytes (UInt32.ofNat blocks.length) ++ (packed blocks ++ rest) := by
    rw [hb, record_eq]
    simp [Array.append_assoc]
  have hcount := MemorySource.run_readWord count hfirst
  have hblocks := MemorySource.run_readWord (UInt32.ofNat blocks.length) hsecond
  rw [Array.size_append, show (Word.bytes count).size = 4 by rfl] at hblocks
  simp only [Reader.record, Action.run_bind, Action.run_get, ha, hc, Bool.not_true,
    Bool.false_eq_true, if_false, MemorySource.size_eq, hsize, Reader.onSource,
    Action.run_within, hcount, hblocks, Action.run_pure, List.append_nil]
  rw [← hc]

/-- **A record is read back as it was written**, and the reader goes on behind its padding. -/
theorem run_tensor (ha : r.accepted = true)
    (hb : r.source.bytes = front ++ Writer.record count blocks ++ rest)
    (hc : r.cursor = front.size) (hcount : count.toNat ≤ blocks.length * blockElements)
    (hlen : blocks.length < 2 ^ 32) (hcap : blocks.length * blockElements ≤ r.capacity) :
    (Reader.tensor count : Action (Reader MemorySource) _).run r =
      let next := alignUp (front.size + (Writer.record count blocks).size)
      ⟨.ok ⟨decoded r.decoder blocks, count, UInt32.ofNat blocks.length⟩,
        { r with
          cursor := next
          stats :=
            { r.stats with
              tensors := r.stats.tensors + 1
              blocks := r.stats.blocks + blocks.length
              bytes := r.stats.bytes + (next - front.size) } }, []⟩ := by
  have hn : (UInt32.ofNat blocks.length).toNat = blocks.length := by
    rw [UInt32.toNat_ofNat']
    exact Nat.mod_eq_of_lt hlen
  have hsize : front.size + (recordBytes + blocks.length * blockBytes) ≤ r.source.bytes.size := by
    rw [hb, Array.size_append, Array.size_append, size_record]
    omega
  have hcheck : (⟨front.size, count, UInt32.ofNat blocks.length⟩ : Record).check count
      r.source.bytes.size r.capacity = .ok () := by
    rw [Record.check_eq_ok_iff]
    simp only [Record.capacity, Record.stop, Record.start, hn]
    omega
  have hat : r.source.bytes = front ++ Word.bytes count ++
      Word.bytes (UInt32.ofNat blocks.length) ++ packed blocks ++ rest := by
    rw [hb, record_eq]
    simp [Array.append_assoc]
  have hblocks := run_blocks r.decoder blocks hat
  have hstart : (front ++ Word.bytes count ++ Word.bytes (UInt32.ofNat blocks.length)).size =
      front.size + recordBytes := by
    rw [Array.size_append, Array.size_append]
    rfl
  rw [hstart] at hblocks
  have hstop : (⟨front.size, count, UInt32.ofNat blocks.length⟩ : Record).stop =
      front.size + (Writer.record count blocks).size := by
    rw [Record.stop, Record.start, hn, size_record, Nat.add_assoc]
  rw [Reader.tensor, Action.run_bind, Action.run_get]
  dsimp only
  rw [Action.run_bind, run_record ha hb hc]
  simp [Action.run_bind, MemorySource.size_eq, hcheck, Reader.onSource, Record.start, hn, hblocks,
    hstop, Except.map]

end Blob
end WeightLink
