/-
# Reading undoes writing

A writer that accepted some tensors and packed blocks leaves a blob from which a reader gets
them back, one record after the other (`Blob.read_written`).  What it gets for a tensor is
what the writer showed as decoded after that call, followed by zeros up to the end of the
last block; what it gets for packed blocks is their weights (`Writer.Written`).

Writer and reader pad records independently, one relative to the records and one relative
to the blob.  The header is a multiple of four bytes, so that they agree.
-/

import WeightLink.Proofs.Blob.Record
import WeightLink.Proofs.Block.Encode
import WeightLink.Proofs.Verify.Decoder

namespace WeightLink

/-- How many values a caller hands over. -/
def Buffer.count {α : Type} : Buffer α → Nat
  | .held items => items.size
  | .absent count => count

namespace Blob
namespace Writer

/-- What a reader is to get for a tensor of `n` values, of which the writer showed `shown` as
decoded: zeros follow up to the end of the last block. -/
def tensorRead (n : Nat) (shown : Array Int8) : Tensor where
  values := shown ++ Array.replicate (blockCount n * blockElements - n) 0
  count := UInt32.ofNat n
  blocks := UInt32.ofNat (blockCount n)

/-- What a reader is to get for packed blocks: the weights of every block in order. -/
def blocksRead (d : Decoder) (count : UInt32) (blocks : List Block) : Tensor where
  values := decoded d blocks
  count
  blocks := UInt32.ofNat blocks.length

/-- A writer after a sequence of accepted calls, with what a reader is to get for them. -/
inductive Written (d : Decoder) : Writer → List Tensor → Prop
  | empty : Written d .empty []
  | tensor {w after : Writer} {read : List Tensor} (values : Buffer Int8) :
      Written d w read → w.addTensor values = .ok after →
        Written d after (read ++ [tensorRead values.count after.lastDecoded])
  | blocks {w after : Writer} {read : List Tensor} (count : UInt32) (blocks : List Block) :
      Written d w read → w.addBlocks count blocks = .ok after →
        Written d after (read ++ [blocksRead d count blocks])

/-! ### What the calls append -/

theorem length_encode (values : Array Int8) : (encode values).length = blockCount values.size := by
  simp [encode]

theorem count_le_blockCount (n : Nat) : n ≤ blockCount n * blockElements := by
  unfold blockCount blockElements
  omega

/-- Behind the last value, the blocks of a tensor decode to zeros. -/
theorem getElem_decoded_encode (d : Decoder) (values : Array Int8) {j : Nat}
    (hj : values.size ≤ j) (hlt : j < blockCount values.size * blockElements) :
    (decoded d (encode values))[j]? = some 0 := by
  have hk : j / 32 < (encode values).length := by
    rw [length_encode]
    unfold blockElements at hlt
    omega
  have hchunk : (encode values)[j / 32] = (chunk values (j / 32)).toBlock := by simp [encode]
  have hzero : (chunk values (j / 32))[j % 32] = 0 := by
    have hpast : values[32 * (j / 32) + j % 32]? = none := by
      rw [Array.getElem?_eq_none_iff]
      omega
    simp [chunk, blockElements, hpast]
  have hget := getElem_decoded d hk (show j % 32 < 32 by omega)
  rw [show j / 32 * blockElements + j % 32 = j by unfold blockElements; omega] at hget
  rw [hget, hchunk, Decoder.decode_eq]
  exact congrArg some (Values.getElem_weights_toBlock _ (by omega) hzero)

/-- So the blocks decode to what is shown, followed by zeros. -/
theorem decoded_encode (d : Decoder) (values : Array Int8) : decoded d (encode values) =
    (decoded .host (encode values)).take values.size ++
      Array.replicate (blockCount values.size * blockElements - values.size) 0 := by
  have hsame : decoded d (encode values) = decoded .host (encode values) := by
    simp only [decoded, Decoder.decode_eq]
  have hsize := size_decoded .host (encode values)
  rw [length_encode] at hsize
  have hle := count_le_blockCount values.size
  have htake : ((decoded .host (encode values)).take values.size).size = values.size := by
    simp only [Array.take_eq_extract, Array.size_extract, hsize]
    omega
  rw [hsame]
  apply Array.ext_getElem?
  intro j
  rw [Array.getElem?_append, htake]
  by_cases hj : j < values.size
  · rw [if_pos hj, Array.take_eq_extract, Array.getElem?_extract]
    simp
    omega
  · rw [if_neg hj, Array.getElem?_replicate]
    by_cases hlt : j < blockCount values.size * blockElements
    · rw [if_pos (by omega), getElem_decoded_encode .host values (by omega) hlt]
    · rw [if_neg (by omega), Array.getElem?_eq_none (by omega)]

/-- An accepted tensor is appended as a record of blocks that decode to what is shown. -/
theorem addTensor_spec {w after : Writer} {values : Buffer Int8}
    (h : w.addTensor values = .ok after) : ∃ blocks,
      after = w.append (UInt32.ofNat values.count) blocks after.lastDecoded ∧
      values.count ≤ 0xFFFFFFFF ∧ values.count ≤ blocks.length * blockElements ∧
      ∀ d, blocksRead d (UInt32.ofNat values.count) blocks =
        tensorRead values.count after.lastDecoded := by
  cases values with
  | absent n =>
    change (if n = 0 then _ else _) = _ at h
    split at h
    · rename_i hn
      obtain rfl := hn
      obtain rfl := Except.ok.inj h
      exact ⟨[], rfl, by decide, by decide, fun d => rfl⟩
    · exact nomatch h
  | held values =>
    change (if 0xFFFFFFFF < values.size then _ else _) = _ at h
    split at h
    · exact nomatch h
    · obtain rfl := Except.ok.inj h
      refine ⟨encode values, rfl, ?_, ?_, fun d => ?_⟩
      · change values.size ≤ _
        omega
      · rw [length_encode]
        exact count_le_blockCount values.size
      · rw [blocksRead, decoded_encode, length_encode]
        rfl

theorem addBlocks_spec {w after : Writer} {count : UInt32} {blocks : List Block}
    (h : w.addBlocks count blocks = .ok after) :
    after = w.append count blocks #[] ∧ count.toNat ≤ blocks.length * blockElements := by
  unfold addBlocks at h
  split at h
  · exact nomatch h
  · obtain rfl := Except.ok.inj h
    exact ⟨rfl, by omega⟩

/-- Both calls append a record, and a reader is to get the weights of its blocks. -/
@[elab_as_elim]
theorem Written.append_induction {d : Decoder} {motive : Writer → List Tensor → Prop}
    (empty : motive .empty [])
    (append : ∀ w read count blocks shown, Written d w read → motive w read →
      count.toNat ≤ blocks.length * blockElements →
      motive (w.append count blocks shown) (read ++ [blocksRead d count blocks]))
    {w : Writer} {read : List Tensor} (h : Written d w read) : motive w read := by
  induction h with
  | empty => exact empty
  | tensor values hw hadd ih =>
    obtain ⟨blocks, hafter, hmax, hcount, hread⟩ := addTensor_spec hadd
    rw [← hread d, hafter]
    refine append _ _ _ _ _ hw ih ?_
    rw [UInt32.toNat_ofNat']
    omega
  | blocks count blocks hw hadd ih =>
    obtain ⟨hafter, hcount⟩ := addBlocks_spec hadd
    rw [hafter]
    exact append _ _ _ _ _ hw ih hcount

theorem alignUp_add {p : Nat} (hp : p % 4 = 0) (n : Nat) : alignUp (p + n) = p + alignUp n := by
  unfold alignUp
  omega

theorem Written.size_mod {d : Decoder} {w : Writer} {read : List Tensor} (h : Written d w read) :
    w.records.size % 4 = 0 := by
  refine Written.append_induction rfl (fun w read count blocks shown _ _ _ => ?_) h
  rw [append, size_pad]
  exact (alignUp_spec _).2.2

/-- An appended record is padded by itself, since the records before it are. -/
theorem Written.records_append {d : Decoder} {w : Writer} {read : List Tensor}
    (h : Written d w read) (count : UInt32) (blocks : List Block) (shown : Array Int8) :
    ∃ padding, (w.append count blocks shown).records =
        w.records ++ (record count blocks ++ padding) ∧
      (record count blocks ++ padding).size = alignUp (record count blocks).size := by
  refine ⟨_, Array.append_assoc, ?_⟩
  have hspec := alignUp_spec (w.records.size + (record count blocks).size)
  have hadd := alignUp_add h.size_mod (record count blocks).size
  rw [Array.size_append, Array.size_replicate, Array.size_append]
  omega

/-- A record of less than four gigabytes holds whole blocks of values. -/
theorem Written.size_values {d : Decoder} {w : Writer} {read : List Tensor} (h : Written d w read) :
    w.records.size < 2 ^ 32 → ∀ t ∈ read, t.values.size = t.blocks.toNat * blockElements := by
  refine Written.append_induction ?_ (fun w read count blocks shown hw ih hcount => ?_) h
  · intro _ t ht
    exact nomatch ht
  · intro hsize t ht
    obtain ⟨padding, hrecords, -⟩ := hw.records_append count blocks shown
    rw [hrecords, Array.size_append, Array.size_append, size_record] at hsize
    rcases List.mem_append.1 ht with ht | ht
    · exact ih (by omega) t ht
    · have hlen : blocks.length < 2 ^ 32 := by
        unfold recordBytes blockBytes at hsize
        omega
      rw [List.mem_singleton.1 ht, blocksRead, size_decoded, UInt32.toNat_ofNat',
        Nat.mod_eq_of_lt hlen]

end Writer

/-! ### Reading the records -/

/-- A reader has gone on over some bytes and tensors, without a warning. -/
structure Advance (r after : Reader MemorySource) (bytes tensors : Nat) : Prop where
  source_eq : after.source = r.source
  decoder_eq : after.decoder = r.decoder
  capacity_eq : after.capacity = r.capacity
  variant_eq : after.variant = r.variant
  cursor_eq : after.cursor = r.cursor + bytes
  tensors_eq : after.stats.tensors = r.stats.tensors + tensors
  warnings_eq : after.stats.warnings = r.stats.warnings

/-- A reader stands in front of some bytes of its blob, at the start of a record. -/
structure At (r : Reader MemorySource) (front bytes rest : Bytes) : Prop where
  accepted : r.accepted = true
  bytes_eq : r.source.bytes = front ++ bytes ++ rest
  cursor_eq : r.cursor = front.size
  aligned : front.size % 4 = 0

variable {r mid after : Reader MemorySource} {front bytes rest : Bytes}

theorem Advance.trans {m n k l : Nat} (h : Advance r mid m k) (h' : Advance mid after n l) :
    Advance r after (m + n) (k + l) where
  source_eq := h'.source_eq.trans h.source_eq
  decoder_eq := h'.decoder_eq.trans h.decoder_eq
  capacity_eq := h'.capacity_eq.trans h.capacity_eq
  variant_eq := h'.variant_eq.trans h.variant_eq
  cursor_eq := by rw [h'.cursor_eq, h.cursor_eq, Nat.add_assoc]
  tensors_eq := by rw [h'.tensors_eq, h.tensors_eq, Nat.add_assoc]
  warnings_eq := h'.warnings_eq.trans h.warnings_eq

/-- A reader that has gone on over whole records stands in front of the next one. -/
theorem At.advance {k : Nat} {more : Bytes} (hat : At r front (bytes ++ more) rest)
    (h : Advance r after bytes.size k) (hb : bytes.size % 4 = 0) :
    At after (front ++ bytes) more rest where
  accepted := by rw [← hat.accepted, Reader.accepted, Reader.accepted, h.variant_eq]
  bytes_eq := by rw [h.source_eq, hat.bytes_eq]; simp [Array.append_assoc]
  cursor_eq := by rw [h.cursor_eq, hat.cursor_eq, Array.size_append]
  aligned := by
    have := hat.aligned
    rw [Array.size_append]
    omega

/-- One record is read back as the tensor that was announced. -/
theorem At.run_tensor {count : UInt32} {blocks : List Block} {padding : Bytes}
    (hat : At r front (Writer.record count blocks ++ padding) rest)
    (hpad : (Writer.record count blocks ++ padding).size =
      alignUp (Writer.record count blocks).size)
    (hcount : count.toNat ≤ blocks.length * blockElements) (hlen : blocks.length < 2 ^ 32)
    (hcap : blocks.length * blockElements ≤ r.capacity) :
    ∃ after, (Reader.tensor count).run r =
        ⟨.ok (Writer.blocksRead r.decoder count blocks), after, []⟩ ∧
      Advance r after (Writer.record count blocks ++ padding).size 1 := by
  have hbytes : r.source.bytes = front ++ Writer.record count blocks ++ (padding ++ rest) := by
    rw [hat.bytes_eq]
    simp [Array.append_assoc]
  have hrun := Blob.run_tensor hat.accepted hbytes hat.cursor_eq hcount hlen hcap
  rw [Writer.alignUp_add hat.aligned, ← hpad, ← hat.cursor_eq] at hrun
  exact ⟨_, hrun, rfl, rfl, rfl, rfl, rfl, rfl, rfl⟩

/-- **The records of a writer are read back**, wherever they start in a blob. -/
theorem Writer.Written.run {d : Decoder} {w : Writer} {read : List Tensor}
    (h : Writer.Written d w read) : ∀ (r : Reader MemorySource) (front rest : Bytes),
      At r front w.records rest → r.decoder = d → w.records.size < 2 ^ 32 →
      (∀ t ∈ read, t.blocks.toNat * blockElements ≤ r.capacity) →
      ∃ after, ((read.map Tensor.count).mapM Reader.tensor).run r = ⟨.ok read, after, []⟩ ∧
        Advance r after w.records.size w.tensors := by
  refine Writer.Written.append_induction ?_ (fun w read count blocks shown hw ih hcount => ?_) h
  · intro r front rest _ _ _ _
    exact ⟨r, rfl, rfl, rfl, rfl, rfl, rfl, rfl, rfl⟩
  · intro r front rest hat hd hsize hcap
    obtain ⟨padding, hrecords, hpad⟩ := hw.records_append count blocks shown
    have hrecord := size_record count blocks
    rw [hrecords] at hat hsize ⊢
    rw [Array.size_append, Array.size_append] at hsize
    -- To the earlier records, the new one is a part of what follows.
    have hearlier : At r front w.records (Writer.record count blocks ++ padding ++ rest) :=
      ⟨hat.accepted, by rw [hat.bytes_eq]; simp [Array.append_assoc], hat.cursor_eq, hat.aligned⟩
    obtain ⟨mid, hrun, hmid⟩ := ih r _ _ hearlier hd (by omega)
      (fun t ht => hcap t (List.mem_append_left _ ht))
    have hlen : blocks.length < 2 ^ 32 := by
      unfold recordBytes blockBytes at hrecord
      omega
    have hfits : blocks.length * blockElements ≤ mid.capacity := by
      have hc := hcap _ (List.mem_append_right _ (List.mem_singleton_self _))
      change (UInt32.ofNat blocks.length).toNat * blockElements ≤ r.capacity at hc
      rwa [UInt32.toNat_ofNat', Nat.mod_eq_of_lt hlen, ← hmid.capacity_eq] at hc
    obtain ⟨after, hlast, hafter⟩ :=
      (hat.advance hmid hw.size_mod).run_tensor hpad hcount hlen hfits
    rw [hmid.decoder_eq, hd] at hlast
    refine ⟨after, ?_, ?_⟩
    · rw [List.map_append, List.mapM_append, Action.run_bind, hrun]
      simp [Writer.blocksRead, hlast, Except.map]
    · rw [Array.size_append]
      exact hmid.trans hafter

/-! ### Opening a blob -/

/-- A blob in memory with one of the two magics is opened at its first record. -/
theorem run_reset {magic : UInt32} {more : Bytes}
    (hb : r.source.bytes = Word.bytes magic ++ more) (hsize : headerBytes ≤ r.source.bytes.size)
    (hmagic : Variant.ofMagic magic ≠ .unknown) :
    (Reader.reset : Action (Reader MemorySource) Bool).run r =
      ⟨.ok true,
        { r with
          cursor := headerBytes
          magic
          variant := Variant.ofMagic magic
          stats := { Stats.zero with bytes := headerBytes } },
        [.magicAccepted magic (Source.name MemorySource) r.decoder]⟩ := by
  have hword : (Source.readWord 0 : Action MemorySource UInt32).run r.source = _ :=
    @MemorySource.run_readWord r.source #[] more magic (by rw [hb, Array.empty_append])
  simp only [Reader.reset, Action.run_bind, Action.run_modify, Action.run_get, Source.size,
    Nat.not_lt.2 hsize, if_false, Reader.onSource, Action.run_within, hword, hmagic,
    Action.run_log, Action.run_pure]
  rfl

theorem Writer.finish_eq (w : Writer) (magic : UInt32) : ∃ header more,
    w.finish magic = header ++ w.records ∧ header.size = headerBytes ∧
      header = Word.bytes magic ++ more := by
  refine ⟨_, Word.bytes (UInt32.ofNat w.records.size) ++
    (Word.bytes (UInt32.ofNat blockElements) ++ Word.bytes 0), rfl, ?_, ?_⟩
  · rw [Array.size_append, Array.size_append, Array.size_append]
    rfl
  · rw [Array.append_assoc, Array.append_assoc]

/-- A reader at the end of its blob refuses to read on. -/
theorem run_tensor_end (ha : r.accepted = true) (hc : r.cursor = r.source.bytes.size)
    (count : UInt32) : ((Reader.tensor count).run r).result =
      .error (.recordHeader r.cursor r.cursor) := by
  have hshort : r.cursor < r.cursor + recordBytes := by
    unfold recordBytes
    omega
  have hrecord : (Reader.record : Action (Reader MemorySource) _).run r =
      ⟨.error (.recordHeader r.cursor r.cursor), r, []⟩ := by
    simp only [Reader.record, Action.run_bind, Action.run_get, ha, Bool.not_true,
      Bool.false_eq_true, if_false, MemorySource.size_eq, ← hc, hshort, if_true, Action.run_fail]
    rfl
  rw [Reader.tensor, Action.run_bind, Action.run_get]
  dsimp only
  rw [Action.run_bind, hrecord]

/-- **Reading undoes writing.**  A blob of less than four gigabytes with either magic is
opened, and reading with the counts that were written returns one tensor for every accepted
call, without a warning and with whole blocks of values.  It ends where the blob ends, and
reading on is refused. -/
theorem read_written {d : Decoder} {w : Writer} {read : List Tensor}
    (h : Writer.Written d w read) (hsize : w.records.size < 2 ^ 32) {magic : UInt32}
    (hmagic : magic = Variant.baselineMagic ∨ magic = Variant.dialectMagic) {capacity : Nat}
    (hcap : ∀ t ∈ read, t.blocks.toNat * blockElements ≤ capacity) :
    ∃ opened log after,
      Reader.reset.run (Reader.create (⟨w.finish magic⟩ : MemorySource) d capacity) =
        ⟨.ok true, opened, log⟩ ∧
      ((read.map Tensor.count).mapM Reader.tensor).run opened = ⟨.ok read, after, []⟩ ∧
      (∀ t ∈ read, t.values.size = t.blocks.toNat * blockElements) ∧
      after.stats.warnings = 0 ∧ after.stats.tensors = w.tensors ∧
      after.cursor = 16 + w.records.size ∧ after.cursor = (w.finish magic).size ∧
      ∀ count, ∃ fault, ((Reader.tensor count).run after).result = .error fault ∧
        fault.kind = .format := by
  obtain ⟨header, more, hfinish, hheader, hstarts⟩ := w.finish_eq magic
  have hknown : Variant.ofMagic magic ≠ .unknown := by
    rw [Ne, Variant.ofMagic_eq_unknown_iff]
    rcases hmagic with hm | hm
    · exact fun hno => hno.1 hm
    · exact fun hno => hno.2 hm
  have hblob : (w.finish magic).size = headerBytes + w.records.size := by
    rw [hfinish, Array.size_append, hheader]
  have hopen := run_reset (r := Reader.create (⟨w.finish magic⟩ : MemorySource) d capacity)
    (by rw [← Array.append_assoc, ← hstarts]; exact hfinish)
    (by change headerBytes ≤ (w.finish magic).size; omega) hknown
  have hat : At
      { Reader.create (⟨w.finish magic⟩ : MemorySource) d capacity with
        cursor := headerBytes
        magic
        variant := Variant.ofMagic magic
        stats := { Stats.zero with bytes := headerBytes } } header w.records #[] :=
    ⟨decide_eq_true hknown, by rw [Array.append_empty]; exact hfinish, hheader.symm,
      by rw [hheader]; rfl⟩
  obtain ⟨after, hrun, hgone⟩ := h.run _ header #[] hat rfl hsize hcap
  have hcursor : after.cursor = headerBytes + w.records.size := hgone.cursor_eq
  have hsource : after.source.bytes = w.finish magic := by rw [hgone.source_eq]; rfl
  have haccepted : after.accepted = true := by
    rw [← hat.accepted, Reader.accepted, Reader.accepted, hgone.variant_eq]
  refine ⟨_, _, after, hopen, hrun, h.size_values hsize, hgone.warnings_eq, ?_, hcursor, ?_,
    fun count => ⟨_, run_tensor_end haccepted ?_ count, rfl⟩⟩
  · rw [hgone.tensors_eq]
    exact Nat.zero_add _
  · rw [hcursor, hblob]
  · rw [hcursor, hsource, hblob]

/-- Two values, none, and a packed block of which four weights are asked for. -/
theorem read_written_three : ∃ w read,
    Writer.Written .firmware w read ∧ read.map Tensor.count = [2, 0, 4] ∧
      w.records.size < 2 ^ 32 ∧ (∀ t ∈ read, t.blocks.toNat * blockElements ≤ 32) ∧
      ∃ opened log after,
        Reader.reset.run (Reader.create (⟨w.finish Variant.dialectMagic⟩ : MemorySource)
          .firmware 32) = ⟨.ok true, opened, log⟩ ∧
        ((read.map Tensor.count).mapM Reader.tensor).run opened = ⟨.ok read, after, []⟩ ∧
        after.cursor = 80 := by
  have hfirst := Writer.Written.tensor (.held #[5, -3]) (.empty (d := .firmware)) rfl
  have hsecond := Writer.Written.tensor (.absent 0) hfirst rfl
  have hthird := Writer.Written.blocks 4 [Vector.replicate 18 0x7A] hsecond rfl
  refine ⟨_, _, hthird, rfl, by decide +kernel, by decide +kernel, ?_⟩
  obtain ⟨opened, log, after, hopen, hrun, -, -, -, hcursor, -⟩ :=
    read_written hthird (by decide +kernel) (.inr rfl) (show ∀ t ∈ _, _ ≤ 32 by decide +kernel)
  exact ⟨opened, log, after, hopen, hrun, hcursor.trans (by decide +kernel)⟩

end Blob
end WeightLink
