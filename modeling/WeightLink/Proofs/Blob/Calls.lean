/-
# Any calls on a blob in memory

A caller resets a reader and asks it for tensors, in any order and also after failures
(`Reader.Used`).  Over a blob in memory each answer depends on the bytes, the cursor and the
answer to the latest reset alone (`Reader.used_answers`): which of them is an error and of what
kind, what a tensor holds, and where the reader goes on.  A call that fails changes nothing.

The weights of a tensor are the front of a buffer that all tensors are decoded into one after the
other (`Reader.fill`), whatever the earlier ones have left there (`Reader.run_fill`).
-/

import WeightLink.Proofs.Blob.Following

namespace WeightLink
namespace Blob

open WeightLink.Action (Triple)

/-! ### The scratch buffer -/

/-- A buffer with some of its values replaced from a position onwards. -/
def overwrite (buffer : Array Int8) (position : Nat) (values : Array Int8) : Array Int8 :=
  buffer.take position ++ values ++ buffer.drop (position + values.size)

theorem drop_drop (buffer : Array Int8) (m n : Nat) :
    (buffer.drop m).drop n = buffer.drop (m + n) := by
  apply Array.toList_inj.1
  simp
  omega

theorem take_front (front rest : Array Int8) : (front ++ rest).take front.size = front := by
  rw [Array.take_eq_extract, Array.extract_append_left, Array.extract_size]

/-- Values are put right behind the front of a buffer. -/
theorem overwrite_front (front rest values : Array Int8) :
    overwrite (front ++ rest) front.size values = front ++ values ++ rest.drop values.size := by
  have hdrop : (front ++ rest).drop (front.size + values.size) = rest.drop values.size := by
    simp [Array.drop_eq_extract, Array.extract_append]
  rw [overwrite, take_front, hdrop]

namespace Reader

variable {σ : Type} [Source σ]

/-- Decodes the first `n` blocks from a position onwards into the front of a buffer. -/
def fill (d : Decoder) (start : Nat) (scratch : Array Int8) : Nat → Action σ (Array Int8)
  | 0 => pure scratch
  | n + 1 => do
    let filled ← fill d start scratch n
    let block ← Source.read (start + n * blockBytes) 18
    return overwrite filled (n * blockElements) (d.decode block).toArray

variable {I : σ → Prop} {bytes : Bytes} {E : Fault → Prop}

/-- **Blocks are decoded in front of what the buffer held.** -/
theorem fill_follows (h : Source.Shows I bytes E) (d : Decoder) (scratch : Array Int8)
    {start n : Nat} (hn : start + n * blockBytes ≤ bytes.size) :
    Triple I (fill d start scratch n : Action σ (Array Int8))
      (fun filled s => filled =
        decoded d (blocksAt bytes start n) ++ scratch.drop (n * blockElements) ∧ I s)
      fun e _ => E e := by
  unfold blockBytes at hn
  induction n with
  | zero => exact .pure fun s hs => ⟨by simp [blocksAt, decoded], hs⟩
  | succ n ih =>
    have hlast : start + n * blockBytes + 18 ≤ bytes.size := by
      unfold blockBytes
      omega
    refine .bind (ih (by omega)) fun filled => .of_pre fun hf => ?_
    refine .bind (h.read _ 18 hlast) fun block => .pure fun s hs => ?_
    obtain ⟨rfl, hs⟩ := hs
    refine ⟨?_, hs⟩
    have hfront : (decoded d (blocksAt bytes start n)).size = n * blockElements := by
      rw [size_decoded, length_blocksAt]
    rw [hf, ← hfront, overwrite_front, blocksAt_succ, decoded_concat, hfront, drop_drop,
      Vector.size_toArray, Nat.add_mul]
    rfl

end Reader

/-! ### Histories of calls -/

namespace Reader

variable {bytes : Bytes} {d : Decoder} {capacity : Nat} {r : Reader MemorySource}
  {latest : Option Bool} {requested : UInt32}

/-- The readers of a blob in memory that a caller gets by resets and requests, whether these
succeed or fail, with the answer to the latest reset. -/
inductive Used (bytes : Bytes) (d : Decoder) (capacity : Nat) :
    Reader MemorySource → Option Bool → Prop
  | create : Used bytes d capacity (.create ⟨bytes⟩ d capacity) none
  | reset {r : Reader MemorySource} {latest : Option Bool} : Used bytes d capacity r latest →
      Used bytes d capacity (Reader.reset.run r).state (Reader.reset.run r).result.toOption
  | tensor {r : Reader MemorySource} {latest : Option Bool} (requested : UInt32) :
      Used bytes d capacity r latest → Used bytes d capacity ((tensor requested).run r).state latest

/-- A source and a parser make up a reader. -/
theorem eq_of_bare {r r' : Reader MemorySource} (hs : r.source = r'.source)
    (hb : r.bare = r'.bare) : r = r' := by
  obtain ⟨s, _, _, _, _, _, _⟩ := r
  obtain ⟨s', _, _, _, _, _, _⟩ := r'
  simp_all [bare]

/-- A reset tells whether the blob has a magic, and goes to the first record. -/
theorem run_reset (hs : r.source = ⟨bytes⟩) :
    (reset.run r).result = .ok (accepts bytes) ∧ (reset.run r).state.source = ⟨bytes⟩ ∧
      (reset.run r).state.bare = r.bare.opened bytes := by
  have hrun := reset_follows (MemorySource.shows bytes) r.bare r ⟨hs, rfl⟩
  revert hrun
  rcases (reset : Action (Reader MemorySource) _).run r with ⟨_ | ok, t, es⟩
  · exact False.elim
  · rintro ⟨rfl, ht, hb⟩
    exact ⟨rfl, ht, hb⟩

/-- A request is answered by the parser; a failure changes nothing. -/
theorem run_tensor_parse (hs : r.source = ⟨bytes⟩) (requested : UInt32) :
    (∃ t r', r.bare.tensor bytes requested = .ok (t, r'.bare) ∧ r'.source = ⟨bytes⟩ ∧
      ((tensor requested).run r).result = .ok t ∧ ((tensor requested).run r).state = r') ∨
    ∃ e, r.bare.tensor bytes requested = .error e ∧
      ((tensor requested).run r).result = .error e ∧ ((tensor requested).run r).state = r := by
  have hrun := tensor_follows (MemorySource.shows bytes) r.bare requested r ⟨hs, rfl⟩
  revert hrun
  rcases (tensor requested : Action (Reader MemorySource) _).run r with ⟨e | t, r', es⟩
  · rintro (⟨⟨⟩⟩ | ⟨he, hs', hb⟩)
    exact .inr ⟨e, he, rfl, eq_of_bare (hs'.trans hs.symm) hb⟩
  · rintro ⟨hs', ht⟩
    exact .inl ⟨t, r', ht, hs', rfl, rfl⟩

theorem Used.invariant (h : Used bytes d capacity r latest) :
    r.source = ⟨bytes⟩ ∧ r.decoder = d ∧ r.capacity = capacity ∧
      (r.accepted = true ↔ latest = some true) := by
  induction h with
  | create => exact ⟨rfl, rfl, rfl, iff_of_false (by simp [accepted, Reader.create]) nofun⟩
  | reset _ ih =>
    obtain ⟨hs, hd, hc, -⟩ := ih
    obtain ⟨hr, hs', hb⟩ := run_reset hs
    have ha := congrArg Reader.accepted hb
    rw [Parser.accepted_opened] at ha
    refine ⟨hs', (congrArg Reader.decoder hb).trans hd, (congrArg Reader.capacity hb).trans hc, ?_⟩
    rw [hr, ← ha]
    exact Option.some_inj.symm
  | tensor requested _ ih =>
    rename_i r _ _
    obtain ⟨hs, hd, hc, ha⟩ := ih
    rcases run_tensor_parse hs requested with ⟨t, r', ht, hs', -, hr⟩ | ⟨e, -, -, hr⟩
    · obtain ⟨-, -, -, hq⟩ := Parser.tensor_eq_ok_iff.1 ht
      rw [hr]
      refine ⟨hs', ?_, ?_, ?_⟩
      · exact (congrArg Reader.decoder hq).symm.trans ((Parser.decoder_after _ _ _).trans hd)
      · exact (congrArg Reader.capacity hq).symm.trans ((Parser.capacity_after _ _ _).trans hc)
      · have hkept := (congrArg Reader.accepted hq).symm.trans (Parser.accepted_after _ _ _)
        exact (iff_of_eq (congrArg (· = true) hkept)).trans ha
    · rw [hr]
      exact ⟨hs, hd, hc, ha⟩

/-- What a tensor holds that was read, and where the reader is then. -/
structure Took (bytes : Bytes) (requested : UInt32) (r r' : Reader MemorySource) (t : Tensor) :
    Prop where
  size_eq : t.values.size = (recordAt bytes r.cursor).capacity
  count_eq : t.count = requested
  blocks_eq : t.blocks = (recordAt bytes r.cursor).blocks
  /-- Weight `i` of block `k`. -/
  getElem_eq : ∀ k < t.blocks.toNat, ∀ i (hi : i < 32), t.values[k * blockElements + i]? =
    some (r.decoder.decode
      (slice bytes ((recordAt bytes r.cursor).start + k * blockBytes) 18))[i]
  /-- Decoding in place gives the same, whatever is in the buffer. -/
  in_place : ∀ scratch : Array Int8, scratch.size = r.capacity → ∃ filled,
    ((fill r.decoder (recordAt bytes r.cursor).start scratch t.blocks.toNat).run
      r.source).result = .ok filled ∧
    filled.size = r.capacity ∧ filled.take t.values.size = t.values
  state_eq : r' =
    let record := recordAt bytes r.cursor
    let next := alignUp record.stop
    { r with
      cursor := next
      stats :=
        { tensors := r.stats.tensors + 1
          blocks := r.stats.blocks + record.blocks.toNat
          bytes := r.stats.bytes + (next - r.cursor)
          warnings := r.stats.warnings + if record.elements = requested then 0 else 1 } }

/-- **A tensor that is read is the tensor of the record at the cursor.** -/
theorem took (hs : r.source = ⟨bytes⟩) {t : Tensor} {r' : Reader MemorySource}
    (hs' : r'.source = ⟨bytes⟩) (ht : r.bare.tensor bytes requested = .ok (t, r'.bare)) :
    Took bytes requested r r' t := by
  obtain ⟨hm, hc, rfl, hq⟩ := Parser.tensor_eq_ok_iff.1 ht
  have hin : (recordAt bytes r.cursor).stop ≤ bytes.size :=
    (not_malformed_iff.1 (Parser.not_refuses_iff.1 hm).2).2.2
  have hsize := Parser.size_content bytes (recordAt bytes r.cursor) requested r.bare
  refine ⟨hsize, rfl, rfl, fun k hk i hi => ?_, fun scratch hscratch => ?_, ?_⟩
  · exact Parser.getElem_content bytes (recordAt bytes r.cursor) requested r.bare hk hi
  · have hfill := fill_follows (MemorySource.shows bytes) r.decoder scratch hin r.source hs
    have hcap : (recordAt bytes r.cursor).capacity ≤ scratch.size := hscratch ▸ hc
    revert hfill
    change _ → ∃ filled, ((fill r.decoder _ scratch (recordAt bytes r.cursor).blocks.toNat).run
      r.source).result = _ ∧ _
    rcases (fill r.decoder (recordAt bytes r.cursor).start scratch
      (recordAt bytes r.cursor).blocks.toNat).run r.source with ⟨_ | filled, s, es⟩
    · exact False.elim
    rintro ⟨rfl, -⟩
    refine ⟨_, rfl, ?_, take_front _ _⟩
    rw [Array.size_append, ← hscratch, Array.drop_eq_extract, Array.size_extract]
    change (Parser.content bytes (recordAt bytes r.cursor) requested r.bare).values.size +
      (_ - (recordAt bytes r.cursor).capacity) = _
    omega
  · exact eq_of_bare (hs'.trans hs.symm) (hq.symm.trans (Parser.after_eq _ _ _))

/-- The kinds of answers to a request. -/
theorem tensor_cases (hs : r.source = ⟨bytes⟩) (requested : UInt32) :
    (r.bare.Refuses bytes requested ∧
      ∃ e, ((tensor requested).run r).result = .error e ∧ e.kind = .format) ∨
    (¬r.bare.Refuses bytes requested ∧ r.capacity < (recordAt bytes r.cursor).capacity ∧
      ∃ e, ((tensor requested).run r).result = .error e ∧ e.kind = .overrun) ∨
    (¬r.bare.Refuses bytes requested ∧ (recordAt bytes r.cursor).capacity ≤ r.capacity ∧
      ∃ t, ((tensor requested).run r).result = .ok t) := by
  have hparse := r.bare.record_cases bytes requested
  rcases run_tensor_parse hs requested with ⟨t, r', ht, -, hr, -⟩ | ⟨e, he, hr, -⟩
  · obtain ⟨hm, hc, -⟩ := Parser.tensor_eq_ok_iff.1 ht
    exact .inr (.inr ⟨hm, hc, t, hr⟩)
  · rw [Parser.tensor] at he
    rcases hparse with ⟨hm, e', he', hk⟩ | ⟨hm, hc, e', he', hk⟩ | ⟨-, -, ho⟩
    · rw [he'] at he
      obtain rfl : e' = e := Except.error.inj he
      exact .inl ⟨hm, e', hr, hk⟩
    · rw [he'] at he
      obtain rfl : e' = e := Except.error.inj he
      exact .inr (.inl ⟨hm, hc, e', hr, hk⟩)
    · rw [ho] at he
      cases he

theorem accepts_eq (bytes : Bytes) : accepts bytes = decide (headerBytes ≤ bytes.size ∧
    (wordAt bytes 0 = Variant.baselineMagic ∨ wordAt bytes 0 = Variant.dialectMagic)) := by
  refine decide_eq_decide.2 (and_congr_right fun _ => ?_)
  simp only [ne_eq, Variant.ofMagic_eq_unknown_iff, Decidable.not_and_iff_not_or_not,
    Decidable.not_not]

/-- **What any call on a blob in memory answers.**  A reset accepts sixteen bytes that start with
a magic.  A request fails as ill-formed if nothing was accepted by the latest reset or there is no
such record, else for want of room, and else gives the tensor of the record at the cursor.  A
failure changes nothing.  All of this is what the parser answers. -/
theorem used_answers (h : Used bytes d capacity r latest) :
    (reset.run r).result = .ok (decide (headerBytes ≤ bytes.size ∧
      (wordAt bytes 0 = Variant.baselineMagic ∨ wordAt bytes 0 = Variant.dialectMagic))) ∧
    (reset.run r).state.bare = r.bare.opened bytes ∧
    ∀ requested,
      ((∃ e, ((tensor requested).run r).result = .error e ∧ e.kind = .format) ↔
        latest ≠ some true ∨ Malformed bytes r.cursor requested) ∧
      ((∃ e, ((tensor requested).run r).result = .error e ∧ e.kind = .overrun) ↔
        ¬(latest ≠ some true ∨ Malformed bytes r.cursor requested) ∧
          capacity < (recordAt bytes r.cursor).capacity) ∧
      ((∃ t, ((tensor requested).run r).result = .ok t) ↔
        ¬(latest ≠ some true ∨ Malformed bytes r.cursor requested) ∧
          (recordAt bytes r.cursor).capacity ≤ capacity) ∧
      (∀ e, ((tensor requested).run r).result = .error e →
        r.bare.tensor bytes requested = .error e ∧ ((tensor requested).run r).state = r) ∧
      ∀ t, ((tensor requested).run r).result = .ok t →
        r.bare.tensor bytes requested = .ok (t, ((tensor requested).run r).state.bare) ∧
          Took bytes requested r ((tensor requested).run r).state t := by
  obtain ⟨hs, -, rfl, ha⟩ := h.invariant
  obtain ⟨hr, -, hb⟩ := run_reset hs
  refine ⟨hr.trans (congrArg _ (accepts_eq bytes)), hb, fun requested => ?_⟩
  have hill : latest ≠ some true ∨ Malformed bytes r.cursor requested ↔
      r.bare.Refuses bytes requested := by
    rw [Parser.Refuses, ← Bool.not_eq_true]
    exact or_congr_left (not_congr ha.symm)
  have hparse := run_tensor_parse hs requested
  rw [hill]
  have hkinds : ((∃ e, ((tensor requested).run r).result = .error e ∧ e.kind = .format) ↔
      r.bare.Refuses bytes requested) ∧
      ((∃ e, ((tensor requested).run r).result = .error e ∧ e.kind = .overrun) ↔
        ¬r.bare.Refuses bytes requested ∧ r.capacity < (recordAt bytes r.cursor).capacity) ∧
      ((∃ t, ((tensor requested).run r).result = .ok t) ↔
        ¬r.bare.Refuses bytes requested ∧ (recordAt bytes r.cursor).capacity ≤ r.capacity) := by
    rcases tensor_cases hs requested with ⟨hm, e, he, hk⟩ | ⟨hm, hc, e, he, hk⟩ | ⟨hm, hc, t, ht⟩
    · simp [he, hk, hm]
    · simp [he, hk, hm, hc]
    · simp [ht, hm, hc]
  obtain ⟨hformat, hoverrun, hok⟩ := hkinds
  refine ⟨hformat, hoverrun, hok, fun e he => ?_, fun t ht => ?_⟩
  · rcases hparse with ⟨t, r', -, -, hr, -⟩ | ⟨e', he', hr, hstate⟩
    · cases hr.symm.trans he
    · obtain rfl : e' = e := Except.error.inj (hr.symm.trans he)
      exact ⟨he', hstate⟩
  · rcases hparse with ⟨t', r', ht', hs', hr, hstate⟩ | ⟨e, -, hr, -⟩
    · obtain rfl : t' = t := Except.ok.inj (hr.symm.trans ht)
      rw [hstate]
      exact ⟨ht', took hs hs' ht'⟩
    · cases hr.symm.trans ht

/-- A record of one block with two elements, and one that claims all the blocks there can be. -/
def sampleBytes : Bytes :=
  #[0x30, 0x42, 0x57, 0x56, 0, 0, 0, 0, 0, 0, 0, 0, 0, 0, 0, 0,
    2, 0, 0, 0, 1, 0, 0, 0,
    0x50, 0x80, 0x12, 0x3F, 0, 0, 0, 0, 0, 0, 0, 0, 0, 0, 0, 0, 0, 0, 0, 0,
    0, 0, 0, 0, 0xFF, 0xFF, 0xFF, 0xFF]

/-- A reader at the first of these records. -/
def sampleFirst : Reader MemorySource :=
  (reset.run (.create ⟨sampleBytes⟩ .firmware 32)).state

/-- The reader behind that record, of which one element was asked for. -/
def sampleSecond : Reader MemorySource := ((tensor 1).run sampleFirst).state

theorem used_answers_sample :
    Used sampleBytes .firmware 32 sampleFirst (some true) ∧
    (∃ t, ((tensor 1).run sampleFirst).result = .ok t ∧
      Took sampleBytes 1 sampleFirst sampleSecond t) ∧
    Used sampleBytes .firmware 32 sampleSecond (some true) ∧
    ∃ e, ((tensor 0).run sampleSecond).result = .error e ∧ e.kind = .format ∧
      ((tensor 0).run sampleSecond).state = sampleSecond := by
  have hfirst : Used sampleBytes .firmware 32 sampleFirst (some true) := by
    have hreset := @Used.reset sampleBytes .firmware 32 _ _ .create
    rwa [show (reset.run (.create (⟨sampleBytes⟩ : MemorySource) .firmware 32)).result.toOption =
      some true by decide +kernel] at hreset
  have hsecond : Used sampleBytes .firmware 32 sampleSecond (some true) := .tensor 1 hfirst
  obtain ⟨-, -, hanswer⟩ := used_answers hfirst
  obtain ⟨-, -, hok, -, htook⟩ := hanswer 1
  obtain ⟨-, -, hanswer'⟩ := used_answers hsecond
  obtain ⟨hformat, -, -, hkept, -⟩ := hanswer' 0
  obtain ⟨t, ht⟩ := hok.2 (by decide +kernel)
  obtain ⟨e, he, hk⟩ := hformat.2 (.inr (by decide +kernel))
  exact ⟨hfirst, ⟨t, ht, (htook t ht).2⟩, hsecond, e, he, hk, (hkept e he).2⟩

end Reader
end Blob
end WeightLink
