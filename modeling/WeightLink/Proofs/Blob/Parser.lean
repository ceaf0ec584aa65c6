/-
# Records as a function of the bytes

What a reader gives is determined by the bytes alone.  A `Parser` is a reader without its
source: it takes the record at its cursor out of some bytes, or says why it does not
(`Parser.record`), and goes on behind it (`Parser.after`).

The records that a parser goes through lie inside the bytes (`Parser.stop_le_of_tensors`).  The
bytes in front of a position decide on all tensors whose records end there
(`Parser.tensors_congr`).  Where bytes are cut off, a parser that would need more of them is
refused as ill-formed (`Parser.tensors_cut`).
-/

import WeightLink.Proofs.Blob.Record

namespace WeightLink
namespace Blob

/-! ### Bytes, words, blocks and records at a position -/

/-- The byte at a position, zero past the end. -/
def byteAt (bytes : Bytes) (position : Nat) : UInt8 := bytes[position]?.getD 0

/-- Some bytes from a position onwards. -/
def slice (bytes : Bytes) (position n : Nat) : Vector UInt8 n :=
  Vector.ofFn fun i => byteAt bytes (position + i.val)

/-- The word at a position. -/
def wordAt (bytes : Bytes) (position : Nat) : UInt32 :=
  Word.ofBytes (byteAt bytes position) (byteAt bytes (position + 1)) (byteAt bytes (position + 2))
    (byteAt bytes (position + 3))

/-- The record that the eight bytes at a position describe. -/
def recordAt (bytes : Bytes) (position : Nat) : Record :=
  ⟨position, wordAt bytes position, wordAt bytes (position + 4)⟩

/-- Some blocks from a position onwards. -/
def blocksAt (bytes : Bytes) (start n : Nat) : List Block :=
  (List.range n).map fun k => slice bytes (start + k * blockBytes) 18

/-- The records that follow each other from a position onwards. -/
def recordsFrom (bytes : Bytes) (position : Nat) : Nat → List Record
  | 0 => []
  | n + 1 =>
    let record := recordAt bytes position
    record :: recordsFrom bytes (alignUp record.stop) n

theorem length_blocksAt (bytes : Bytes) (start n : Nat) : (blocksAt bytes start n).length = n := by
  simp [blocksAt]

theorem blocksAt_succ (bytes : Bytes) (start n : Nat) :
    blocksAt bytes start (n + 1) =
      blocksAt bytes start n ++ [slice bytes (start + n * blockBytes) 18] := by
  simp [blocksAt, List.range_succ]

theorem getElem_blocksAt {bytes : Bytes} {start n k : Nat}
    (hk : k < (blocksAt bytes start n).length) :
    (blocksAt bytes start n)[k] = slice bytes (start + k * blockBytes) 18 := by
  simp [blocksAt]

theorem le_stop_recordAt (bytes : Bytes) (position : Nat) :
    position + recordBytes ≤ (recordAt bytes position).stop := Nat.le_add_right _ _

/-- There is no record at a position that lies inside the bytes and whose blocks have the elements
that it claims and those that are asked for. -/
def Malformed (bytes : Bytes) (position : Nat) (requested : UInt32) : Prop :=
  bytes.size < position + recordBytes ∨
    (recordAt bytes position).capacity < (recordAt bytes position).elements.toNat ∨
    (recordAt bytes position).capacity < requested.toNat ∨
    bytes.size < (recordAt bytes position).stop

instance (bytes : Bytes) (position : Nat) (requested : UInt32) :
    Decidable (Malformed bytes position requested) :=
  inferInstanceAs (Decidable (_ ∨ _ ∨ _ ∨ _))

theorem not_malformed_iff {bytes : Bytes} {position : Nat} {requested : UInt32} :
    ¬Malformed bytes position requested ↔
      (recordAt bytes position).elements.toNat ≤ (recordAt bytes position).capacity ∧
      requested.toNat ≤ (recordAt bytes position).capacity ∧
      (recordAt bytes position).stop ≤ bytes.size := by
  have hstart := le_stop_recordAt bytes position
  simp only [Malformed, not_or, Nat.not_lt]
  constructor
  · exact fun ⟨_, he, hr, hs⟩ => ⟨he, hr, hs⟩
  · exact fun ⟨he, hr, hs⟩ => ⟨Nat.le_trans hstart hs, he, hr, hs⟩

/-- Two runs of bytes are the same in front of `k`. -/
def Agree (k : Nat) (a b : Bytes) : Prop := ∀ i < k, a[i]? = b[i]?

namespace Agree

variable {k position : Nat} {a b : Bytes}

theorem symm (h : Agree k a b) : Agree k b a := fun i hi => (h i hi).symm

theorem trans {c : Bytes} (h : Agree k a b) (h' : Agree k b c) : Agree k a c := fun i hi =>
  (h i hi).trans (h' i hi)

theorem take (bytes : Bytes) (k : Nat) :
    Agree (bytes.take k).size bytes (bytes.take k) := by
  intro i hi
  rw [Array.take_eq_extract, Array.size_extract] at hi
  rw [Array.take_eq_extract, Array.getElem?_extract, if_pos (by omega), Nat.zero_add]

theorem append (bytes rest : Bytes) : Agree bytes.size bytes (bytes ++ rest) := fun _ hi =>
  (Array.getElem?_append_left hi).symm

theorem byteAt (h : Agree k a b) (hk : position < k) : byteAt a position = byteAt b position :=
  congrArg (Option.getD · 0) (h position hk)

theorem slice (h : Agree k a b) {n : Nat} (hk : position + n ≤ k) :
    slice a position n = slice b position n := by
  apply Vector.ext
  intro i hi
  simp only [Blob.slice, Vector.getElem_ofFn, h.byteAt (show position + i < k by omega)]

theorem wordAt (h : Agree k a b) (hk : position + 4 ≤ k) :
    wordAt a position = wordAt b position := by
  rw [Blob.wordAt, Blob.wordAt, h.byteAt (by omega), h.byteAt (by omega), h.byteAt (by omega),
    h.byteAt (by omega)]

theorem recordAt (h : Agree k a b) (hk : position + recordBytes ≤ k) :
    recordAt a position = recordAt b position := by
  unfold recordBytes at hk
  rw [Blob.recordAt, Blob.recordAt, h.wordAt (by omega), h.wordAt (by omega)]

theorem blocksAt (h : Agree k a b) {n : Nat} (hk : position + n * blockBytes ≤ k) :
    blocksAt a position n = blocksAt b position n := by
  refine List.map_congr_left fun j hj => h.slice (Nat.le_trans ?_ hk)
  have hj : j < n := List.mem_range.1 hj
  unfold blockBytes
  omega

end Agree

/-! ### One record -/

/-- A reader without its source. -/
abbrev Parser := Reader Unit

/-- What is left of a reader without its source. -/
def Reader.bare {σ : Type} (r : Reader σ) : Parser := { r with source := () }

/-- Whether some bytes start like a blob. -/
def accepts (bytes : Bytes) : Bool :=
  decide (headerBytes ≤ bytes.size ∧ Variant.ofMagic (wordAt bytes 0) ≠ .unknown)

namespace Parser

/-- The parser at the first record, with what the header says. -/
def opened (bytes : Bytes) (p : Parser) : Parser :=
  let magic := if bytes.size < headerBytes then 0 else wordAt bytes 0
  { p with
    cursor := headerBytes
    magic
    variant := Variant.ofMagic magic
    stats := { Stats.zero with bytes := if accepts bytes then headerBytes else 0 } }

/-- The record at the cursor, for a caller who asks for a number of elements. -/
def record (bytes : Bytes) (requested : UInt32) (p : Parser) : Except Fault Record :=
  if !p.accepted then .error (.streamMagic p.magic)
  else if bytes.size < p.cursor + recordBytes then .error (.recordHeader p.cursor bytes.size)
  else
    let record := recordAt bytes p.cursor
    (record.check requested bytes.size p.capacity).map fun _ => record

/-- The parser with one more warning. -/
def warned (p : Parser) : Parser :=
  { p with stats := { p.stats with warnings := p.stats.warnings + 1 } }

/-- The parser behind a record. -/
def behind (record : Record) (p : Parser) : Parser :=
  let next := alignUp record.stop
  { p with
    cursor := next
    stats :=
      { p.stats with
        tensors := p.stats.tensors + 1
        blocks := p.stats.blocks + record.blocks.toNat
        bytes := p.stats.bytes + (next - record.position) } }

/-- The parser behind a record, warned if the record has another number of elements than was
asked for. -/
def after (record : Record) (requested : UInt32) (p : Parser) : Parser :=
  (if record.elements = requested then p else p.warned).behind record

/-- The tensor in a record. -/
def content (bytes : Bytes) (record : Record) (requested : UInt32) (p : Parser) : Tensor :=
  ⟨decoded p.decoder (blocksAt bytes record.start record.blocks.toNat), requested, record.blocks⟩

/-- Takes the tensor at the cursor. -/
def tensor (bytes : Bytes) (requested : UInt32) (p : Parser) : Except Fault (Tensor × Parser) :=
  (p.record bytes requested).map fun record =>
    (p.content bytes record requested, p.after record requested)

/-- Takes one tensor after the other. -/
def tensors (bytes : Bytes) : List UInt32 → Parser → Except Fault (List Tensor × Parser)
  | [], p => .ok ([], p)
  | requested :: rest, p => do
    let (tensor, p) ← p.tensor bytes requested
    let (tensors, p) ← tensors bytes rest p
    return (tensor :: tensors, p)

/-- No magic was accepted, or the record at the cursor is not one with what is asked for. -/
def Refuses (bytes : Bytes) (requested : UInt32) (p : Parser) : Prop :=
  p.accepted = false ∨ Malformed bytes p.cursor requested

variable {bytes a b : Bytes} {requested : UInt32} {p q : Parser}

section After

variable (record : Record) (requested : UInt32) (p : Parser)

theorem after_eq : p.after record requested =
    { p with
      cursor := alignUp record.stop
      stats :=
        { tensors := p.stats.tensors + 1
          blocks := p.stats.blocks + record.blocks.toNat
          bytes := p.stats.bytes + (alignUp record.stop - record.position)
          warnings := p.stats.warnings + if record.elements = requested then 0 else 1 } } := by
  unfold after
  split <;> rfl

@[simp] theorem decoder_after : (p.after record requested).decoder = p.decoder := by
  unfold after
  split <;> rfl

@[simp] theorem capacity_after : (p.after record requested).capacity = p.capacity := by
  unfold after
  split <;> rfl

@[simp] theorem accepted_after : (p.after record requested).accepted = p.accepted := by
  unfold after
  split <;> rfl

@[simp] theorem cursor_after : (p.after record requested).cursor = alignUp record.stop := rfl

end After

theorem accepted_opened (bytes : Bytes) (p : Parser) :
    (p.opened bytes).accepted = accepts bytes := by
  unfold opened accepts Reader.accepted
  by_cases hs : bytes.size < headerBytes
  · have hle : ¬headerBytes ≤ bytes.size := by omega
    simp only [hs, hle, if_true, false_and, decide_false]
    rfl
  · have hle : headerBytes ≤ bytes.size := by omega
    simp only [hs, hle, if_false, true_and]

/-- **A record is refused as ill-formed, or else for want of room, or else taken.** -/
theorem record_cases (bytes : Bytes) (requested : UInt32) (p : Parser) :
    (p.Refuses bytes requested ∧
      ∃ e, p.record bytes requested = .error e ∧ e.kind = .format) ∨
    (¬p.Refuses bytes requested ∧ p.capacity < (recordAt bytes p.cursor).capacity ∧
      ∃ e, p.record bytes requested = .error e ∧ e.kind = .overrun) ∨
    (¬p.Refuses bytes requested ∧ (recordAt bytes p.cursor).capacity ≤ p.capacity ∧
      p.record bytes requested = .ok (recordAt bytes p.cursor)) := by
  unfold Refuses Malformed record
  cases ha : p.accepted with
  | false => exact .inl ⟨.inl rfl, _, rfl, rfl⟩
  | true =>
    by_cases hs : bytes.size < p.cursor + recordBytes
    · rw [if_neg (by simp), if_pos hs]
      exact .inl ⟨.inr (.inl hs), _, rfl, rfl⟩
    rw [if_neg (by simp), if_neg hs]
    dsimp only
    by_cases he : (recordAt bytes p.cursor).capacity < (recordAt bytes p.cursor).elements.toNat
    · rw [Record.check, if_pos he]
      exact .inl ⟨.inr (.inr (.inl he)), _, rfl, rfl⟩
    by_cases hr : (recordAt bytes p.cursor).capacity < requested.toNat
    · rw [Record.check, if_neg he, if_pos hr]
      exact .inl ⟨.inr (.inr (.inr (.inl hr))), _, rfl, rfl⟩
    by_cases hstop : bytes.size < (recordAt bytes p.cursor).stop
    · rw [Record.check, if_neg he, if_neg hr, if_pos hstop]
      exact .inl ⟨.inr (.inr (.inr (.inr hstop))), _, rfl, rfl⟩
    have hwell : ¬(true = false ∨ bytes.size < p.cursor + recordBytes ∨
        (recordAt bytes p.cursor).capacity < (recordAt bytes p.cursor).elements.toNat ∨
          (recordAt bytes p.cursor).capacity < requested.toNat ∨
            bytes.size < (recordAt bytes p.cursor).stop) := by simp [hs, he, hr, hstop]
    by_cases hc : p.capacity < (recordAt bytes p.cursor).capacity
    · rw [Record.check, if_neg he, if_neg hr, if_neg hstop, if_pos hc]
      exact .inr (.inl ⟨hwell, hc, _, rfl, rfl⟩)
    · rw [Record.check, if_neg he, if_neg hr, if_neg hstop, if_neg hc]
      exact .inr (.inr ⟨hwell, Nat.le_of_not_lt hc, rfl⟩)

theorem not_refuses_iff : ¬p.Refuses bytes requested ↔
    p.accepted = true ∧ ¬Malformed bytes p.cursor requested := by
  simp [Refuses]

theorem tensor_eq_ok_iff {t : Tensor} : p.tensor bytes requested = .ok (t, q) ↔
    ¬p.Refuses bytes requested ∧ (recordAt bytes p.cursor).capacity ≤ p.capacity ∧
      p.content bytes (recordAt bytes p.cursor) requested = t ∧
      p.after (recordAt bytes p.cursor) requested = q := by
  rcases p.record_cases bytes requested with ⟨hm, e, he, -⟩ | ⟨-, hc, e, he, -⟩ | ⟨hm, hc, ho⟩
  · simp [tensor, he, hm, Except.map]
  · simp [tensor, he, Nat.not_le_of_lt hc, Except.map]
  · simp [tensor, ho, hm, hc, Except.map]

/-- A tensor whose record is described in front of `k` is taken from all bytes that agree up to
there and are long enough.  Its blocks may be others. -/
theorem tensor_congr {k : Nat} {t : Tensor} (hab : Agree k a b)
    (hin : p.cursor + recordBytes ≤ k) (hstop : (recordAt a p.cursor).stop ≤ b.size)
    (h : p.tensor a requested = .ok (t, q)) :
    p.tensor b requested = .ok (p.content b (recordAt a p.cursor) requested, q) := by
  obtain ⟨hm, hc, -, rfl⟩ := tensor_eq_ok_iff.1 h
  have hsame := hab.recordAt hin
  obtain ⟨ha, hwell⟩ := not_refuses_iff.1 hm
  obtain ⟨he, hr, -⟩ := not_malformed_iff.1 hwell
  have hmb : ¬p.Refuses b requested := by
    rw [not_refuses_iff, not_malformed_iff, ← hsame]
    exact ⟨ha, he, hr, hstop⟩
  rw [hsame]
  exact tensor_eq_ok_iff.2 ⟨hmb, hsame ▸ hc, rfl, rfl⟩

/-- Bytes that end inside the record at the cursor are ill-formed. -/
theorem tensor_torn (h : bytes.size < (recordAt bytes p.cursor).stop) :
    ∃ e, p.tensor bytes requested = .error e ∧ e.kind = .format := by
  have hm : p.Refuses bytes requested := .inr (.inr (.inr (.inr h)))
  rcases p.record_cases bytes requested with ⟨-, e, he, hk⟩ | ⟨hn, -⟩ | ⟨hn, -⟩
  · exact ⟨e, by rw [tensor, he]; rfl, hk⟩
  · exact absurd hm hn
  · exact absurd hm hn

theorem size_content (bytes : Bytes) (record : Record) (requested : UInt32) (p : Parser) :
    (p.content bytes record requested).values.size = record.capacity := by
  rw [content, size_decoded, length_blocksAt, Record.capacity]

/-- Weight `i` of block `k` of the tensor in a record. -/
theorem getElem_content (bytes : Bytes) (record : Record) (requested : UInt32) (p : Parser)
    {k i : Nat} (hk : k < record.blocks.toNat) (hi : i < 32) :
    (p.content bytes record requested).values[k * blockElements + i]? =
      some (p.decoder.decode (slice bytes (record.start + k * blockBytes) 18))[i] := by
  rw [content, getElem_decoded p.decoder (by rwa [length_blocksAt]) hi, getElem_blocksAt]

/-! ### Many records -/

section Tensors

variable {counts rest : List UInt32} {ts : List Tensor} {t : Tensor}

theorem tensors_cons (h : p.tensor bytes requested = .ok (t, q)) :
    p.tensors bytes (requested :: rest) =
      (q.tensors bytes rest).map fun x => (t :: x.1, x.2) := by
  simp only [tensors, h, Except.map, bind, Except.bind]
  cases q.tensors bytes rest <;> rfl

theorem tensors_cons_error {e : Fault} (h : p.tensor bytes requested = .error e) :
    p.tensors bytes (requested :: rest) = .error e := by
  simp [tensors, h, bind, Except.bind]

theorem tensors_cons_eq_ok (h : p.tensors bytes (requested :: rest) = .ok (ts, q)) :
    ∃ t p' us, p.tensor bytes requested = .ok (t, p') ∧ p'.tensors bytes rest = .ok (us, q) ∧
      ts = t :: us := by
  cases hfirst : p.tensor bytes requested with
  | error e =>
    rw [tensors_cons_error hfirst] at h
    exact nomatch h
  | ok x =>
    obtain ⟨t, p'⟩ := x
    rw [tensors_cons hfirst] at h
    cases hrest : p'.tensors bytes rest with
    | error e =>
      rw [hrest] at h
      exact nomatch h
    | ok y =>
      obtain ⟨us, q'⟩ := y
      rw [hrest] at h
      obtain ⟨rfl, rfl⟩ := Prod.mk.inj (Except.ok.inj h)
      exact ⟨t, p', us, rfl, hrest, rfl⟩

theorem length_tensors (h : p.tensors bytes counts = .ok (ts, q)) : ts.length = counts.length := by
  induction counts generalizing p ts with
  | nil =>
    obtain ⟨rfl, -⟩ := Prod.mk.inj (Except.ok.inj h)
    rfl
  | cons requested rest ih =>
    obtain ⟨t, p', us, -, hrest, rfl⟩ := tensors_cons_eq_ok h
    rw [List.length_cons, List.length_cons, ih hrest]

/-- Reading some tensors and then some more. -/
theorem tensors_append (bytes : Bytes) (p : Parser) (counts rest : List UInt32) :
    p.tensors bytes (counts ++ rest) =
      (p.tensors bytes counts).bind fun x =>
        (x.2.tensors bytes rest).map fun y => (x.1 ++ y.1, y.2) := by
  induction counts generalizing p with
  | nil =>
    change p.tensors bytes rest = (p.tensors bytes rest).map fun y => ([] ++ y.1, y.2)
    cases p.tensors bytes rest <;> rfl
  | cons requested counts ih =>
    rw [List.cons_append]
    cases hfirst : p.tensor bytes requested with
    | error e =>
      rw [tensors_cons_error hfirst, tensors_cons_error hfirst]
      rfl
    | ok x =>
      obtain ⟨t, q⟩ := x
      rw [tensors_cons hfirst, tensors_cons hfirst, ih]
      cases q.tensors bytes counts with
      | error e => rfl
      | ok y =>
        change ((y.2.tensors bytes rest).map _).map _ = (y.2.tensors bytes rest).map _
        cases y.2.tensors bytes rest <;> rfl

end Tensors

/-- **All records that are taken lie inside the bytes.** -/
theorem stop_le_of_tensors {counts : List UInt32} {ts : List Tensor}
    (h : p.tensors bytes counts = .ok (ts, q)) :
    ∀ record ∈ recordsFrom bytes p.cursor counts.length, record.stop ≤ bytes.size := by
  induction counts generalizing p ts with
  | nil => exact fun _ hr => nomatch hr
  | cons requested rest ih =>
    obtain ⟨t, p', us, hfirst, hrest, -⟩ := tensors_cons_eq_ok h
    obtain ⟨hm, -, -, rfl⟩ := tensor_eq_ok_iff.1 hfirst
    rintro record hr
    rcases List.mem_cons.1 hr with rfl | hr
    · exact Nat.le_of_not_lt fun hlt => hm (.inr (.inr (.inr (.inr hlt))))
    · exact ih hrest record hr

/-- **Bytes in front of `k` decide on the tensors whose records end there.** -/
theorem tensors_congr {k : Nat} (hab : Agree k a b) (hk : k ≤ b.size) {counts : List UInt32}
    {ts : List Tensor} (h : p.tensors a counts = .ok (ts, q))
    (hstop : ∀ record ∈ recordsFrom a p.cursor counts.length, record.stop ≤ k) :
    p.tensors b counts = .ok (ts, q) ∧
      recordsFrom b p.cursor counts.length = recordsFrom a p.cursor counts.length := by
  induction counts generalizing p ts with
  | nil => exact ⟨h, rfl⟩
  | cons requested rest ih =>
    obtain ⟨t, p', us, hfirst, hrest, rfl⟩ := tensors_cons_eq_ok h
    have hend : (recordAt a p.cursor).stop ≤ k := hstop _ List.mem_cons_self
    have hin : p.cursor + recordBytes ≤ k := Nat.le_trans (le_stop_recordAt a p.cursor) hend
    have htake := tensor_congr hab hin (Nat.le_trans hend hk) hfirst
    obtain ⟨-, -, rfl, rfl⟩ := tensor_eq_ok_iff.1 hfirst
    rw [show p.content b (recordAt a p.cursor) requested =
      p.content a (recordAt a p.cursor) requested by
        rw [content, content, hab.blocksAt hend]] at htake
    obtain ⟨hb, hrecords⟩ := ih hrest fun record hr => hstop record (List.mem_cons_of_mem _ hr)
    constructor
    · rw [tensors_cons htake, hb]
      rfl
    · rw [List.length_cons, recordsFrom, recordsFrom, ← hab.recordAt hin]
      exact congrArg _ hrecords

/-- **Where bytes are cut off, a record that needs more of them is refused.**  Up to `k` the bytes
are those of `a`; a record whose first bytes are not all in front of `k` is not there.  Of a record
that is there, blocks behind `k` may be others. -/
theorem tensors_cut {k : Nat} (hab : Agree k a b)
    (hcut : ∀ position, k < position + recordBytes → b.size < (recordAt b position).stop)
    {counts : List UInt32} {ts : List Tensor} (h : p.tensors a counts = .ok (ts, q)) :
    ((∀ record ∈ recordsFrom a p.cursor counts.length,
        record.start ≤ k ∧ record.stop ≤ b.size) ∧
      ∃ us, p.tensors b counts = .ok (us, q)) ∨
    (∃ record ∈ recordsFrom a p.cursor counts.length, k < record.start ∨ b.size < record.stop) ∧
      ∃ e, p.tensors b counts = .error e ∧ e.kind = .format := by
  induction counts generalizing p ts with
  | nil =>
    obtain ⟨rfl, rfl⟩ := Prod.mk.inj (Except.ok.inj h)
    exact .inl ⟨fun _ hr => (nomatch hr), [], rfl⟩
  | cons requested rest ih =>
    obtain ⟨t, p', us, hfirst, hrest, rfl⟩ := tensors_cons_eq_ok h
    have hhead : recordAt a p.cursor ∈ recordsFrom a p.cursor (requested :: rest).length :=
      List.mem_cons_self
    have hnext : p' = p.after (recordAt a p.cursor) requested :=
      (tensor_eq_ok_iff.1 hfirst).2.2.2.symm
    by_cases hin : p.cursor + recordBytes ≤ k
    · -- The first bytes of the record are in front of the cut, so it is the record of `a`.
      by_cases hstop : (recordAt a p.cursor).stop ≤ b.size
      · have htake := tensor_congr hab hin hstop hfirst
        subst hnext
        rcases ih hrest with ⟨hall, us', hus'⟩ | ⟨⟨record, hr, hneeds⟩, e, he, hf⟩
        · refine .inl ⟨?_, _ :: us', by rw [tensors_cons htake, hus']; rfl⟩
          rintro record hr
          rcases List.mem_cons.1 hr with rfl | hr
          · exact ⟨hin, hstop⟩
          · exact hall record hr
        · exact .inr ⟨⟨record, List.mem_cons_of_mem _ hr, hneeds⟩, e,
            by rw [tensors_cons htake, he]; rfl, hf⟩
      · have htorn : b.size < (recordAt b p.cursor).stop :=
          hab.recordAt hin ▸ Nat.lt_of_not_le hstop
        obtain ⟨e, he, hf⟩ := tensor_torn htorn
        exact .inr ⟨⟨_, hhead, .inr (Nat.lt_of_not_le hstop)⟩, e, tensors_cons_error he, hf⟩
    · obtain ⟨e, he, hf⟩ := tensor_torn (hcut p.cursor (Nat.lt_of_not_le hin))
      exact .inr ⟨⟨_, hhead, .inl (Nat.lt_of_not_le hin)⟩, e, tensors_cons_error he, hf⟩

end Parser
end Blob
end WeightLink
