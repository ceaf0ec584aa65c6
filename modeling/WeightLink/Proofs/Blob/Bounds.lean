/-
# Hostile blobs

Two counts in a record say how much is read and decoded, and both may be anything.  Whatever is in
the source and whatever is asked for, a reader reads inside its source and writes inside its
buffer (`Workspace.Safe`), and its cursor stays where records are (`Parser.Placed`).  So all sums
and products that it computes are small enough for words of 64 bits (`Figures`).  This is
`Reader.hostile_blob`, for any sequence of resets and requests (`Reader.Called`).

The checks of a record come before the first of its blocks, and each of them is needed: that the
blocks end inside the source bounds the reads, and that their elements fit the buffer bounds the
writes.
-/

import WeightLink.Proofs.Blob.InPlace
import WeightLink.Proofs.Source.AbandonedRead

namespace WeightLink

open WeightLink.Action (Along Triple)

/-! ### Sources that do not change their size -/

/-- Reading does not change how many bytes there are, whether it fails or not. -/
def Source.FixedSize (σ : Type) [Source σ] : Prop :=
  ∀ (position count : Nat) (s : σ),
    Source.size ((Source.read position count : Action σ (Vector UInt8 count)).run s).state =
      Source.size s

theorem MemorySource.fixedSize : Source.FixedSize MemorySource := fun _ _ _ => rfl

namespace Flash
namespace FlashSource

theorem size_readByte (position : Nat) (s : FlashSource) :
    ((readByte position).run s).state.window.size = s.window.size := by
  by_cases hh : s.window.Holds (Window.wordAddress position)
  · obtain ⟨held, hheld, ha⟩ := hh
    rw [run_readByte_held hheld ha]
  · rw [run_readByte_fetch hh]
    rcases (Link.readWord (Window.wordAddress position)).run s.link with ⟨_ | word, after, es⟩ <;>
      rfl

theorem fixedSize : Source.FixedSize FlashSource := by
  intro position count s
  have hbytes : ∀ t : FlashSource,
      ((readBytes position count).run t).state.window.size = t.window.size := by
    intro t
    have hkeeps : Triple (fun u => u.window.size = t.window.size) (readBytes position count)
        (fun _ u => u.window.size = t.window.size) fun _ u => u.window.size = t.window.size :=
      readBytes_induction (I := fun _ u => u.window.size = t.window.size) fun k _ =>
        Triple.keeps_iff.2 fun u hu => (size_readByte (position + k) u).trans hu
    exact Triple.keeps_iff.1 hkeeps t rfl
  change ((read position count).run s).state.window.size = s.window.size
  cases hi : s.window.inside position count with
  | error e => simp [read, Action.run_bind, hi]
  | ok u =>
    rw [run_read hi, hbytes]
    split <;> rfl

end FlashSource
end Flash

namespace Blob

/-! ### Accesses inside the source and the buffer -/

/-- The access is inside a source of some size, or inside a buffer of some room. -/
def Access.Inside (size room : Nat) : Access → Prop
  | .read position count => position + count ≤ size
  | .write place count => place + count ≤ room

theorem size_overwrite {buffer values : Array Int8} {place : Nat}
    (h : place + values.size ≤ buffer.size) :
    (overwrite buffer place values).size = buffer.size := by
  simp [overwrite]
  omega

namespace Workspace

variable {σ : Type} [Source σ] {size room : Nat}

/-- The source and the buffer have the size they had, and all accesses were inside. -/
structure Safe (size room : Nat) (w : Workspace σ) : Prop where
  size_eq : Source.size w.source = size
  scratch_eq : w.scratch.size = room
  inside : ∀ a ∈ w.accesses, a.Inside size room

theorem Safe.concat {w : Workspace σ} (h : w.Safe size room) {a : Access}
    (ha : a.Inside size room) : ∀ b ∈ (w.accessed a).accesses, b.Inside size room := by
  intro b hb
  rcases List.mem_append.1 hb with hb | hb
  · exact h.inside b hb
  · rwa [List.mem_singleton.1 hb]

theorem safe_store {place : Nat} {values : Array Int8} (hroom : place + values.size ≤ room) :
    Triple (Safe size room : Workspace σ → Prop) (store place values) (fun _ => Safe size room)
      fun _ => Safe size room :=
  .modify fun _ h => ⟨h.size_eq, (size_overwrite (h.scratch_eq.symm ▸ hroom)).trans h.scratch_eq,
    h.concat hroom⟩

variable (hfixed : Source.FixedSize σ)
include hfixed

theorem safe_read {position count : Nat} (hin : position + count ≤ size) :
    Triple (Safe size room : Workspace σ → Prop)
      (Source.read position count : Action (Workspace σ) (Vector UInt8 count))
      (fun _ => Safe size room) fun _ => Safe size room :=
  Triple.keeps_iff.2 fun w h => by
    rw [run_read]
    exact ⟨(hfixed position count w.source).trans h.size_eq, h.scratch_eq, h.concat hin⟩

theorem safe_readWord {position : Nat} (hin : position + 4 ≤ size) :
    Triple (Safe size room : Workspace σ → Prop) (Source.readWord position)
      (fun _ => Safe size room) fun _ => Safe size room :=
  .bind (safe_read hfixed hin) fun _ => .pure fun _ h => h

/-- **Blocks inside the source whose elements fit the buffer** are read inside the one and written
inside the other. -/
theorem safe_fill (decoder : Decoder) {start n : Nat} (hin : start + n * blockBytes ≤ size)
    (hroom : n * blockElements ≤ room) :
    Triple (Safe size room : Workspace σ → Prop) (fill decoder start n) (fun _ => Safe size room)
      fun _ => Safe size room := by
  unfold blockBytes blockElements at *
  induction n with
  | zero => exact .pure fun _ h => h
  | succ n ih =>
    have hread : start + n * blockBytes + 18 ≤ size := by
      unfold blockBytes
      omega
    refine .bind (ih (by omega) (by omega)) fun _ => .bind (safe_read hfixed hread) fun block => ?_
    refine safe_store ?_
    rw [Vector.size_toArray]
    unfold blockElements
    omega

/-- What is given out is the part of the buffer that was filled. -/
theorem safe_blocks (decoder : Decoder) {start n : Nat} (hin : start + n * blockBytes ≤ size)
    (hroom : n * blockElements ≤ room) :
    Triple (Safe size room : Workspace σ → Prop) (blocks decoder start n)
      (fun values w => values.size = n * blockElements ∧ w.Safe size room)
      fun _ => Safe size room := by
  refine .bind (safe_fill hfixed decoder hin hroom) fun _ => .get fun w h => .pure fun w' h' => ?_
  refine ⟨?_, h'⟩
  rw [Array.take_eq_extract, Array.size_extract, h.scratch_eq]
  omega

end Workspace

/-! ### Where the cursor may be -/

namespace Parser

/-- The cursor is at the start, where no record is read, or at a place where a record may start;
past the first record it is at most the padding behind the end.  The counters are bounded by
it. -/
structure Placed (size : Nat) (p : Parser) : Prop where
  start : p.cursor = 0 ∧ p.accepted = false ∨ headerBytes ≤ p.cursor ∧ p.cursor % 4 = 0
  reach : p.cursor ≤ headerBytes ∨ p.cursor < size + 4
  counted : recordBytes * p.stats.tensors + blockBytes * p.stats.blocks ≤ p.cursor
  bytes_le : p.stats.bytes ≤ p.cursor

/-- The cursor is at the first record and nothing was counted since then. -/
structure Opened (capacity : Nat) (p : Parser) : Prop where
  capacity_eq : p.capacity = capacity
  cursor_eq : p.cursor = headerBytes
  tensors_eq : p.stats.tensors = 0
  blocks_eq : p.stats.blocks = 0
  bytes_le : p.stats.bytes ≤ headerBytes
  warnings_eq : p.stats.warnings = 0

variable {size capacity : Nat} {p : Parser}

theorem Opened.placed (h : p.Opened capacity) : p.Placed size where
  start := .inr ⟨Nat.le_of_eq h.cursor_eq.symm, by rw [h.cursor_eq]; rfl⟩
  reach := .inl (Nat.le_of_eq h.cursor_eq)
  counted := by simp [h.tensors_eq, h.blocks_eq]
  bytes_le := h.cursor_eq ▸ h.bytes_le

theorem Placed.warned (h : p.Placed size) : p.warned.Placed size :=
  ⟨h.start, h.reach, h.counted, h.bytes_le⟩

/-- **Behind a record inside the source** the cursor is where the next record may start, at least
the eight bytes of an empty one further. -/
theorem Placed.after (h : p.Placed size) (ha : p.accepted = true) {record : Record}
    (hposition : record.position = p.cursor) (hstop : record.stop ≤ size) (requested : UInt32) :
    (p.after record requested).Placed size ∧
      p.cursor + recordBytes ≤ (p.after record requested).cursor ∧
      (p.after record requested).cursor < size + 4 ∧ headerBytes + recordBytes ≤ size := by
  obtain ⟨hle, hlt, hmod⟩ := alignUp_spec record.stop
  have hstop_eq : record.stop = p.cursor + 8 + record.blocks.toNat * 18 := by
    rw [← hposition]
    rfl
  obtain ⟨hstart, -⟩ : headerBytes ≤ p.cursor ∧ p.cursor % 4 = 0 :=
    h.start.resolve_left fun hzero => Bool.false_ne_true (hzero.2.symm.trans ha)
  have hcounted : recordBytes * (p.stats.tensors + 1) +
      blockBytes * (p.stats.blocks + record.blocks.toNat) ≤ alignUp record.stop := by
    have hbefore := h.counted
    unfold recordBytes blockBytes at *
    omega
  have hbytes : p.stats.bytes + (alignUp record.stop - record.position) ≤
      alignUp record.stop := by
    have hbefore := h.bytes_le
    omega
  have hnext : p.cursor + recordBytes ≤ alignUp record.stop := by
    unfold recordBytes
    omega
  have hfirst : headerBytes ≤ alignUp record.stop :=
    Nat.le_trans hstart (Nat.le_trans (Nat.le_add_right _ _) hnext)
  have hreach : alignUp record.stop < size + 4 := by omega
  have hsize : headerBytes + recordBytes ≤ size := by
    unfold recordBytes
    omega
  rw [after_eq]
  exact ⟨⟨.inr ⟨hfirst, hmod⟩, .inr hreach, hcounted, hbytes⟩, hnext, hreach, hsize⟩

end Parser

/-! ### One call -/

namespace Reader

variable {σ : Type} {size room : Nat} {p : Parser}

/-- What an action of the source keeps, the reader keeps together with everything else. -/
theorem framed_onSource {τ α : Type} {I : τ → Prop} {Q : α → Prop} {m : Action τ α}
    (h : Triple I m (fun a s => Q a ∧ I s) fun _ => I) (F : Parser → Prop) :
    Triple (fun r : Reader τ => I r.source ∧ F r.bare) (onSource m)
      (fun a r => Q a ∧ I r.source ∧ F r.bare) fun _ r => I r.source ∧ F r.bare :=
  (h.within Reader.source (fun source r => { r with source }) (fun r => F r.bare)
    (fun _ _ => rfl) fun _ _ hr => hr).imp
      (fun _ hr => hr) (fun _ _ hr => and_assoc.1 hr) fun _ _ hr => hr

/-- A reader over a safe workspace that is where a parser is. -/
abbrev SafeAt [Source σ] (size room : Nat) (p : Parser) : Reader (Workspace σ) → Prop :=
  Follows (Workspace.Safe size room) p

variable [Source σ] (hfixed : Source.FixedSize σ)
include hfixed

theorem safe_onReadWord {position : Nat} (hin : position + 4 ≤ size) (F : Parser → Prop) :
    Triple (fun r : Reader (Workspace σ) => r.source.Safe size room ∧ F r.bare)
      (onSource (Source.readWord position)) (fun _ r => r.source.Safe size room ∧ F r.bare)
      fun _ r => r.source.Safe size room ∧ F r.bare :=
  (framed_onSource (Q := fun _ => True)
    ((Workspace.safe_readWord hfixed hin).imp (fun _ h => h) (fun _ _ h => ⟨trivial, h⟩)
      fun _ _ h => h) F).imp (fun _ h => h) (fun _ _ h => h.2) fun _ _ h => h

/-- **A reset is safe**, and leaves the reader in front of the first record, also if it fails. -/
theorem safe_reset (capacity : Nat) :
    Triple
      (fun r : Reader (Workspace σ) => r.source.Safe size room ∧ r.bare.capacity = capacity)
      reset
      (fun _ r => r.source.Safe size room ∧ r.bare.Opened capacity)
      fun _ r => r.source.Safe size room ∧ r.bare.Opened capacity := by
  have hopened : Triple
      (fun r : Reader (Workspace σ) => r.source.Safe size room ∧ r.bare.capacity = capacity)
      (Action.modify fun r =>
        { r with cursor := headerBytes, magic := 0, variant := .unknown, stats := .zero })
      (fun _ r => r.source.Safe size room ∧ r.bare.Opened capacity)
      fun _ r => r.source.Safe size room ∧ r.bare.Opened capacity :=
    .modify fun r hr => ⟨hr.1, hr.2, rfl, rfl, rfl, Nat.zero_le _, rfl⟩
  refine .bind hopened fun _ => .get fun r hr => ?_
  dsimp only
  split
  · exact .bind (.log _) fun _ => .pure fun _ hr => hr
  rename_i hsize
  have hin : 0 + 4 ≤ size := by
    have hheader : ¬Source.size r.source.source < headerBytes := hsize
    rw [hr.1.size_eq] at hheader
    unfold headerBytes at hheader
    omega
  refine .bind (safe_onReadWord hfixed hin fun p => p.Opened capacity) fun magic => ?_
  have hmagic : Triple
      (fun r : Reader (Workspace σ) => r.source.Safe size room ∧ r.bare.Opened capacity)
      (Action.modify fun r => { r with magic, variant := Variant.ofMagic magic })
      (fun _ r => r.source.Safe size room ∧ r.bare.Opened capacity)
      fun _ r => r.source.Safe size room ∧ r.bare.Opened capacity :=
    .modify fun r hr => ⟨hr.1, { hr.2 with }⟩
  refine .bind hmagic fun _ => ?_
  split
  · exact .bind (.log _) fun _ => .pure fun _ hr => hr
  · exact .bind (.log _) fun _ => .bind (.modify fun r hr =>
      ⟨hr.1, { hr.2 with bytes_le := Nat.le_refl _ }⟩) fun _ => .pure fun _ hr => hr

/-- What describes a record is read inside the source, or not at all. -/
theorem safe_record (p : Parser) :
    Triple (SafeAt size room p : Reader (Workspace σ) → Prop) record
      (fun found r => (found.position = p.cursor ∧ p.accepted = true) ∧ SafeAt size room p r)
      fun _ => SafeAt size room p := by
  refine .get fun r hr => ?_
  obtain ⟨hs, rfl⟩ := hr
  split
  · exact .fail fun _ hr => hr
  rename_i haccepted
  split
  · exact .fail fun _ hr => hr
  rename_i hsize
  have hin : r.cursor + 8 ≤ size := by
    have hheader : ¬Source.size r.source.source < r.cursor + recordBytes := hsize
    rw [hs.size_eq] at hheader
    unfold recordBytes at hheader
    omega
  have ha : r.accepted = true := by simpa using haccepted
  exact .bind (safe_onReadWord hfixed (show r.cursor + 4 ≤ size by omega) (· = r.bare)) fun _ =>
    .bind (safe_onReadWord hfixed (show r.cursor + 4 + 4 ≤ size by omega) (· = r.bare)) fun _ =>
      .pure fun _ hr => ⟨⟨rfl, ha⟩, hr⟩

variable {requested : UInt32} {found : Record}

/-- Blocks that end inside the source and fit the buffer are decoded safely. -/
theorem safe_content (decoder : Decoder) (p : Parser) (hstop : found.stop ≤ size)
    (hroom : found.capacity ≤ room) :
    Triple (SafeAt size room p : Reader (Workspace σ) → Prop)
      (contentInPlace decoder requested found)
      (fun t r => (t.count = requested ∧ t.values.size = found.capacity) ∧
        SafeAt size room (p.behind found) r)
      fun _ => SafeAt size room p := by
  refine .bind (framed_onSource (Workspace.safe_blocks hfixed decoder hstop hroom) (· = p))
    fun values => .of_pre fun hvalues => ?_
  exact .bind (modify_follows (Parser.behind found) p fun _ => ⟨rfl, rfl⟩) fun _ =>
    .pure fun r hr => ⟨⟨rfl, hvalues⟩, hr⟩

/-- **A request is safe.**  If it succeeds, it has found a record that passed its check. -/
theorem safe_tensor (p : Parser) (hcapacity : p.capacity = room) (requested : UInt32) :
    Triple (SafeAt size room p : Reader (Workspace σ) → Prop) (tensorInPlace requested)
      (fun t r => ∃ found : Record, found.position = p.cursor ∧ p.accepted = true ∧
        found.check requested size room = .ok () ∧ t.count = requested ∧
        t.values.size = found.capacity ∧ SafeAt size room (p.after found requested) r)
      fun _ r => SafeAt size room p r ∨ SafeAt size room p.warned r := by
  refine .get fun r hr => .bind ((safe_record hfixed p).imp_error fun _ _ => .inl) fun found =>
    .of_pre fun hfound => ?_
  obtain ⟨hposition, ha⟩ := hfound
  have hsize : Source.size r.source = size := hr.1.size_eq
  have hroom : r.capacity = room := (congrArg Reader.capacity hr.2).trans hcapacity
  rw [hsize, hroom]
  refine .bind ((Triple.check _).imp_error fun _ _ hq => .inl hq.2) fun _ =>
    .of_pre fun hcheck => ?_
  obtain ⟨-, -, hstop, hfits⟩ := Record.check_eq_ok_iff.1 hcheck
  unfold deliverInPlace
  split
  · rename_i hne
    refine .bind (modify_follows (Parser.warned) p fun _ => ⟨rfl, rfl⟩) fun _ =>
      .bind (.log _) fun _ => ?_
    refine (safe_content hfixed r.decoder p.warned hstop hfits).imp (fun _ hr => hr)
      (fun t r ht => ?_) fun _ _ => .inr
    refine ⟨found, hposition, ha, hcheck, ht.1.1, ht.1.2, ?_⟩
    rw [Parser.after, if_neg hne]
    exact ht.2
  · rename_i heq
    refine (safe_content hfixed r.decoder p hstop hfits).imp (fun _ hr => hr)
      (fun t r ht => ?_) fun _ _ => .inl
    refine ⟨found, hposition, ha, hcheck, ht.1.1, ht.1.2, ?_⟩
    rw [Parser.after, if_pos (by simpa using heq)]
    exact ht.2

end Reader

/-! ### Words of 64 bits -/

/-- The sums and products of a request that finds a record, and of one of its blocks, in the order
in which they are computed. -/
structure Figures (α : Type) where
  /-- The end of the two counts. -/
  counted : α
  second : α
  capacity : α
  start : α
  length : α
  stop : α
  blockOffset : α
  blockStart : α
  place : α
  padded : α
  lastPadded : α
  words : α
  next : α
  advance : α
  tensors : α
  blocks : α
  bytes : α
  deriving DecidableEq, Repr

namespace Figures

/-- The figures in any arithmetic. -/
def compute {α : Type} [Add α] [Sub α] [Mul α] [Div α] [∀ n, OfNat α n]
    (position blocks block tensors total bytes : α) : Figures α :=
  let start := position + 8
  let stop := start + blocks * 18
  let padded := stop + 4
  let lastPadded := padded - 1
  let words := lastPadded / 4
  let next := words * 4
  let advance := next - position
  { counted := position + 8
    second := position + 4
    capacity := blocks * 32
    start
    length := blocks * 18
    stop
    blockOffset := block * 18
    blockStart := start + block * 18
    place := block * 32
    padded
    lastPadded
    words
    next
    advance
    tensors := tensors + 1
    blocks := total + blocks
    bytes := bytes + advance }

/-- All figures under a map. -/
def map {α β : Type} (f : α → β) (x : Figures α) : Figures β where
  counted := f x.counted
  second := f x.second
  capacity := f x.capacity
  start := f x.start
  length := f x.length
  stop := f x.stop
  blockOffset := f x.blockOffset
  blockStart := f x.blockStart
  place := f x.place
  padded := f x.padded
  lastPadded := f x.lastPadded
  words := f x.words
  next := f x.next
  advance := f x.advance
  tensors := f x.tensors
  blocks := f x.blocks
  bytes := f x.bytes

end Figures

/-- What the figures of a record and of one of its blocks are to a reader with some counters. -/
def Record.figures (record : Record) (block : Nat) (stats : Stats) : Figures Nat where
  counted := record.start
  second := record.position + 4
  capacity := record.capacity
  start := record.start
  length := record.blocks.toNat * blockBytes
  stop := record.stop
  blockOffset := block * blockBytes
  blockStart := record.start + block * blockBytes
  place := block * blockElements
  padded := record.stop + 4
  lastPadded := record.stop + 3
  words := (record.stop + 3) / 4
  next := alignUp record.stop
  advance := alignUp record.stop - record.position
  tensors := stats.tensors + 1
  blocks := stats.blocks + record.blocks.toNat
  bytes := stats.bytes + (alignUp record.stop - record.position)

namespace Figures

theorem compute_record (record : Record) (block : Nat) (stats : Stats) :
    compute record.position record.blocks.toNat block stats.tensors stats.blocks stats.bytes =
      record.figures block stats := rfl

section Words

variable {a b : UInt64} {m n : Nat} (ha : a.toNat = m) (hb : b.toNat = n)
include ha hb

theorem toNat_sum (hfits : m + n < 2 ^ 64) : (a + b).toNat = m + n := by
  rw [UInt64.toNat_add, ha, hb, Nat.mod_eq_of_lt hfits]

theorem toNat_product (hfits : m * n < 2 ^ 64) : (a * b).toNat = m * n := by
  rw [UInt64.toNat_mul, ha, hb, Nat.mod_eq_of_lt hfits]

theorem toNat_difference (hle : n ≤ m) : (a - b).toNat = m - n := by
  rw [UInt64.toNat_sub_of_le _ _ (UInt64.le_iff_toNat_le.2 (by rwa [ha, hb])), ha, hb]

end Words

/-- **No figure wraps** if the record is not far behind what may be in a source, and the counters
are those of the records in front of it. -/
theorem compute_exact {record : Record} {block : Nat} {stats : Stats}
    (hposition : record.position < 2 ^ 63 + 4) (hblock : block ≤ record.blocks.toNat)
    (hcounted : recordBytes * stats.tensors + blockBytes * stats.blocks ≤ record.position)
    (hbytes : stats.bytes ≤ record.position) :
    (compute (UInt64.ofNat record.position) record.blocks.toUInt64 (UInt64.ofNat block)
      (UInt64.ofNat stats.tensors) (UInt64.ofNat stats.blocks)
      (UInt64.ofNat stats.bytes)).map UInt64.toNat = record.figures block stats := by
  have hblocks := record.blocks.toNat_lt
  unfold recordBytes blockBytes at hcounted
  have hstop_eq : record.stop = record.position + 8 + record.blocks.toNat * 18 := rfl
  obtain ⟨hle, hlt, -⟩ := alignUp_spec record.stop
  -- What is read off the record and the counters fits.
  have hword : ∀ n < 2 ^ 64, (UInt64.ofNat n).toNat = n := fun n hn => UInt64.toNat_ofNat_of_lt' hn
  have hcount : record.blocks.toUInt64.toNat = record.blocks.toNat := UInt32.toNat_toUInt64 _
  have hcursor := hword record.position (by omega)
  have hindex := hword block (by omega)
  have htensors := hword stats.tensors (by omega)
  have htotal := hword stats.blocks (by omega)
  have hread := hword stats.bytes (by omega)
  -- So does all that is computed from it, one after the other.
  have hstart := toNat_sum hcursor (b := 8) (n := 8) rfl (by omega)
  have hlength := toNat_product hcount (b := 18) (n := 18) rfl (by omega)
  have hoffset := toNat_product hindex (b := 18) (n := 18) rfl (by omega)
  have hstop := toNat_sum hstart hlength (by omega)
  have hpadded := toNat_sum hstop (b := 4) (n := 4) rfl (by omega)
  have hlast := toNat_difference hpadded (b := 1) (n := 1) rfl (by omega)
  have hwords := (UInt64.toNat_div _ 4).trans (congrArg (· / 4) hlast)
  have hnext := toNat_product hwords (b := 4) (n := 4) rfl (by omega)
  have hadvance := toNat_difference hnext hcursor (by omega)
  rw [← compute_record]
  simp only [compute, map, mk.injEq]
  exact ⟨hstart, toNat_sum hcursor rfl (by omega), toNat_product hcount rfl (by omega), hstart,
    hlength, hstop, hoffset, toNat_sum hstart hoffset (by omega),
    toNat_product hindex rfl (by omega), hpadded, hlast, hwords, hnext, hadvance,
    toNat_sum htensors rfl (by omega), toNat_sum htotal hcount (by omega),
    toNat_sum hread hadvance (by omega)⟩

end Figures

/-! ### Any calls -/

namespace Reader

variable {σ : Type} [Source σ] {source : σ} {decoder : Decoder} {capacity : Nat}
  {r : Reader (Workspace σ)} {answers : List (Except Fault Tensor)}

/-- The readers that a caller gets over a source by resets and requests, whether these succeed or
fail, with the answers to the requests, the latest one first.  Between the calls the source may
change in any way that leaves its size. -/
inductive Called (source : σ) (decoder : Decoder) (capacity : Nat) :
    Reader (Workspace σ) → List (Except Fault Tensor) → Prop
  | create :
      Called source decoder capacity
        (.create ⟨source, Array.replicate capacity 0, []⟩ decoder capacity) []
  | reset {r : Reader (Workspace σ)} {answers : List (Except Fault Tensor)} :
      Called source decoder capacity r answers →
        Called source decoder capacity (Reader.reset.run r).state answers
  | tensor {r : Reader (Workspace σ)} {answers : List (Except Fault Tensor)} (requested : UInt32) :
      Called source decoder capacity r answers →
        Called source decoder capacity ((tensorInPlace requested).run r).state
          (((tensorInPlace requested).run r).result :: answers)
  | meanwhile {r : Reader (Workspace σ)} {answers : List (Except Fault Tensor)} (source' : σ) :
      Called source decoder capacity r answers →
        Source.size source' = Source.size r.source.source →
          Called source decoder capacity
            { r with source := { r.source with source := source' } } answers

/-- What holds after all calls. -/
structure Bounded (size capacity : Nat) (r : Reader (Workspace σ))
    (answers : List (Except Fault Tensor)) : Prop where
  safe : r.source.Safe size capacity
  capacity_eq : r.capacity = capacity
  placed : r.bare.Placed size
  warnings_le : r.stats.warnings ≤ answers.length
  view : ∀ t, .ok t ∈ answers → t.count.toNat ≤ t.values.size ∧ t.values.size ≤ capacity
  reached : (∃ t, .ok t ∈ answers) → headerBytes + recordBytes ≤ size

namespace Bounded

variable {size : Nat} (hfixed : Source.FixedSize σ) (h : r.Bounded size capacity answers)

theorem create (source : σ) (decoder : Decoder) (capacity : Nat) :
    (Reader.create ⟨source, Array.replicate capacity 0, []⟩ decoder capacity).Bounded
      (Source.size source) capacity [] where
  safe := ⟨rfl, Array.size_replicate, fun _ ha => absurd ha List.not_mem_nil⟩
  capacity_eq := rfl
  placed := ⟨.inl ⟨rfl, rfl⟩, .inl (Nat.zero_le _), Nat.le_refl _, Nat.le_refl _⟩
  warnings_le := Nat.le_refl _
  view _ ht := absurd ht List.not_mem_nil
  reached ht := by simp at ht

include h

/-- A failure adds nothing to what was given out. -/
theorem failed {r' : Reader (Workspace σ)} {p : Parser} (hsafe : SafeAt size capacity p r')
    (hcapacity : p.capacity = r.capacity) (hplaced : p.Placed size)
    (hwarnings : p.stats.warnings ≤ r.stats.warnings + 1) (e : Fault) :
    r'.Bounded size capacity (.error e :: answers) := by
  obtain ⟨hsource, rfl⟩ := hsafe
  have hold : ∀ t, .ok t ∈ .error e :: answers → .ok t ∈ answers :=
    fun t ht => (List.mem_cons.1 ht).resolve_left nofun
  exact ⟨hsource, hcapacity.trans h.capacity_eq, hplaced,
    Nat.le_trans hwarnings (Nat.succ_le_succ h.warnings_le), fun t ht => h.view t (hold t ht),
    fun ⟨t, ht⟩ => h.reached ⟨t, hold t ht⟩⟩

theorem meanwhile {source : σ} (hsize : Source.size source = Source.size r.source.source) :
    ({ r with source := { r.source with source } } : Reader (Workspace σ)).Bounded size capacity
      answers :=
  ⟨⟨hsize.trans h.safe.size_eq, h.safe.scratch_eq, h.safe.inside⟩, h.capacity_eq, h.placed,
    h.warnings_le, h.view, h.reached⟩

include hfixed

theorem reset : (Reader.reset.run r).state.Bounded size capacity answers := by
  obtain ⟨hsafe, hopened⟩ : (Reader.reset.run r).state.source.Safe size capacity ∧
      (Reader.reset.run r).state.bare.Opened capacity := by
    have hrun := safe_reset hfixed capacity r ⟨h.safe, h.capacity_eq⟩
    revert hrun
    cases (Reader.reset.run r).result with
    | error e => exact id
    | ok a => exact id
  refine ⟨hsafe, hopened.capacity_eq, hopened.placed, ?_, h.view, h.reached⟩
  have hnone : (Reader.reset.run r).state.stats.warnings = 0 := hopened.warnings_eq
  rw [hnone]
  exact Nat.zero_le _

variable {requested : UInt32}

/-- What a request does that succeeds. -/
theorem tensor_ok {t : Tensor} (ht : ((tensorInPlace requested).run r).result = .ok t) :
    ((tensorInPlace requested).run r).state.Bounded size capacity (.ok t :: answers) ∧
      r.cursor + recordBytes ≤ ((tensorInPlace requested).run r).state.cursor ∧
      ((tensorInPlace requested).run r).state.cursor < size + 4 := by
  obtain ⟨found, hposition, ha, hcheck, hcount, hvalues, hsafe, hafter⟩ :=
    (safe_tensor hfixed r.bare h.capacity_eq requested).result_ok ⟨h.safe, rfl⟩ ht
  obtain ⟨-, hrequested, hstop, hfits⟩ := Record.check_eq_ok_iff.1 hcheck
  obtain ⟨hplaced, hadvance, hreach, hsize⟩ := h.placed.after ha hposition hstop requested
  have hcapacity := (Parser.capacity_after found requested r.bare).trans h.capacity_eq
  have hwarnings : (r.bare.after found requested).stats.warnings ≤ answers.length + 1 := by
    have hbefore : r.bare.stats.warnings ≤ answers.length := h.warnings_le
    rw [Parser.after_eq]
    dsimp only
    split <;> omega
  rw [← hafter] at hplaced hadvance hreach hcapacity hwarnings
  refine ⟨⟨hsafe, hcapacity, hplaced, hwarnings, fun u hu => ?_, fun _ => hsize⟩, hadvance, hreach⟩
  rcases List.mem_cons.1 hu with hu | hu
  · obtain rfl := Except.ok.inj hu
    rw [hcount, hvalues]
    exact ⟨hrequested, hfits⟩
  · exact h.view u hu

/-- What a request does that fails. -/
theorem tensor_error {e : Fault} (he : ((tensorInPlace requested).run r).result = .error e) :
    ((tensorInPlace requested).run r).state.Bounded size capacity (.error e :: answers) := by
  rcases (safe_tensor hfixed r.bare h.capacity_eq requested).result_error ⟨h.safe, rfl⟩ he with
    hsafe | hsafe
  · exact h.failed hsafe rfl h.placed (Nat.le_succ _) e
  · exact h.failed hsafe rfl h.placed.warned (Nat.le_refl _) e

end Bounded

theorem Called.bounded (hfixed : Source.FixedSize σ)
    (h : Called source decoder capacity r answers) :
    r.Bounded (Source.size source) capacity answers := by
  induction h with
  | create => exact .create source decoder capacity
  | reset _ ih => exact ih.reset hfixed
  | tensor requested _ ih =>
    rename_i r answers _
    cases hresult : ((tensorInPlace requested).run r).result with
    | ok t => exact (ih.tensor_ok hfixed hresult).1
    | error e => exact ih.tensor_error hfixed hresult
  | meanwhile source' _ hsize ih => exact ih.meanwhile hsize

/-- Behind a tensor the cursor is inside the source or its last padding. -/
theorem Bounded.reach {size : Nat} (h : r.Bounded size capacity answers)
    (ht : ∃ t, .ok t ∈ answers) : r.cursor < size + 4 := by
  have hsize := h.reached ht
  rcases h.placed.reach with hfirst | hreach
  · exact Nat.lt_of_le_of_lt hfirst (by unfold recordBytes at hsize; omega)
  · exact hreach

/-- The sums of an access and all figures of a request fit words of 64 bits. -/
theorem Bounded.exact {size : Nat} (h : r.Bounded size capacity answers) (hsize : size < 2 ^ 63) :
    (∀ position count, .read position count ∈ r.source.accesses →
      (UInt64.ofNat position + UInt64.ofNat count).toNat = position + count) ∧
    ∀ (record : Record) (block : Nat), record.position = r.cursor → block ≤ record.blocks.toNat →
      (Figures.compute (UInt64.ofNat r.cursor) record.blocks.toUInt64 (UInt64.ofNat block)
        (UInt64.ofNat r.stats.tensors) (UInt64.ofNat r.stats.blocks)
        (UInt64.ofNat r.stats.bytes)).map UInt64.toNat = record.figures block r.stats := by
  refine ⟨fun position count ha => ?_, fun record block hposition hblock => ?_⟩
  · have hin : position + count ≤ size := h.safe.inside _ ha
    rw [UInt64.toNat_add, UInt64.toNat_ofNat', UInt64.toNat_ofNat']
    omega
  · have hcursor : r.cursor < 2 ^ 63 + 4 := by
      rcases h.placed.reach with hfirst | hreach
      · exact Nat.lt_of_le_of_lt hfirst (by decide)
      · exact Nat.lt_of_lt_of_le hreach (by omega)
    have hcounted : recordBytes * r.stats.tensors + blockBytes * r.stats.blocks ≤ r.cursor :=
      h.placed.counted
    have hbytes : r.stats.bytes ≤ r.cursor := h.placed.bytes_le
    rw [← hposition] at hcursor hcounted hbytes ⊢
    exact Figures.compute_exact hcursor hblock hcounted hbytes

/-- **No blob is harmful.**  Over any source of a fixed size, as a blob in memory or behind a link
is, and whatever its bytes are, after any resets and requests: all reads were inside the source and
all writes inside the buffer, which still has its size; a tensor that was given out holds what was
asked for, inside the buffer; the cursor is zero or a multiple of four behind the header, and in
front of the end of the source or its last padding once a tensor was read; a request that succeeds
advances it by a record; and nothing that is computed on the way wraps.  All this is said of the
reader that decodes in place, which does what the reader does. -/
theorem hostile_blob :
    Source.FixedSize MemorySource ∧ Source.FixedSize Flash.FlashSource ∧
    ∀ {σ : Type} [Source σ], Source.FixedSize σ →
      Along plain id (reset : Action (Reader (Workspace σ)) Bool) reset ∧
      (∀ requested, Along plain id (tensorInPlace requested : Action (Reader (Workspace σ)) Tensor)
        (tensor requested)) ∧
      ∀ (source : σ) (decoder : Decoder) (capacity : Nat) {r : Reader (Workspace σ)}
        {answers : List (Except Fault Tensor)}, Called source decoder capacity r answers →
        let size := Source.size source
        (∀ a ∈ r.source.accesses, a.Inside size capacity) ∧
        r.source.scratch.size = capacity ∧
        (∀ t, .ok t ∈ answers → t.count.toNat ≤ t.values.size ∧ t.values.size ≤ capacity) ∧
        (r.cursor = 0 ∨ headerBytes ≤ r.cursor ∧ r.cursor % 4 = 0) ∧
        ((∃ t, .ok t ∈ answers) → r.cursor < size + 4) ∧
        (∀ requested t, ((tensorInPlace requested).run r).result = .ok t →
          r.cursor + recordBytes ≤ ((tensorInPlace requested).run r).state.cursor) ∧
        r.stats.warnings ≤ answers.length ∧
        (size < 2 ^ 63 →
          (∀ position count, .read position count ∈ r.source.accesses →
            (UInt64.ofNat position + UInt64.ofNat count).toNat = position + count) ∧
          ∀ (record : Record) (block : Nat), record.position = r.cursor →
            block ≤ record.blocks.toNat →
              (Figures.compute (UInt64.ofNat r.cursor) record.blocks.toUInt64 (UInt64.ofNat block)
                (UInt64.ofNat r.stats.tensors) (UInt64.ofNat r.stats.blocks)
                (UInt64.ofNat r.stats.bytes)).map UInt64.toNat = record.figures block r.stats) := by
  refine ⟨MemorySource.fixedSize, Flash.FlashSource.fixedSize, fun {σ} _ hfixed =>
    ⟨along_reset, along_tensorInPlace, fun source decoder capacity {r answers} h => ?_⟩⟩
  have hbounded := h.bounded hfixed
  refine ⟨hbounded.safe.inside, hbounded.safe.scratch_eq, hbounded.view,
    hbounded.placed.start.imp And.left id, hbounded.reach,
    fun requested t ht => (hbounded.tensor_ok hfixed ht).2.1, hbounded.warnings_le,
    hbounded.exact⟩

/-- A record of one block, and one that claims all the blocks there can be, of which nothing is
decoded. -/
theorem hostile_blob_sample :
    let source : MemorySource := ⟨sampleBytes⟩
    let first := (reset.run (.create ⟨source, Array.replicate 32 0, []⟩ .firmware 32)).state
    let second := ((tensorInPlace 1).run first).state
    let third := ((tensorInPlace 0).run second).state
    let answers := [((tensorInPlace 0).run second).result, ((tensorInPlace 1).run first).result]
    Source.FixedSize MemorySource ∧ Called source .firmware 32 third answers ∧
    Source.size source < 2 ^ 63 ∧ (∀ a ∈ third.source.accesses, a.Inside 52 32) ∧
    third.source.accesses = [.read 0 4, .read 16 4, .read 20 4, .read 24 18, .write 0 32,
      .read 44 4, .read 48 4] ∧
    first.cursor + 8 ≤ second.cursor ∧ third.cursor = 44 ∧ 44 < 52 + 4 := by
  intro source first second third answers
  obtain ⟨hmemory, -, hany⟩ := hostile_blob
  obtain ⟨-, -, hcalls⟩ := hany hmemory
  have hfirst : Called source .firmware 32 first [] := .reset .create
  have hthird : Called source .firmware 32 third answers := .tensor 0 (.tensor 1 hfirst)
  obtain ⟨t, ht⟩ := Option.isSome_iff_exists.1
    (show ((tensorInPlace 1).run first).result.toOption.isSome by decide +kernel)
  obtain ⟨-, -, -, -, -, hadvance, -⟩ := hcalls source .firmware 32 hfirst
  obtain ⟨hinside, -⟩ := hcalls source .firmware 32 hthird
  exact ⟨hmemory, hthird, by decide, hinside, by decide +kernel,
    hadvance 1 t (eq_ok_of_toOption ht), by decide +kernel, by decide⟩

end Reader
end Blob
end WeightLink
