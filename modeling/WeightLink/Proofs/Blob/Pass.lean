/-
# A blob is read in one pass

A reader looks at the magic, and then at the records from front to back: every read starts where
the one before it has ended, up to the padding between two records.  So what holds of a source that
is read in this way (`Source.Passes`) holds between any two tensors (`Reader.tensor_passes`).

The records lie side by side, each of them on whole words.  With their padding they are what is
between the cursor of a parser and the cursor that it ends with (`Parser.tensors_tile`), and these
are the bytes that it counts (`Parser.tensors_cursor`).
-/

import WeightLink.Proofs.Action.Triple
import WeightLink.Proofs.Blob.Parser
import WeightLink.Proofs.Blob.Request

namespace WeightLink

open WeightLink.Action (Triple)

namespace Blob

/-! ### Records side by side -/

namespace Parser

variable {bytes : Bytes} {counts : List UInt32} {ts : List Tensor} {p q : Parser}

/-- A parser counts the bytes that it goes through. -/
theorem tensors_cursor (h : p.tensors bytes counts = .ok (ts, q)) (hp : p.cursor % 4 = 0) :
    p.cursor ≤ q.cursor ∧ q.cursor % 4 = 0 ∧
      q.stats.bytes + p.cursor = p.stats.bytes + q.cursor := by
  induction counts generalizing p ts with
  | nil =>
    obtain ⟨-, rfl⟩ := Prod.mk.inj (Except.ok.inj h)
    exact ⟨Nat.le_refl _, hp, rfl⟩
  | cons requested rest ih =>
    obtain ⟨t, p', us, hfirst, hrest, -⟩ := tensors_cons_eq_ok h
    obtain ⟨-, -, -, rfl⟩ := tensor_eq_ok_iff.1 hfirst
    obtain ⟨hstop, -, haligned⟩ := alignUp_spec (recordAt bytes p.cursor).stop
    have hbehind := le_stop_recordAt bytes p.cursor
    have hbytes : (p.after (recordAt bytes p.cursor) requested).stats.bytes =
        p.stats.bytes + (alignUp (recordAt bytes p.cursor).stop - p.cursor) := by
      rw [after_eq]
      rfl
    obtain ⟨hle, hq, hcount⟩ := ih hrest haligned
    rw [cursor_after] at hle hcount
    exact ⟨by omega, hq, by omega⟩

/-- A parser ends with the bytes, or with the word that they end in. -/
theorem cursor_le_of_tensors (h : p.tensors bytes counts = .ok (ts, q)) :
    q.cursor ≤ max p.cursor (alignUp bytes.size) := by
  induction counts generalizing p ts with
  | nil =>
    obtain ⟨-, rfl⟩ := Prod.mk.inj (Except.ok.inj h)
    exact Nat.le_max_left _ _
  | cons requested rest ih =>
    obtain ⟨t, p', us, hfirst, hrest, -⟩ := tensors_cons_eq_ok h
    obtain ⟨hm, -, -, rfl⟩ := tensor_eq_ok_iff.1 hfirst
    have hstop := (not_malformed_iff.1 (not_refuses_iff.1 hm).2).2.2
    have hle := ih hrest
    rw [cursor_after] at hle
    unfold alignUp at hle ⊢
    omega

/-- **Records lie side by side**, with their padding, from the cursor of a parser to the cursor
that it ends with. -/
theorem tensors_tile (h : p.tensors bytes counts = .ok (ts, q)) (hp : p.cursor % 4 = 0)
    (position : Nat) :
    (∃ record ∈ recordsFrom bytes p.cursor counts.length,
      record.position ≤ position ∧ position < alignUp record.stop) ↔
    p.cursor ≤ position ∧ position < q.cursor := by
  induction counts generalizing p ts with
  | nil =>
    obtain ⟨-, rfl⟩ := Prod.mk.inj (Except.ok.inj h)
    refine ⟨fun ⟨_, hr, _⟩ => (nomatch hr), fun ⟨hle, hlt⟩ => ?_⟩
    exact absurd hle (Nat.not_le_of_lt hlt)
  | cons requested rest ih =>
    obtain ⟨t, p', us, hfirst, hrest, -⟩ := tensors_cons_eq_ok h
    obtain ⟨-, -, -, rfl⟩ := tensor_eq_ok_iff.1 hfirst
    obtain ⟨hstop, -, haligned⟩ := alignUp_spec (recordAt bytes p.cursor).stop
    have hbehind := le_stop_recordAt bytes p.cursor
    obtain ⟨hle, -⟩ := tensors_cursor hrest haligned
    have hlater := ih hrest haligned
    have hfront : (recordAt bytes p.cursor).position = p.cursor := rfl
    simp only [cursor_after] at hle hlater
    simp only [List.length_cons, recordsFrom, List.mem_cons, exists_eq_or_imp, hfront, hlater]
    omega

end Parser
end Blob

/-! ### A source that is read in one pass -/

variable {σ : Type} [Source σ] {fresh : σ → Prop} {I : Nat → σ → Prop}

/-- What holds of a source from which the magic is read, and then what is behind the header from
front to back: `I position` after all bytes in front of a position.  A read may fail. -/
structure Source.Passes (fresh : σ → Prop) (I : Nat → σ → Prop) : Prop where
  magic : Triple fresh (Source.read 0 4 : Action σ (Vector UInt8 4))
    (fun _ => I Blob.headerBytes) fun _ _ => True
  read : ∀ position n, Blob.headerBytes ≤ position →
    Triple (I position) (Source.read position n : Action σ (Vector UInt8 n))
      (fun _ => I (position + n)) fun _ _ => True
  align : ∀ position s, Blob.headerBytes ≤ position → I position s → I (Blob.alignUp position) s

namespace Source.Passes

theorem readWord (h : Source.Passes fresh I) {position : Nat}
    (hp : Blob.headerBytes ≤ position) :
    Triple (I position) (Source.readWord position : Action σ UInt32)
      (fun _ => I (position + 4)) fun _ _ => True :=
  .bind (h.read position 4 hp) fun _ => .pure fun _ hs => hs

theorem blocks (h : Source.Passes fresh I) (d : Decoder) {start : Nat}
    (hs : Blob.headerBytes ≤ start) (n : Nat) :
    Triple (I start) (Blob.Reader.blocks d start n : Action σ (Array Int8))
      (fun _ => I (start + n * Blob.blockBytes)) fun _ _ => True := by
  induction n with
  | zero => exact .pure fun s hs => by simpa using hs
  | succ n ih =>
    have hlast := h.read (start + n * Blob.blockBytes) 18 (Nat.le_trans hs (Nat.le_add_right _ _))
    refine .bind ih fun _ => .bind hlast fun _ => .pure fun s hs => ?_
    rwa [Nat.succ_mul, ← Nat.add_assoc]

end Source.Passes

namespace Blob
namespace Reader

/-- A reader with some source that is about to read the record at a position. -/
def At (P : σ → Prop) (position : Nat) (r : Reader σ) : Prop := P r.source ∧ r.cursor = position

/-- A reader that has read all bytes in front of its cursor. -/
def Between (I : Nat → σ → Prop) (r : Reader σ) : Prop :=
  headerBytes ≤ r.cursor ∧ I r.cursor r.source

omit [Source σ] in
theorem onSource_passes {α : Type} {P Q : σ → Prop} {m : Action σ α}
    (h : Triple P m (fun _ => Q) fun _ _ => True) (position : Nat) :
    Triple (At P position) (onSource m) (fun _ => At Q position) fun _ _ => True :=
  (h.within Reader.source (fun source r => { r with source }) (fun r => r.cursor = position)
    (fun _ _ => rfl) fun _ _ hr => hr).imp_error fun _ _ _ => trivial

/-- A reset looks at the magic only. -/
theorem reset_passes (h : Source.Passes fresh I) :
    Triple (fun r => fresh r.source) (reset : Action (Reader σ) Bool)
      (fun ok r => ok = true → Between I r) fun _ _ => True := by
  refine .bind (Q := fun _ => At fresh headerBytes) (.modify fun r hr => ⟨hr, rfl⟩) fun _ =>
    .get fun r _ => ?_
  dsimp only
  split
  · exact .bind (.log _) fun _ => .pure fun _ _ => fun hn => (nomatch hn)
  have hmagic : Triple fresh (Source.readWord 0 : Action σ UInt32) (fun _ => I headerBytes)
      fun _ _ => True := .bind h.magic fun _ => .pure fun _ hs => hs
  refine .bind (onSource_passes hmagic headerBytes) fun magic =>
    .bind (Q := fun _ => At (I headerBytes) headerBytes) (.modify fun r hr => hr) fun _ => ?_
  split
  · exact .bind (.log _) fun _ => .pure fun _ _ => fun hn => (nomatch hn)
  · refine .bind (.log _) fun _ =>
      .bind (Q := fun _ => At (I headerBytes) headerBytes) (.modify fun r hr => hr) fun _ =>
      .pure fun r ⟨hs, hp⟩ _ => ?_
    rw [Between, hp]
    exact ⟨Nat.le_refl _, hs⟩

/-- What describes a record is read. -/
theorem record_passes (h : Source.Passes fresh I) {position : Nat}
    (hp : headerBytes ≤ position) :
    Triple (At (I position) position) (record : Action (Reader σ) Record)
      (fun record r => headerBytes ≤ record.start ∧ At (I record.start) position r)
      fun _ _ => True := by
  refine .get fun r ⟨_, hr⟩ => ?_
  rw [hr]
  split
  · exact .fail fun _ _ => trivial
  split
  · exact .fail fun _ _ => trivial
  have hfirst := onSource_passes (h.readWord hp) position
  have hsecond := onSource_passes (h.readWord (show headerBytes ≤ position + 4 by omega)) position
  exact .bind hfirst fun _ => .bind hsecond fun _ => .pure fun _ hr =>
    ⟨Nat.le_trans hp (Nat.le_add_right _ _), hr⟩

/-- The blocks of a record are read, and the reader goes on behind it. -/
theorem content_passes (h : Source.Passes fresh I) (decoder : Decoder) {record : Record}
    (hstart : headerBytes ≤ record.start) (requested : UInt32) (position : Nat) :
    Triple (At (I record.start) position)
      (content decoder requested record)
      (fun _ => Between I) fun _ _ => True := by
  have hblocks := onSource_passes (h.blocks decoder hstart record.blocks.toNat) position
  have hstop : headerBytes ≤ record.stop := Nat.le_trans hstart (Nat.le_add_right _ _)
  refine .bind hblocks fun _ => .bind (Q := fun _ => Between I) (.modify fun r hr => ?_) fun _ =>
    .pure fun _ hr => hr
  exact ⟨Nat.le_trans hstop (alignUp_spec _).1, h.align _ _ hstop hr.1⟩

/-- **Between two tensors all bytes in front of the cursor are read.** -/
theorem tensor_passes (h : Source.Passes fresh I) (requested : UInt32) :
    Triple (Between I) (tensor requested : Action (Reader σ) Tensor) (fun _ => Between I)
      fun _ _ => True := by
  refine .of_state fun r ⟨hp, hs⟩ => ?_
  have hrecord := (record_passes h hp).imp (A := fun t => t = r)
    (by rintro _ rfl; exact ⟨hs, rfl⟩) (fun _ _ hq => hq) fun _ _ _ => trivial
  rw [tensor_eq]
  refine .get fun r' _ => .bind hrecord fun record => .of_pre fun hstart =>
    .bind ((Triple.check _).imp_error fun _ _ _ => trivial) fun _ => .of_pre fun _ => ?_
  have hrest := content_passes h r'.decoder hstart requested r.cursor
  unfold deliver
  split
  · exact .bind (Q := fun _ => At (I record.start) r.cursor) (.modify fun _ hr => hr) fun _ =>
      .bind (.log _) fun _ => hrest
  · exact hrest

end Reader
end Blob
end WeightLink
