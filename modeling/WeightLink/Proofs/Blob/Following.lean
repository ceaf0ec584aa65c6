/-
# Readers follow a parser

A source shows some bytes if every read inside them gives the bytes at its position
(`Source.Shows`).  Over such a source a reader does what the parser does with the bytes: it
accepts the same magics (`Reader.reset_follows`) and gives and refuses the same tensors
(`Reader.tensor_follows`), and it keeps the same counters.  All that a source can add is a
failure of its own.
-/

import WeightLink.Proofs.Action.Triple
import WeightLink.Proofs.Blob.Parser
import WeightLink.Proofs.Blob.Request

namespace WeightLink

open WeightLink.Action (Triple)

variable {σ : Type} [Source σ] {I : σ → Prop} {bytes : Bytes} {E : Fault → Prop}

/-- States in `I` give out some bytes, and reading does not leave `I`.  A read may fail with a
fault in `E`. -/
structure Source.Shows (I : σ → Prop) (bytes : Bytes) (E : Fault → Prop) : Prop where
  size_eq : ∀ s, I s → Source.size s = bytes.size
  read : ∀ position n, position + n ≤ bytes.size →
    Triple I (Source.read position n : Action σ (Vector UInt8 n))
      (fun v s => v = Blob.slice bytes position n ∧ I s) fun e _ => E e

/-- A read inside a blob in memory. -/
theorem MemorySource.run_read_inside {m : MemorySource} {position n : Nat}
    (h : position + n ≤ m.bytes.size) :
    (Source.read position n : Action MemorySource (Vector UInt8 n)).run m =
      ⟨.ok (Blob.slice m.bytes position n), m, []⟩ := by
  change (⟨(m.inside position n).map _, m, []⟩ : Outcome _ _) = _
  rw [inside_eq_ok_iff.2 h]
  rfl

/-- A blob in memory shows its bytes and never fails. -/
theorem MemorySource.shows (bytes : Bytes) :
    Source.Shows (fun m : MemorySource => m = ⟨bytes⟩) bytes fun _ => False where
  size_eq := by
    rintro m rfl
    rfl
  read := by
    rintro position n hn m rfl
    rw [run_read_inside hn]
    exact ⟨rfl, rfl⟩

namespace Source.Shows

theorem readWord (h : Source.Shows I bytes E) {position : Nat} (hp : position + 4 ≤ bytes.size) :
    Triple I (Source.readWord position : Action σ UInt32)
      (fun word s => word = Blob.wordAt bytes position ∧ I s) fun e _ => E e := by
  refine .bind (h.read position 4 hp) fun v => .pure fun s hs => ?_
  obtain ⟨rfl, hs⟩ := hs
  exact ⟨by simp [Blob.slice, Blob.wordAt], hs⟩

theorem blocks (h : Source.Shows I bytes E) (d : Decoder) {start n : Nat}
    (hn : start + n * Blob.blockBytes ≤ bytes.size) :
    Triple I (Blob.Reader.blocks d start n : Action σ (Array Int8))
      (fun values s => values = Blob.decoded d (Blob.blocksAt bytes start n) ∧ I s)
      fun e _ => E e := by
  unfold Blob.blockBytes at hn
  induction n with
  | zero => exact .pure fun s hs => ⟨rfl, hs⟩
  | succ n ih =>
    have hlast : start + n * Blob.blockBytes + 18 ≤ bytes.size := by
      unfold Blob.blockBytes
      omega
    refine .bind (ih (by omega)) fun values => .of_pre fun hv => ?_
    refine .bind (h.read _ 18 hlast) fun block => .pure fun s hs => ?_
    obtain ⟨rfl, hs⟩ := hs
    refine ⟨?_, hs⟩
    rw [Blob.blocksAt_succ, Blob.decoded_concat, hv]

end Source.Shows

namespace Blob
namespace Reader

/-- A reader over a source in `I` is where a parser is. -/
def Follows (I : σ → Prop) (p : Parser) (r : Reader σ) : Prop := I r.source ∧ r.bare = p

variable {p : Parser} {requested : UInt32}

omit [Source σ] in
theorem onSource_follows {α : Type} {m : Action σ α} {a : α}
    (h : Triple I m (fun v s => v = a ∧ I s) fun e _ => E e) (p : Parser) :
    Triple (Follows I p) (onSource m) (fun v r => v = a ∧ Follows I p r) fun e _ => E e :=
  (h.within Reader.source (fun source r => { r with source }) (fun r => r.bare = p)
    (fun _ _ => rfl) fun _ _ hr => hr).imp
      (fun _ hr => hr) (fun _ _ hr => and_assoc.1 hr) fun _ _ he => he.1

omit [Source σ] in
/-- A change that leaves the source alone is a change of the parser. -/
theorem modify_follows {f : Reader σ → Reader σ} {E : Fault → Reader σ → Prop} (g : Parser → Parser)
    (p : Parser) (h : ∀ r, (f r).source = r.source ∧ (f r).bare = g r.bare) :
    Triple (Follows I p) (Action.modify f) (fun _ => Follows I (g p)) E := by
  refine .modify ?_
  rintro r ⟨hs, rfl⟩
  obtain ⟨hsource, hbare⟩ := h r
  exact ⟨hsource ▸ hs, hbare⟩

/-- **A reset accepts what the parser accepts.** -/
theorem reset_follows (h : Source.Shows I bytes E) (p : Parser) :
    Triple (Follows I p) (reset : Action (Reader σ) Bool)
      (fun ok r => ok = accepts bytes ∧ Follows I (p.opened bytes) r) fun e _ => E e := by
  refine .bind (modify_follows (fun p =>
    { p with cursor := headerBytes, magic := 0, variant := .unknown, stats := .zero }) p
    fun _ => ⟨rfl, rfl⟩) fun _ => .get fun r hr => ?_
  dsimp only
  rw [h.size_eq r.source hr.1]
  by_cases hs : bytes.size < headerBytes
  · rw [if_pos hs]
    have hno : accepts bytes = false := decide_eq_false fun hy => Nat.not_le_of_lt hs hy.1
    refine .bind (.log _) fun _ => .pure fun r hr => ⟨hno.symm, ?_⟩
    rwa [Parser.opened, if_pos hs, hno]
  rw [if_neg hs]
  have hle : headerBytes ≤ bytes.size := Nat.le_of_not_lt hs
  refine .bind (onSource_follows (h.readWord (Nat.le_trans (by decide) hle)) _) fun magic =>
    .of_pre fun hm => ?_
  subst hm
  refine .bind (modify_follows (fun p =>
    { p with magic := wordAt bytes 0, variant := Variant.ofMagic (wordAt bytes 0) }) _
    fun _ => ⟨rfl, rfl⟩) fun _ => ?_
  by_cases hv : Variant.ofMagic (wordAt bytes 0) = .unknown
  · rw [if_pos hv]
    have hno : accepts bytes = false := decide_eq_false fun hy => hy.2 hv
    refine .bind (.log _) fun _ => .pure fun r hr => ⟨hno.symm, ?_⟩
    rwa [Parser.opened, if_neg hs, hno]
  · rw [if_neg hv]
    have hyes : accepts bytes = true := decide_eq_true ⟨hle, hv⟩
    refine .bind (.log _) fun _ => .bind (modify_follows (fun p =>
      { p with stats := { p.stats with bytes := headerBytes } }) _ fun _ => ⟨rfl, rfl⟩) fun _ =>
      .pure fun r hr => ⟨hyes.symm, ?_⟩
    rwa [Parser.opened, if_neg hs, hyes]

/-- What describes a record is read or refused as the parser does it. -/
theorem record_follows (h : Source.Shows I bytes E) (p : Parser) :
    Triple (Follows I p) (record : Action (Reader σ) Record)
      (fun record r => (record = recordAt bytes p.cursor ∧ p.accepted = true ∧
        p.cursor + recordBytes ≤ bytes.size) ∧ Follows I p r)
      fun e r => E e ∨ (∀ requested, p.record bytes requested = .error e) ∧ Follows I p r := by
  refine .get fun r hr => ?_
  obtain ⟨hs, rfl⟩ := hr
  rw [h.size_eq r.source hs]
  cases ha : r.accepted with
  | false =>
    have hno : r.bare.accepted = false := ha
    refine .fail fun r' hr' => .inr ⟨fun requested => ?_, hr'⟩
    rw [Parser.record, hno]
    rfl
  | true =>
    have hyes : r.bare.accepted = true := ha
    by_cases hin : bytes.size < r.cursor + recordBytes
    · rw [if_neg (by simp), if_pos hin]
      refine .fail fun r' hr' => .inr ⟨fun requested => ?_, hr'⟩
      rw [Parser.record, hyes, if_neg (by simp), if_pos (show _ < r.bare.cursor + _ from hin)]
      rfl
    rw [if_neg (by simp), if_neg hin]
    have hle : r.cursor + 8 ≤ bytes.size := Nat.le_of_not_lt hin
    have hfirst := onSource_follows (h.readWord (show r.cursor + 4 ≤ bytes.size by omega)) r.bare
    have hsecond := onSource_follows
      (h.readWord (show r.cursor + 4 + 4 ≤ bytes.size from hle)) r.bare
    refine .imp_error (.bind hfirst fun elements => .of_pre fun he => .bind hsecond fun blocks =>
      .of_pre fun hb => .pure fun r' hr' => ⟨⟨?_, hyes, hle⟩, hr'⟩) fun _ _ => .inl
    rw [he, hb]
    rfl

/-- The blocks of a record are decoded, and the reader goes on behind it. -/
theorem content_follows (h : Source.Shows I bytes E) (p : Parser) (record : Record)
    (requested : UInt32) (hstop : record.stop ≤ bytes.size) :
    Triple (Follows I p)
      (content p.decoder requested record)
      (fun t r => t = p.content bytes record requested ∧ Follows I (p.behind record) r)
      fun e _ => E e := by
  refine .bind (onSource_follows (h.blocks p.decoder hstop) p) fun values => .of_pre fun hv =>
    .bind (modify_follows (Parser.behind record) p fun _ => ⟨rfl, rfl⟩) fun _ =>
      .pure fun r hr => ⟨?_, hr⟩
  rw [hv, Parser.content]

/-- **A reader gives and refuses the tensors of the parser.** -/
theorem tensor_follows (h : Source.Shows I bytes E) (p : Parser) (requested : UInt32) :
    Triple (Follows I p) (tensor requested : Action (Reader σ) Tensor)
      (fun t r => I r.source ∧ p.tensor bytes requested = .ok (t, r.bare))
      fun e r => E e ∨ p.tensor bytes requested = .error e ∧ Follows I p r := by
  have hrecord := (record_follows h p).imp_error
    (F := fun e r => E e ∨ p.tensor bytes requested = .error e ∧ Follows I p r)
    fun e r => Or.imp id fun he => ⟨by rw [Parser.tensor, he.1]; rfl, he.2⟩
  rw [tensor_eq]
  refine .get fun r hr => .bind hrecord fun record => .of_pre fun hrec => ?_
  obtain ⟨rfl, ha, hin⟩ := hrec
  have hcap : r.capacity = p.capacity := congrArg Reader.capacity hr.2
  have hdec : r.decoder = p.decoder := congrArg Reader.decoder hr.2
  rw [h.size_eq r.source hr.1, hcap, hdec]
  have htake : p.record bytes requested = ((recordAt bytes p.cursor).check requested bytes.size
      p.capacity).map fun _ => recordAt bytes p.cursor := by
    rw [Parser.record, ha, if_neg (by simp), if_neg (Nat.not_lt_of_le hin)]
  refine .bind ((Triple.check _).imp_error fun e r hq => .inr ⟨?_, hq.2⟩) fun _ =>
    .of_pre fun hcheck => ?_
  · rw [Parser.tensor, htake, hq.1]
    rfl
  rw [hcheck] at htake
  have hstop := (Record.check_eq_ok_iff.1 hcheck).2.2.1
  have hdone : ∀ p' : Parser, p'.decoder = p.decoder →
      p'.behind (recordAt bytes p.cursor) = p.after (recordAt bytes p.cursor) requested →
      ∀ t (r : Reader σ), t = p'.content bytes (recordAt bytes p.cursor) requested ∧
        Follows I (p'.behind (recordAt bytes p.cursor)) r →
        I r.source ∧ p.tensor bytes requested = .ok (t, r.bare) := by
    rintro p' hd hb t r ⟨rfl, hs, hr⟩
    refine ⟨hs, ?_⟩
    rw [Parser.tensor, htake, hr, hb, Parser.content, hd]
    rfl
  unfold deliver
  split
  · rename_i hne
    refine .bind (modify_follows (Parser.warned) p fun _ => ⟨rfl, rfl⟩) fun _ =>
      .bind (.log _) fun _ => ?_
    refine (content_follows h p.warned _ requested hstop).imp (fun _ hr => hr) (hdone _ rfl ?_)
      fun _ _ => .inl
    rw [Parser.after, if_neg hne]
  · rename_i heq
    refine (content_follows h p _ requested hstop).imp (fun _ hr => hr) (hdone _ rfl ?_)
      fun _ _ => .inl
    rw [Parser.after, if_pos (by simpa using heq)]

end Reader
end Blob
end WeightLink
