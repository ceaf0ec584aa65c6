/-
# Requests that fail

A reader asks its source for the first bytes of a record, checks what they say, and then asks for
the blocks one by one.  A source may fail in any of these reads, so a request for a tensor may fail
after some of them.  It then leaves the reader where it was, apart from what it did to the source,
and apart from one counter: a record with another number of elements than was asked for is counted
before its blocks are read (`Reader.failed_tensor`).  So a request that fails in the blocks of such
a record counts it, and the request that is tried again counts it again.

No request looks at the counters (`Reader.along_warnedBy`).  So apart from that count, a request
that is tried again is the first one on the source as the failure has left it.
-/

import WeightLink.Proofs.Action.Along
import WeightLink.Proofs.Blob.Parser
import WeightLink.Proofs.Blob.Request
import WeightLink.Source.Window

namespace WeightLink
namespace Blob
namespace Reader

open WeightLink.Action (Along)
open WeightLink.Flash (Device FlashSource Link Window)

variable {σ : Type} {r : Reader σ}

/-- The reader with `n` more warnings counted. -/
def warnedBy (n : Nat) (r : Reader σ) : Reader σ :=
  { r with stats := { r.stats with warnings := r.stats.warnings + n } }

/-- The reader with another source. -/
def withSource (source : σ) (r : Reader σ) : Reader σ := { r with source }

variable [Source σ]

/-- What describes a record is taken from the source, and nothing else changes. -/
theorem state_record (r : Reader σ) :
    ((record : Action (Reader σ) Record).run r).state =
      r.withSource ((record : Action (Reader σ) Record).run r).state.source := by
  rw [record, Action.run_bind]
  simp only [Action.run_get]
  split
  · rfl
  · split
    · rfl
    · rw [Action.run_bind, run_onSource]
      dsimp only
      split
      · rfl
      · rw [Action.run_bind, run_onSource]
        dsimp only
        split <;> rfl

/-- Whether a request finds a record that it can decode, and that has another number of elements
than is asked for. -/
def announces (requested : UInt32) (r : Reader σ) : Bool :=
  let found := (record : Action (Reader σ) Record).run r
  match found.result with
  | .ok record =>
    (record.check requested (Source.size r.source) r.capacity).isOk &&
      record.elements ≠ requested
  | .error _ => false

/-- Blocks that cannot be read leave the reader where it was. -/
theorem state_content {decoder : Decoder} {requested : UInt32} {record : Record} {e : Fault}
    (h : ((content decoder requested record).run r).result = .error e) :
    ((content decoder requested record).run r).state =
      r.withSource ((content decoder requested record).run r).state.source := by
  rw [content, Action.run_bind, run_onSource] at h ⊢
  dsimp only at h ⊢
  split at h
  · rfl
  · exact nomatch h

/-- Behind blocks that are read, the reader is behind the record. -/
theorem bare_content {decoder : Decoder} {requested : UInt32} {record : Record} {t : Tensor}
    (h : ((content decoder requested record).run r).result = .ok t) :
    ((content decoder requested record).run r).state.bare = Parser.behind record r.bare := by
  rw [content, Action.run_bind, run_onSource] at h ⊢
  dsimp only at h ⊢
  split at h
  · exact nomatch h
  · rfl

theorem state_deliver {decoder : Decoder} {requested : UInt32} {record : Record} {e : Fault}
    (h : ((deliver decoder requested record).run r).result = .error e) :
    ((deliver decoder requested record).run r).state =
      (r.withSource ((deliver decoder requested record).run r).state.source).warnedBy
        (decide (record.elements ≠ requested)).toNat := by
  unfold deliver at h ⊢
  split at h
  · rename_i hne
    simp only [Action.run_bind, Action.run_modify, Action.run_log] at h
    simp only [if_pos hne, Action.run_bind, Action.run_modify, Action.run_log]
    rw [state_content h, decide_eq_true hne]
    rfl
  · rename_i heq
    simp only [if_neg heq]
    rw [state_content h, decide_eq_false heq]
    rfl

theorem bare_deliver {decoder : Decoder} {requested : UInt32} {record : Record} {t : Tensor}
    (h : ((deliver decoder requested record).run r).result = .ok t) :
    ((deliver decoder requested record).run r).state.bare = r.bare.after record requested := by
  unfold deliver Parser.after at *
  split at h
  · rename_i hne
    simp only [Action.run_bind, Action.run_modify, Action.run_log] at h
    simp only [if_pos hne, if_neg hne, Action.run_bind, Action.run_modify, Action.run_log]
    exact bare_content h
  · rename_i heq
    rw [if_neg heq, if_pos (not_not.1 heq)]
    exact bare_content h

/-- **A request fails before it delivers anything, or delivers the record that it finds.** -/
theorem run_tensor_cases (r : Reader σ) (requested : UInt32) :
    ((∃ e, ((tensor requested).run r).result = .error e) ∧
        ((tensor requested).run r).state =
          r.withSource ((tensor requested).run r).state.source ∧
        r.announces requested = false) ∨
      ∃ found source, ((record : Action (Reader σ) Record).run r).result = .ok found ∧
        r.announces requested = decide (found.elements ≠ requested) ∧
        ((tensor requested).run r).result =
          ((deliver r.decoder requested found).run (r.withSource source)).result ∧
        ((tensor requested).run r).state =
          ((deliver r.decoder requested found).run (r.withSource source)).state := by
  have hstate := state_record r
  unfold announces
  rw [tensor_eq, Action.run_bind, Action.run_get]
  dsimp only
  rw [Action.run_bind]
  generalize (record : Action (Reader σ) Record).run r = found at hstate ⊢
  obtain ⟨e | record, after, events⟩ := found
  · exact .inl ⟨⟨e, rfl⟩, hstate, rfl⟩
  obtain ⟨source, rfl⟩ : ∃ source, after = r.withSource source := ⟨_, hstate⟩
  dsimp only
  rw [Action.run_bind, Action.run_check]
  cases hcheck : record.check requested (Source.size r.source) r.capacity with
  | error e => exact .inl ⟨⟨e, rfl⟩, rfl, rfl⟩
  | ok u => exact .inr ⟨record, source, rfl, rfl, rfl, rfl⟩

/-- **A request that fails** has counted a record that it announces, and has changed nothing else
than the source. -/
theorem state_tensor {requested : UInt32} {e : Fault}
    (h : ((tensor requested).run r).result = .error e) :
    ((tensor requested).run r).state =
      (r.withSource ((tensor requested).run r).state.source).warnedBy
        (r.announces requested).toNat := by
  rcases r.run_tensor_cases requested with ⟨-, hstate, hno⟩ | ⟨found, source, -, hann, hres, hstate⟩
  · rw [hno]
    exact hstate
  · rw [hann, hstate]
    exact state_deliver (hres.symm.trans h)

/-- **A request that succeeds** has found a record, and is behind it. -/
theorem bare_tensor {requested : UInt32} {t : Tensor}
    (h : ((tensor requested).run r).result = .ok t) :
    ∃ found, ((record : Action (Reader σ) Record).run r).result = .ok found ∧
      ((tensor requested).run r).state.bare = r.bare.after found requested := by
  rcases r.run_tensor_cases requested with
    ⟨⟨e, he⟩, -⟩ | ⟨found, source, hfound, -, hres, hstate⟩
  · exact nomatch he.symm.trans h
  · rw [hstate]
    exact ⟨found, hfound, bare_deliver (hres.symm.trans h)⟩

/-! ### Requests do not look at the counters -/

omit [Source σ] in
theorem along_onSource {α : Type} (n : Nat) (m : Action σ α) :
    Along (warnedBy n) id (onSource m : Action (Reader σ) α) (onSource m) :=
  .within _ _ _ _ (fun _ => List.map_id _) (fun _ => rfl) fun _ _ => rfl

theorem along_record (n : Nat) :
    Along (warnedBy n) id (record : Action (Reader σ) Record) record := by
  refine .get fun r => ?_
  exact .ite (.fail _) <| .ite (.fail _) <|
    .bind (along_onSource n _) fun _ => .bind (along_onSource n _) fun _ => .pure _

/-- A change of the counters by sums goes along with more warnings. -/
theorem along_content (n : Nat) (decoder : Decoder) (requested : UInt32) (record : Record) :
    Along (warnedBy n) id (content decoder requested record : Action (Reader σ) Tensor)
      (content decoder requested record) :=
  .bind (along_onSource n _) fun _ => .bind (.modify fun _ => rfl) fun _ => .pure _

/-- **A request does the same however many warnings are counted.** -/
theorem along_warnedBy (n : Nat) (requested : UInt32) :
    Along (warnedBy n) id (tensor requested : Action (Reader σ) Tensor) (tensor requested) := by
  rw [tensor_eq]
  refine .get fun r => .bind (along_record n) fun record => .bind (.check _) fun _ => ?_
  refine .ite (.bind (.modify fun r => ?_) fun _ => .bind (.log _) fun _ => ?_) ?_
  · simp only [warnedBy, Nat.add_right_comm]
  · exact along_content n _ requested record
  · exact along_content n _ requested record

/-- **What a failed request leaves behind.**  Over any source, a request that fails leaves the
cursor, what the magic says, and all counters, but it has counted a record with another number of
elements than was asked for if it had found one that it could decode.  A second request does what it
would do if the first one had not counted anything, and that count is left over: it is also what the
counters are ahead of those of a single request that succeeds on the same record. -/
theorem failed_tensor {σ : Type} [Source σ] (r : Reader σ) (requested : UInt32) {e : Fault}
    (h : ((tensor requested).run r).result = .error e) :
    let failed := ((tensor requested).run r).state
    let clean := r.withSource failed.source
    let leftover := (r.announces requested).toNat
    failed.cursor = r.cursor ∧ failed.magic = r.magic ∧ failed.variant = r.variant ∧
    failed.stats = { r.stats with warnings := r.stats.warnings + leftover } ∧
    (failed = clean ↔ r.announces requested = false) ∧
    ((tensor requested).run failed).result = ((tensor requested).run clean).result ∧
    ((tensor requested).run failed).state = ((tensor requested).run clean).state.warnedBy leftover ∧
    ∀ source t t', ((tensor requested).run (r.withSource source)).result = .ok t →
      ((tensor requested).run failed).result = .ok t' →
      ((record : Action (Reader σ) Record).run (r.withSource source)).result =
        (record.run failed).result →
        ((tensor requested).run failed).state.bare =
          ((tensor requested).run (r.withSource source)).state.bare.warnedBy leftover := by
  intro failed clean leftover
  have hfailed : failed = clean.warnedBy leftover := state_tensor h
  have hagain := along_warnedBy leftover requested clean
  rw [hfailed, hagain]
  refine ⟨rfl, rfl, rfl, rfl, ⟨fun heq => ?_, fun hno => ?_⟩, rfl, rfl,
    fun source t t' ht ht' hsame => ?_⟩
  · have hwarnings := congrArg (fun r : Reader σ => r.stats.warnings) heq
    exact Bool.toNat_eq_zero.1 (Nat.add_eq_left.1 hwarnings)
  · rw [show leftover = 0 from congrArg Bool.toNat hno]
    rfl
  · obtain ⟨found, hfound, hsingle⟩ := bare_tensor ht
    obtain ⟨found', hfound', htwice⟩ := bare_tensor ht'
    rw [along_record leftover clean] at hsame
    obtain rfl : found = found' := Except.ok.inj (hfound.symm.trans (hsame.trans hfound'))
    exact congrArg (warnedBy leftover) (htwice.trans hsingle.symm)

/-! ### A record of two elements of which one is asked for -/

/-- A blob with one record, of two elements. -/
def twoElements : Bytes :=
  #[0x30, 0x42, 0x57, 0x56, 0, 0, 0, 0, 0, 0, 0, 0, 0, 0, 0, 0, 2, 0, 0, 0, 1, 0, 0, 0,
    0, 0, 0, 0, 0, 0, 0, 0, 0, 0, 0, 0, 0, 0, 0, 0, 0, 0]

/-- Half the clock, an awake device, and one cycle less for a blocking read than it may take. -/
def tightConfig : Link.Config := ⟨⟨0, 1, false, 0⟩, 64, false, 323⟩

def tightErased : Link := (Link.create tightConfig).toOption.get (by decide)

def tightDevice : Device :=
  (tightErased.device.load 0 (.held twoElements)).toOption.get (by decide)

/-- A reader that has seen the magic over that link. -/
def tight : Reader FlashSource :=
  (reset.run (.create ⟨⟨42, none, 0⟩, { tightErased with device := tightDevice }⟩ .host 32)).state

/-- The reader one clock cycle later. -/
def later (r : Reader FlashSource) : Reader FlashSource :=
  r.withSource { r.source with link := r.source.link.idle 1 }

/-- The reader after somebody else has read the first word of the record, so that the other words
of it can be read in time up to the second one, which is the first one of the block. -/
def early : Reader FlashSource :=
  later ((onSource (FlashSource.read 16 4)).run (later tight)).state

/-- The request hangs in the block, and has counted the record. -/
theorem mismatch_counted_by_failure :
    ((tensor 1).run early).result.toOption = none ∧
    ((tensor 1).run early).state.stats = { early.stats with warnings := early.stats.warnings + 1 } ∧
    ((tensor 1).run early).state.stats ≠ early.stats := by
  refine ⟨?_, ?_, ?_⟩ <;> decide +kernel

/-- A blob in memory, of which one read fails: the `left`-th from now on. -/
structure Interrupted where
  memory : MemorySource
  left : Nat

instance : Source Interrupted where
  name := "interrupted"
  size s := Source.size s.memory
  read position count := do
    let s ← Action.get
    Action.modify fun s => { s with left := s.left - 1 }
    if s.left = 1 then Action.fail (.readTimeout (Window.wordAddress position) 0 .finish)
    else
      Action.within Interrupted.memory (fun memory s => { s with memory })
        (Source.read position count)

/-- A reader that has seen the magic, before the read of the block fails. -/
def interrupted : Reader Interrupted := (reset.run (.create ⟨⟨twoElements⟩, 4⟩ .host 32)).state

/-- The request that is tried again succeeds, with one warning more than one that succeeds at
once. -/
theorem failed_tensor_interrupted :
    let failed := ((tensor 1).run interrupted).state
    let steady := interrupted.withSource ⟨⟨twoElements⟩, 0⟩
    (∃ e, ((tensor 1).run interrupted).result = .error e) ∧
    failed.stats = { interrupted.stats with warnings := 1 } ∧
    (∃ t, ((tensor 1).run failed).result = .ok t) ∧ (∃ t, ((tensor 1).run steady).result = .ok t) ∧
    ((tensor 1).run failed).state.bare = ((tensor 1).run steady).state.bare.warnedBy 1 := by
  intro failed steady
  obtain ⟨e, he⟩ := eq_error_of_toOption
    (show ((tensor 1).run interrupted).result.toOption = none by decide +kernel)
  obtain ⟨t, ht⟩ := Option.isSome_iff_exists.1
    (show ((tensor 1).run failed).result.toOption.isSome by decide +kernel)
  obtain ⟨u, hu⟩ := Option.isSome_iff_exists.1
    (show ((tensor 1).run steady).result.toOption.isSome by decide +kernel)
  have ht := eq_ok_of_toOption ht
  have hu := eq_ok_of_toOption hu
  have hsame : ((record : Action (Reader Interrupted) Record).run steady).result =
      (record.run failed).result :=
    (eq_ok_of_toOption (a := ⟨16, 2, 1⟩) (by decide +kernel)).trans
      (eq_ok_of_toOption (by decide +kernel)).symm
  have hyes : interrupted.announces 1 = true := by decide +kernel
  obtain ⟨-, -, -, hstats, -, -, -, hagain⟩ := failed_tensor interrupted 1 he
  have hagain := hagain _ _ _ hu ht hsame
  rw [hyes] at hstats hagain
  exact ⟨⟨e, he⟩, hstats, ⟨t, ht⟩, ⟨u, hu⟩, hagain⟩

end Reader
end Blob
end WeightLink
