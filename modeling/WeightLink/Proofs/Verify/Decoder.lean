/-
# The choice of the decoder

The three decoders are one function (`Decoder.decode_eq`), so a reader does with one of them
what it does with another.  The only trace of the choice is the name in the line that accepts
the magic: an outcome under a decoder is every other outcome with that name replaced
(`Outcome.via`), and this goes through all actions of a reader (`Alike`).
-/

import WeightLink.Proofs.Action.Along
import WeightLink.Proofs.Blob.Request
import WeightLink.Proofs.Block.Peripheral
import WeightLink.Proofs.Flash.Reachable
import WeightLink.Verify.Run

namespace WeightLink

/-- **All decoders decode by the definition.** -/
theorem Decoder.decode_eq (d : Decoder) (b : Block) : d.decode b = b.weights := by
  cases d with
  | host => rfl
  | hardware => exact Peripheral.weights_load _ b
  | firmware => exact Embedded.decode_eq b

/-! ### Events under another decoder -/

/-- The event as another decoder would have logged it. -/
def Event.via (d : Decoder) : Event → Event
  | .magicAccepted magic source _ => .magicAccepted magic source d
  | e => e

/-- An action names no decoder in what it logs. -/
def Action.Neutral {σ α : Type} (m : Action σ α) : Prop :=
  ∀ s d, (m.run s).events.map (Event.via d) = (m.run s).events

namespace Action.Neutral

variable {σ τ α β : Type}

theorem pure (a : α) : (Pure.pure a : Action σ α).Neutral := fun _ _ => rfl

theorem get : (Action.get : Action σ σ).Neutral := fun _ _ => rfl

theorem check (c : Except Fault α) : (Action.check c : Action σ α).Neutral := fun _ _ => rfl

theorem modify (f : σ → σ) : (Action.modify f).Neutral := fun _ _ => rfl

theorem bind {m : Action σ α} {f : α → Action σ β} (hm : m.Neutral) (hf : ∀ a, (f a).Neutral) :
    (m >>= f).Neutral := by
  intro s d
  rw [Action.run_bind]
  split
  · exact hm s d
  · rw [List.map_append, hm s d, hf _ _ d]

theorem within {m : Action σ α} (hm : m.Neutral) (part : τ → σ) (put : σ → τ → τ) :
    (Action.within part put m).Neutral := fun t d => hm (part t) d

end Action.Neutral

/-! ### Both sources are neutral -/

theorem MemorySource.neutral_read (position count : Nat) :
    (MemorySource.read position count).Neutral := fun _ _ => rfl

namespace Flash

theorem Link.neutral_readWord (address : UInt32) : (Link.readWord address).Neutral := by
  have hnotices : ∀ before after d,
      (Link.notices before after).map (Event.via d) = Link.notices before after := by
    intro before after d
    unfold Link.notices
    split <;> rfl
  intro l d
  rw [Link.run_readWord]
  split
  · exact hnotices _ _ d
  · exact hnotices _ _ d

namespace FlashSource

theorem neutral_fetch (address : UInt32) : (fetch address).Neutral :=
  .bind (.within (Link.neutral_readWord address) _ _) fun _ => .bind (.modify _) fun _ => .pure _

theorem neutral_readByte (position : Nat) : (readByte position).Neutral := by
  refine .bind .get fun s => ?_
  dsimp only
  split
  · split
    · exact .bind (.pure _) fun _ => .pure _
    · exact .bind (neutral_fetch _) fun _ => .pure _
  · exact .bind (neutral_fetch _) fun _ => .pure _

theorem neutral_readBytes (position count : Nat) : (readBytes position count).Neutral := by
  induction count with
  | zero => exact .pure _
  | succ n ih => exact .bind ih fun _ => .bind (neutral_readByte _) fun _ => .pure _

theorem neutral_read (position count : Nat) : (read position count).Neutral := by
  refine .bind .get fun s => .bind (.check _) fun _ => ?_
  dsimp only
  split
  · exact .bind (.modify _) fun _ => neutral_readBytes _ _
  · exact neutral_readBytes _ _

end FlashSource
end Flash

/-! ### Outcomes under another decoder -/

namespace Blob

variable {σ α β : Type} {d : Decoder}

/-- The reader with another decoder. -/
def Reader.via (d : Decoder) (r : Reader σ) : Reader σ := { r with decoder := d }

/-- The outcome as another decoder would have left it. -/
def viaOutcome (d : Decoder) (o : Outcome (Reader σ) α) : Outcome (Reader σ) α :=
  ⟨o.result, o.state.via d, o.events.map (Event.via d)⟩

/-- With `d`, the second action does what the first one does with any decoder. -/
def Alike (d : Decoder) (m n : Action (Reader σ) α) : Prop :=
  ∀ r, n.run (r.via d) = viaOutcome d (m.run r)

namespace Alike

/-- Actions are alike along the change of the decoder. -/
theorem of_along {m n : Action (Reader σ) α}
    (h : Action.Along (Reader.via d) (Event.via d) m n) : Alike d m n := h

theorem pure (a : α) : Alike d (Pure.pure a : Action (Reader σ) α) (Pure.pure a) :=
  of_along (.pure a)

theorem fail (e : Fault) : Alike d (Action.fail e : Action (Reader σ) α) (Action.fail e) :=
  of_along (.fail e)

theorem check (c : Except Fault α) :
    Alike d (Action.check c : Action (Reader σ) α) (Action.check c) := of_along (.check c)

theorem log (e : Event) : Alike d (Action.log e : Action (Reader σ) Unit) (Action.log (e.via d)) :=
  of_along (.log e)

theorem modify {f g : Reader σ → Reader σ} (h : ∀ r, g (r.via d) = (f r).via d) :
    Alike d (Action.modify f) (Action.modify g) := of_along (.modify h)

theorem bind {m n : Action (Reader σ) α} {f g : α → Action (Reader σ) β} (h : Alike d m n)
    (hf : ∀ a, Alike d (f a) (g a)) : Alike d (m >>= f) (n >>= g) := of_along (.bind h hf)

theorem get {f g : Reader σ → Action (Reader σ) α} (h : ∀ r, Alike d (f r) (g (r.via d))) :
    Alike d (Action.get >>= f) (Action.get >>= g) := of_along (.get h)

theorem ite {c : Prop} [Decidable c] {m m' n n' : Action (Reader σ) α} (h : Alike d m n)
    (h' : Alike d m' n') : Alike d (if c then m else m') (if c then n else n') :=
  of_along (.ite h h')

/-- What a neutral action does to the source has nothing to do with the decoder. -/
theorem onSource {m : Action σ α} (hm : m.Neutral) :
    Alike d (Reader.onSource m) (Reader.onSource m) :=
  of_along (.within _ _ _ _ (fun s => hm s d) (fun _ => rfl) fun _ _ => rfl)

end Alike

/-! ### Readers -/

section Reader

variable [Source σ]

theorem Reader.blocks_eq (d e : Decoder) (start n : Nat) :
    (Reader.blocks d start n : Action σ _) = Reader.blocks e start n := by
  induction n with
  | zero => rfl
  | succ n ih => simp only [Reader.blocks, ih, Decoder.decode_eq]

variable (hs : ∀ position count, (Source.read position count : Action σ _).Neutral)
include hs

theorem neutral_readWord (position : Nat) : (Source.readWord position : Action σ _).Neutral :=
  .bind (hs position 4) fun _ => .pure _

theorem neutral_blocks (e : Decoder) (start n : Nat) :
    (Reader.blocks e start n : Action σ _).Neutral := by
  induction n with
  | zero => exact .pure _
  | succ n ih => exact .bind ih fun _ => .bind (hs _ _) fun _ => .pure _

theorem alike_reset : Alike d (Reader.reset : Action (Reader σ) _) Reader.reset := by
  refine .bind (.modify fun _ => rfl) fun _ => .get fun r => ?_
  exact .ite (.bind (.log _) fun _ => .pure _) <|
    .bind (.onSource (neutral_readWord hs 0)) fun magic =>
      .bind (.modify fun _ => rfl) fun _ =>
        .ite (.bind (.log _) fun _ => .pure _) <|
          .bind (.log _) fun _ => .bind (.modify fun _ => rfl) fun _ => .pure _

theorem alike_record : Alike d (Reader.record : Action (Reader σ) _) Reader.record := by
  refine .get fun r => ?_
  exact .ite (.fail _) <| .ite (.fail _) <|
    .bind (.onSource (neutral_readWord hs _)) fun _ =>
      .bind (.onSource (neutral_readWord hs _)) fun _ => .pure _

/-- Only the blocks are decoded, and that does not depend on the decoder. -/
theorem alike_content (e e' : Decoder) (requested : UInt32) (record : Record) :
    Alike d (Reader.content e requested record : Action (Reader σ) _)
      (Reader.content e' requested record) := by
  unfold Reader.content
  rw [Reader.blocks_eq e']
  exact .bind (.onSource (neutral_blocks hs _ _ _)) fun _ =>
    .bind (.modify fun _ => rfl) fun _ => .pure _

theorem alike_tensor (requested : UInt32) :
    Alike d (Reader.tensor requested : Action (Reader σ) _) (Reader.tensor requested) := by
  rw [Reader.tensor_eq]
  refine .get fun r => .bind (alike_record hs) fun record => .bind (.check _) fun _ => ?_
  exact .ite (.bind (.modify fun _ => rfl) fun _ => .bind (.log _) fun _ =>
    alike_content hs _ _ _ _) (alike_content hs _ _ _ _)

end Reader

end Blob

/-! ### Verifications -/

namespace Verify

open Blob

section Checks

variable {σ : Type} [Source σ] {d : Decoder}
  (hs : ∀ position count, (Source.read position count : Action σ _).Neutral)
include hs

theorem alike_sumTensors (counts : List UInt32) :
    Alike d (sumTensors counts : Action (Reader σ) _) (sumTensors counts) := by
  induction counts with
  | nil => exact .pure _
  | cons count counts ih => exact .bind (alike_tensor hs count) fun _ => .bind ih fun _ => .pure _

theorem alike_runEach (checks : List Check) :
    Alike d (runEach checks : Action (Reader σ) _) (runEach checks) := by
  induction checks with
  | nil => exact .pure _
  | cons check checks ih =>
    exact .bind (.bind (alike_sumTensors hs check.tensors) fun _ => .pure _) fun _ =>
      .bind ih fun _ => .pure _

theorem alike_runChecks (checks : List Check) :
    Alike d (runChecks checks : Action (Reader σ) _) (runChecks checks) := by
  refine .bind (alike_reset hs) fun ok => ?_
  split
  · exact alike_runEach hs checks
  · exact .get fun r => .fail _

end Checks

variable (blob : Bytes) (cfg : Config) (d : Decoder)

theorem memoryReader_decoder : memoryReader blob { cfg with decoder := d } =
    (memoryReader blob cfg).via d := rfl

theorem flashReader_decoder : flashReader blob { cfg with decoder := d } =
    (flashReader blob cfg).map (Reader.via d) := by
  unfold flashReader
  dsimp only
  split
  · rfl
  · split
    · rfl
    · dsimp only [bind, Except.bind, pure, Except.pure]
      split
      · rfl
      · split
        · rfl
        · split
          · rfl
          · rfl

/-- **A verification comes out the same with every decoder**, up to its name in the log. -/
theorem run_decoder : run blob { cfg with decoder := d } =
    ((run blob cfg).1, (run blob cfg).2.map (Event.via d)) := by
  simp only [run, memoryReader_decoder, flashReader_decoder]
  cases cfg.backing with
  | memory =>
    have h := alike_runChecks (d := d) MemorySource.neutral_read cfg.checks (memoryReader blob cfg)
    simp only [h]
    rfl
  | flash =>
    cases flashReader blob cfg with
    | error e => rfl
    | ok reader =>
      have h := alike_runChecks (d := d) Flash.FlashSource.neutral_read cfg.checks reader
      simp only [Except.map, h]
      rfl

end Verify

/-- **The three decoders are one function.**  Element by element they follow the law; so the
spare bits of the header do not matter, `-128` is never produced, and a verification gives the
same report or the same fault with each of them, up to the name in the log. -/
theorem decoders_agree :
    (∀ (d : Decoder) (b : Block) (i : Fin 32), (d.decode b)[i].toInt = b.element i) ∧
    (∀ (d e : Decoder) (b : Block), d.decode b = e.decode b) ∧
    (∀ (d : Decoder) (b b' : Block), b[0] = b'[0] → b[1].toNat / 128 = b'[1].toNat / 128 →
      (∀ k (hk : k < 18), 2 ≤ k → b[k] = b'[k]) → d.decode b = d.decode b') ∧
    (∀ (d : Decoder) (b : Block) (i : Fin 32), (d.decode b)[i] ≠ -128) ∧
    (∀ (blob : Bytes) (cfg : Verify.Config) (d : Decoder),
      Verify.run blob { cfg with decoder := d } =
        ((Verify.run blob cfg).1, (Verify.run blob cfg).2.map (Event.via d))) := by
  refine ⟨fun d b i => ?_, fun d e b => ?_, fun d b b' h₀ h₁ hrest => ?_, fun d b i => ?_,
    Verify.run_decoder⟩
  · rw [Decoder.decode_eq]
    exact b.toInt_weights i.isLt
  · rw [Decoder.decode_eq, Decoder.decode_eq]
  · rw [Decoder.decode_eq, Decoder.decode_eq]
    have hbyte : ∀ {k : Nat} (hk : k < 18), b[k] = b'[k] → b.byte k = b'.byte k := by
      intro k hk h
      rw [Block.byte_eq_getElem b hk, Block.byte_eq_getElem b' hk, h]
    refine Block.weights_congr (hbyte (by decide) h₀) ?_ fun k hk h2 => hbyte hk (hrest k hk h2)
    rwa [Block.byte_eq_getElem b (by decide), Block.byte_eq_getElem b' (by decide)]
  · intro hmin
    have hlaw : ((d.decode b)[i]).toInt = b.element i := by
      rw [Decoder.decode_eq]
      exact b.toInt_weights i.isLt
    rw [hmin] at hlaw
    have hbounds := b.element_bounds i
    rw [← hlaw] at hbounds
    exact absurd hbounds.1 (by decide)

/-- Two blocks that differ in all seven spare bits, through two decoders. -/
theorem decoders_agree_spare :
    let b : Block := #v[0xA3, 0x80, 0x1F, 0xE2, 3, 4, 5, 6, 7, 8, 9, 10, 11, 12, 13, 14, 15, 16]
    let b' : Block := #v[0xA3, 0xFF, 0x1F, 0xE2, 3, 4, 5, 6, 7, 8, 9, 10, 11, 12, 13, 14, 15, 16]
    b ≠ b' ∧ Decoder.hardware.decode b = Decoder.firmware.decode b' := by
  refine ⟨by decide, ?_⟩
  rw [decoders_agree.2.1 .firmware .hardware]
  exact decoders_agree.2.2.1 .hardware _ _ (by decide) (by decide) (by decide)

end WeightLink
