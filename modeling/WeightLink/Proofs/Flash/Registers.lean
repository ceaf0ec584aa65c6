/-
# The registers of the engine agree

About ten registers of the engine say, each in its own way, how far it is: which phase it is in,
which bit is in progress, whether a frame is on the link and whose, how much of the handshake is
done, how many reads were answered.  Whatever is presented, whatever is on the data line and
however often the engine is reset in between, they agree (`Engine.Consistent`,
`Engine.registers_consistent`): this is the invariant of `Engine.Sound`, read register by register,
with the count of answers that the invariant leaves out.

What the engine computes with its registers is then in range: the place of a bit in its word, and
the command of the handshake that it looks up.
-/

import WeightLink.Proofs.Flash.Handshake

namespace WeightLink
namespace Flash
namespace Engine

/-- What happens to an engine: a cycle, or a reset. -/
inductive Act where
  | cycle (input : Input)
  | reset
  deriving DecidableEq, Repr

/-- An engine, with the words it has answered since its last reset. -/
structure Recorded where
  engine : Engine
  answers : List UInt32
  deriving DecidableEq, Repr

namespace Recorded

/-- What an act makes of an engine. -/
def act (cfg : Config) (r : Recorded) : Act → Recorded
  | .cycle input =>
    let (outputs, engine) := r.engine.tick cfg input.request input.miso
    ⟨engine, r.answers ++ outputs.response.toList⟩
  | .reset => ⟨powerOn cfg, []⟩

/-- A new engine after some acts. -/
def after (cfg : Config) (acts : List Act) : Recorded := acts.foldl (act cfg) ⟨powerOn cfg, []⟩

end Recorded

/-- What the registers say of each other. -/
structure Consistent (cfg : Config) (e : Engine) : Prop where
  busy_iff : e.busy = true ↔ e.phase ≠ .idle
  csN_iff : e.pins.csN = false ↔ e.phase ≠ .idle
  sclk_iff : e.pins.sclk = true ↔ e.phase = .clockLow ∨ e.phase = .readLow
  bit_le : e.bit ≤ 31
  bit_eq_zero : e.phase = .idle ∨ e.phase = .readSetup → e.bit = 0
  bit_eq_last : e.phase = .finish → e.bit = 31
  divider_le : e.divider ≤ cfg.divider.toNat
  wakePhase_le : e.wakePhase ≤ 3
  delayLeft_le : e.delayLeft ≤ cfg.wakeDelay.toNat
  /-- A command of the handshake is sent bit by bit, before the device is awake. -/
  waking : e.waking = true → (e.phase = .setupBit ∨ e.phase = .clockHigh ∨ e.phase = .clockLow) ∧
    e.wakePhase < 3 ∧ e.awake = false
  /-- Data bits are only asked for when the device is awake. -/
  awake : e.phase = .readSetup ∨ e.phase = .readHigh ∨ e.phase = .readLow ∨ e.phase = .finish →
    e.awake = true
  /-- A device that is to be woken has got the completed commands, and the one on the link. -/
  wakes : cfg.wakeOnBoot = true → e.wakeCommands = e.wakePhase + e.waking.toNat ∧
    (e.awake = true → e.wakePhase = 3 ∧ e.delayLeft = 0)
  /-- Any other device gets none. -/
  untouched : cfg.wakeOnBoot = false → e.wakePhase = 0 ∧ e.wakeCommands = 0

variable {cfg : Config} {e : Engine}

theorem Sound.wakePhase_le (h : e.Sound cfg) : e.wakePhase ≤ 3 := by
  cases hboot : cfg.wakeOnBoot with
  | false => simp [(h.untouched hboot).2]
  | true => exact (h.asleep hboot).1

/-- Only a frame of the handshake is on the link before the device is awake. -/
theorem Sound.awake_of_not_sends (h : e.Sound cfg) (hi : e.phase ≠ .idle)
    (hs : e.phase.sends = false) : e.awake = true :=
  (h.reads hi (h.waking_of_not_sends hs)).1

theorem Sound.waking_eq_false (h : e.Sound cfg) (hboot : cfg.wakeOnBoot = false) :
    e.waking = false := by
  refine Bool.eq_false_iff.2 fun hw => ?_
  obtain ⟨-, hasleep, -⟩ := h.wakes hw
  exact nomatch (h.untouched hboot).1.symm.trans hasleep

/-- The invariant of a cycle, register by register. -/
theorem Sound.consistent (h : e.Sound cfg) : e.Consistent cfg where
  busy_iff := by simp [h.busy_eq]
  csN_iff := by simp [h.csN_eq]
  sclk_iff := by simp [h.sclk_eq]
  bit_le := h.bit_le
  bit_eq_zero := h.bit_eq_zero
  bit_eq_last := h.bit_eq_last
  divider_le := h.divider_le
  wakePhase_le := h.wakePhase_le
  delayLeft_le := h.delayLeft_le
  waking hw := by
    obtain ⟨hsends, hasleep, opcode, ho, -⟩ := h.wakes hw
    obtain ⟨hlt, -⟩ := List.getElem?_eq_some_iff.1 ho
    exact ⟨by simpa [Phase.sends, or_assoc] using hsends, hlt, hasleep⟩
  awake hp := by
    rcases hp with hp | hp | hp | hp <;>
      exact h.awake_of_not_sends (by simp [hp]) (by rw [hp]; rfl)
  wakes hboot := ⟨h.wakeCommands_eq, (h.asleep hboot).2⟩
  untouched hboot := by
    have hzero := (h.untouched hboot).2
    refine ⟨hzero, ?_⟩
    rw [h.wakeCommands_eq, hzero, h.waking_eq_false hboot]
    rfl

/-! ### What a cycle counts -/

theorem idle_transactions (e : Engine) (request : Request) :
    (e.idle cfg request).transactions = e.transactions := by
  rcases e.settled_or with hset | ⟨ha, hd | ⟨hd, opcode, ho⟩⟩
  · rw [idle_settled request hset]
    cases request <;> rfl
  · rw [idle_pause request ha hd]
  · rw [idle_wake request ha hd ho]
    rfl

/-- An answer counts. -/
theorem next_transactions (e : Engine) (request : Request) (miso : Bool) :
    (e.next cfg request miso).transactions = e.transactions + e.response.toList.length := by
  by_cases hi : e.phase = .idle
  · rw [next_idle request miso hi, idle_transactions]
    simp [response, hi, divide]
  · -- Only `finish` answers, and only `finish` counts.
    unfold next response
    cases hp : e.phase with
    | idle => exact absurd hp hi
    | _ => grind [endWake]

/-- A frame on the link starts no command of the handshake, and an idle cycle only one that there
is to look up. -/
theorem next_wakeCommands (e : Engine) (request : Request) (miso : Bool) :
    (e.next cfg request miso).wakeCommands = e.wakeCommands ∨
      ∃ _ : e.wakePhase < Opcode.wake.length,
        (e.next cfg request miso).wakeCommands = e.wakeCommands + 1 ∧
        (e.next cfg request miso).shiftOut = (Frame.wake Opcode.wake[e.wakePhase]).bits := by
  by_cases hi : e.phase = .idle
  · rw [next_idle request miso hi]
    rcases (e.divide cfg).settled_or with hset | ⟨ha, hd | ⟨hd, opcode, ho⟩⟩
    · rw [idle_settled request hset]
      left
      cases request <;> rfl
    · rw [idle_pause request ha hd]
      exact .inl rfl
    · rw [idle_wake request ha hd ho]
      obtain ⟨hlt, rfl⟩ := List.getElem?_eq_some_iff.1 ho
      exact .inr ⟨hlt, rfl, rfl⟩
  · left
    unfold next
    cases hp : e.phase with
    | idle => exact absurd hp hi
    | _ => grind [endWake]

/-! ### Every reachable state -/

namespace Recorded

/-- What holds of an engine and its answers between two acts. -/
structure Kept (cfg : Config) (r : Recorded) : Prop where
  sound : r.engine.Sound cfg
  transactions_eq : r.engine.transactions = r.answers.length

theorem kept_powerOn (cfg : Config) : Kept cfg ⟨powerOn cfg, []⟩ := ⟨sound_powerOn cfg, rfl⟩

/-- An act keeps the registers in step with the answers. -/
theorem Kept.act {r : Recorded} (h : r.Kept cfg) (a : Act) : (r.act cfg a).Kept cfg := by
  cases a with
  | reset => exact kept_powerOn cfg
  | cycle input =>
    refine ⟨h.sound.next input.request input.miso, ?_⟩
    have hcount : (r.engine.next cfg input.request input.miso).transactions = _ :=
      next_transactions r.engine input.request input.miso
    rw [h.transactions_eq, ← List.length_append] at hcount
    exact hcount

theorem kept_after (cfg : Config) (acts : List Act) : (after cfg acts).Kept cfg := by
  refine List.foldlRecOn acts (act cfg) (motive := Kept cfg) (kept_powerOn cfg) ?_
  exact fun r h a _ => h.act a

/-- Cycles in a row, without a reset between them. -/
theorem engine_after_cycles (acts : List Act) (inputs : List Input) :
    (after cfg (acts ++ inputs.map .cycle)).engine =
      Engine.after cfg inputs (after cfg acts).engine := by
  rw [after, List.foldl_append, ← after]
  generalize after cfg acts = r
  induction inputs generalizing r with
  | nil => rfl
  | cons i is ih => exact ih _

end Recorded

/-- **The registers agree in every reachable state.**  After every sequence of cycles and resets
they say the same about the engine; as many reads were answered as are counted; once the device is
awake, it is so until the next reset.  So the place of the bit in progress is one of the 32 of a
word, and a command of the handshake is sent only if there is one to look up. -/
theorem registers_consistent (cfg : Config) (acts : List Act) :
    let r := Recorded.after cfg acts
    r.engine.Consistent cfg ∧
    r.engine.transactions = r.answers.length ∧
    (r.engine.awake = true →
      ∀ inputs : List Input,
        (Recorded.after cfg (acts ++ inputs.map .cycle)).engine.awake = true) ∧
    (0 ≤ 31 - (r.engine.bit : Int) ∧ 31 - (r.engine.bit : Int) ≤ 31) ∧
    ∀ request miso,
      (r.engine.next cfg request miso).wakeCommands = r.engine.wakeCommands ∨
      ∃ _ : r.engine.wakePhase < Opcode.wake.length,
        (r.engine.next cfg request miso).wakeCommands = r.engine.wakeCommands + 1 ∧
        (r.engine.next cfg request miso).shiftOut =
          (Frame.wake Opcode.wake[r.engine.wakePhase]).bits := by
  intro r
  obtain ⟨hsound, hcount⟩ := Recorded.kept_after cfg acts
  have hbit : r.engine.bit ≤ 31 := hsound.bit_le
  refine ⟨hsound.consistent, hcount, fun ha inputs => ?_, by omega, next_wakeCommands r.engine⟩
  rw [Recorded.engine_after_cycles]
  exact after_awake ha inputs

end Engine
end Flash
end WeightLink
