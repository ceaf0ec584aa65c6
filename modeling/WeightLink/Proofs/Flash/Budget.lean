/-
# How long a request waits

The serial clock runs freely, so the cycles that a frame still needs are a number that can be
read off the engine: the rest of the step in progress, and a clock period for every step after
it (`Engine.frameLeft`).  What a held read waits for is this number together with the rest of
the handshake (`Engine.readLeft`), and every cycle takes one off it (`Engine.readLeft_next`).

The number is at most half of the budget of a blocking call, wherever the engine is
(`Engine.readLeft_le`).  So a blocking call with the derived budget returns from every state
that a link gets into (`Link.budget_suffices`), whatever was done to it before
(`Link.Driven`).
-/

import WeightLink.Proofs.Flash.Reachable

namespace WeightLink
namespace Flash
namespace Engine

/-- The cycles of a serial step. -/
def Config.period (cfg : Config) : Nat := cfg.divider.toNat + 1

/-- The cycles until the serial step in progress is over, this one included. -/
def stepLeft (cfg : Config) (e : Engine) : Nat := cfg.divider.toNat + 1 - e.divider

/-- The serial steps of a frame after the one in progress.  A command is followed by its data
unless it is one of the handshake. -/
def stepsAfter (e : Engine) : Nat :=
  match e.phase with
  | .idle | .finish => 0
  | .setupBit => 3 * (31 - e.bit) + 2 + if e.waking then 0 else Link.dataSteps
  | .clockHigh => 3 * (31 - e.bit) + 1 + if e.waking then 0 else Link.dataSteps
  | .clockLow => 3 * (31 - e.bit) + if e.waking then 0 else Link.dataSteps
  | .readSetup => 64
  | .readHigh => 2 * (31 - e.bit) + 1
  | .readLow => 2 * (31 - e.bit)

/-- The cycles until the frame on the link has taken its last step. -/
def frameLeft (cfg : Config) (e : Engine) : Nat :=
  if e.phase = .idle ∨ e.phase = .finish then 0 else e.stepLeft cfg + e.stepsAfter * cfg.period

/-- The cycles of a command of the handshake: its start, its frame, and its pause. -/
def Config.wakeCycles (cfg : Config) : Nat :=
  1 + Link.commandSteps * cfg.period + cfg.wakeDelay.toNat

/-- The cycles of a read, from its start to its answer. -/
def Config.readCycles (cfg : Config) : Nat :=
  (Link.commandSteps + Link.dataSteps) * cfg.period + 2

/-- The cycles of some commands of the handshake and a read behind them. -/
def Config.handshake (cfg : Config) (commands : Nat) : Nat :=
  commands * cfg.wakeCycles + cfg.readCycles

/-- The cycles until a held read is answered, with the one that answers it, for an engine
without a frame on the link whose divider has been advanced. -/
def idleLeft (cfg : Config) (e : Engine) : Nat :=
  if e.settled then
    e.stepLeft cfg + (Link.commandSteps + Link.dataSteps - 1) * cfg.period + 2
  else e.delayLeft + cfg.handshake (3 - e.wakePhase)

/-- The cycles until a held read is answered, with the one that answers it. -/
def readLeft (cfg : Config) (e : Engine) : Nat :=
  match e.phase with
  | .finish => 1
  | .idle => (e.divide cfg).idleLeft cfg
  | _ =>
    if e.waking then e.frameLeft cfg + cfg.wakeDelay.toNat + cfg.handshake (2 - e.wakePhase)
    else e.frameLeft cfg + 1

variable {cfg : Config} {e : Engine}

theorem stepLeft_le : e.stepLeft cfg ≤ cfg.period := by
  unfold stepLeft Config.period
  omega

/-- In its last cycle a step is over. -/
theorem stepLeft_of_steps (hs : e.steps cfg = true) : e.stepLeft cfg = 1 := by
  have : e.divider = cfg.divider.toNat := by simpa [steps] using hs
  unfold stepLeft
  omega

theorem frameLeft_of_busy (hi : e.phase ≠ .idle) (hf : e.phase ≠ .finish) :
    e.frameLeft cfg = e.stepLeft cfg + e.stepsAfter * cfg.period := by
  simp [frameLeft, hi, hf]

/-- A cycle that is not the last one of its step. -/
theorem frameLeft_wait {e' : Engine} (h : e.Sound cfg) (hs : e.steps cfg = false)
    (hi : e.phase ≠ .idle) (hf : e.phase ≠ .finish) (hp : e'.phase = e.phase)
    (hd : e'.divider = e.divider + 1) (ha : e'.stepsAfter = e.stepsAfter) :
    e'.frameLeft cfg + 1 = e.frameLeft cfg := by
  have hne : e.divider ≠ cfg.divider.toNat := by simpa [steps] using hs
  have hle := h.divider_le
  rw [frameLeft_of_busy hi hf, frameLeft_of_busy (hp ▸ hi) (hp ▸ hf), ha, stepLeft, stepLeft, hd]
  omega

/-- The last cycle of a step that is not the last one of its frame. -/
theorem frameLeft_step {e' : Engine} (hs : e.steps cfg = true) (hi : e.phase ≠ .idle)
    (hf : e.phase ≠ .finish) (hi' : e'.phase ≠ .idle) (hf' : e'.phase ≠ .finish)
    (hd : e'.divider = 0) (ha : e.stepsAfter = e'.stepsAfter + 1) :
    e'.frameLeft cfg + 1 = e.frameLeft cfg := by
  have hfresh : e'.stepLeft cfg = cfg.period := by simp [stepLeft, hd, Config.period]
  rw [frameLeft_of_busy hi hf, frameLeft_of_busy hi' hf', stepLeft_of_steps hs, hfresh, ha,
    Nat.succ_mul]
  omega

/-- The last cycle of a frame. -/
theorem frameLeft_last {e' : Engine} (hs : e.steps cfg = true) (hi : e.phase ≠ .idle)
    (hf : e.phase ≠ .finish) (hend : e'.phase = .idle ∨ e'.phase = .finish)
    (ha : e.stepsAfter = 0) : e'.frameLeft cfg + 1 = e.frameLeft cfg := by
  rw [frameLeft_of_busy hi hf, stepLeft_of_steps hs, ha, frameLeft, if_pos hend]
  omega

/-- **Every cycle takes one off what is left of a frame**, whatever is presented. -/
theorem frameLeft_next (h : e.Sound cfg) (hi : e.phase ≠ .idle) (hf : e.phase ≠ .finish)
    (request : Request) (miso : Bool) :
    (e.next cfg request miso).frameLeft cfg + 1 = e.frameLeft cfg := by
  cases hs : e.steps cfg with
  | false =>
    rw [next_wait request miso hi hf hs]
    exact frameLeft_wait h hs hi hf rfl rfl rfl
  | true =>
    have hle := h.bit_le
    cases hp : e.phase with
    | idle => exact absurd hp hi
    | finish => exact absurd hp hf
    | setupBit =>
      rw [next_setupBit request miso hp hs]
      refine frameLeft_step hs hi hf (by simp) (by simp) rfl ?_
      simp only [stepsAfter, hp]
      omega
    | clockHigh =>
      rw [next_clockHigh request miso hp hs]
      refine frameLeft_step hs hi hf (by simp) (by simp) rfl ?_
      simp only [stepsAfter, hp]
      omega
    | clockLow =>
      by_cases hb : e.bit = 31
      · cases hw : e.waking with
        | true =>
          rw [next_clockLow_wake request miso hp hs hb hw]
          exact frameLeft_last hs hi hf (.inl rfl) (by simp [stepsAfter, hp, hb, hw])
        | false =>
          rw [next_clockLow_read request miso hp hs hb hw]
          refine frameLeft_step hs hi hf (by simp) (by simp) rfl ?_
          simp [stepsAfter, hp, hb, hw, Link.dataSteps, frameBits]
      · rw [next_clockLow_of_ne request miso hp hs hb]
        refine frameLeft_step hs hi hf (by simp) (by simp) rfl ?_
        simp only [stepsAfter, hp]
        omega
    | readSetup =>
      have hb := h.bit_eq_zero (.inr hp)
      rw [next_readSetup request miso hp hs]
      refine frameLeft_step hs hi hf (by simp) (by simp) rfl ?_
      simp [stepsAfter, hp, hb]
    | readHigh =>
      rw [next_readHigh request miso hp hs]
      refine frameLeft_step hs hi hf (by simp) (by simp) rfl ?_
      simp only [stepsAfter, hp]
    | readLow =>
      by_cases hb : e.bit = 31
      · rw [next_readLow_last request miso hp hs hb]
        exact frameLeft_last hs hi hf (.inr rfl) (by simp [stepsAfter, hp, hb])
      · rw [next_readLow_of_ne request miso hp hs hb]
        refine frameLeft_step hs hi hf (by simp) (by simp) rfl ?_
        simp only [stepsAfter, hp]
        omega

/-- A frame takes no longer than all of its steps. -/
theorem frameLeft_le (h : e.Sound cfg) : e.frameLeft cfg ≤
    (Link.commandSteps + if e.waking then 0 else Link.dataSteps) * cfg.period := by
  rcases Decidable.em (e.phase = .idle ∨ e.phase = .finish) with hend | hbusy
  · rw [frameLeft, if_pos hend]
    exact Nat.zero_le _
  · obtain ⟨hi, hf⟩ := not_or.1 hbusy
    have hsteps : e.stepsAfter + 1 ≤
        Link.commandSteps + if e.waking then 0 else Link.dataSteps := by
      have hwake := h.waking_of_not_sends
      cases hp : e.phase <;> simp_all [stepsAfter, Phase.sends, Link.commandSteps,
        Link.dataSteps, frameBits] <;> omega
    have hmul := Nat.mul_le_mul_right cfg.period hsteps
    have hstep : e.stepLeft cfg ≤ cfg.period := stepLeft_le
    rw [Nat.succ_mul] at hmul
    rw [frameLeft_of_busy hi hf]
    omega

/-! ### A held read -/

theorem readLeft_of_waking (h : e.Sound cfg) (hw : e.waking = true) : e.readLeft cfg =
    e.frameLeft cfg + cfg.wakeDelay.toNat + cfg.handshake (2 - e.wakePhase) := by
  obtain ⟨hsends, -⟩ := h.wakes hw
  cases hp : e.phase <;> simp_all [readLeft, Phase.sends]

/-- A read on the link is answered in the cycle after its last step. -/
theorem readLeft_of_reading (h : e.Sound cfg) (hr : e.reading = true) :
    e.readLeft cfg = e.frameLeft cfg + 1 := by
  have hw : e.waking = false ∧ e.phase ≠ .idle := by
    simpa [h.reading_eq, and_comm] using hr
  cases hp : e.phase <;> simp_all [readLeft, frameLeft]

/-- The answer takes a cycle. -/
theorem readLeft_pos (e : Engine) : 1 ≤ e.readLeft cfg := by
  have hshake : ∀ n, 2 ≤ cfg.handshake n := fun n =>
    Nat.le_trans (Nat.le_add_left 2 _) (Nat.le_add_left _ _)
  have hwake := hshake (2 - e.wakePhase)
  have hrest := hshake (3 - (e.divide cfg).wakePhase)
  unfold readLeft idleLeft
  split
  · exact Nat.le_refl 1
  · split <;> omega
  · split <;> omega

theorem readLeft_of_idle (hp : e.phase = .idle) :
    e.readLeft cfg = (e.divide cfg).idleLeft cfg := by
  simp [readLeft, hp]

theorem idleLeft_of_settled (hset : e.settled = true) : e.idleLeft cfg =
    e.stepLeft cfg + (Link.commandSteps + Link.dataSteps - 1) * cfg.period + 2 := by
  simp [idleLeft, hset]

theorem idleLeft_of_unsettled (ha : e.awake = false)
    (hmore : 0 < e.delayLeft ∨ e.wakePhase < 3) :
    e.idleLeft cfg = e.delayLeft + cfg.handshake (3 - e.wakePhase) := by
  have hset : e.settled = false := by
    simp only [settled, ha, Bool.false_or, Bool.and_eq_false_iff, decide_eq_false_iff_not]
    omega
  simp [idleLeft, hset]

theorem idleLeft_settled_le (hset : e.settled = true) : e.idleLeft cfg ≤ cfg.readCycles := by
  have hstep : e.stepLeft cfg ≤ cfg.period := stepLeft_le
  rw [idleLeft_of_settled hset, Config.readCycles]
  unfold Link.commandSteps Link.dataSteps frameBits
  omega

/-- Without a frame on the link, the rest of the handshake and the read are still to come. -/
theorem idleLeft_le (cfg : Config) (e : Engine) :
    e.idleLeft cfg ≤ e.delayLeft + cfg.handshake (3 - e.wakePhase) := by
  cases hset : e.settled with
  | true =>
    have hread : e.idleLeft cfg ≤ cfg.readCycles := idleLeft_settled_le hset
    unfold Config.handshake
    omega
  | false => simp [idleLeft, hset]

theorem handshake_succ (cfg : Config) (n : Nat) :
    cfg.handshake (n + 1) = cfg.wakeCycles + cfg.handshake n := by
  rw [Config.handshake, Config.handshake, Nat.succ_mul]
  omega

/-- A command of the handshake goes on, or ends in its pause. -/
theorem next_waking (h : e.Sound cfg) (hw : e.waking = true) (request : Request) (miso : Bool) :
    ((e.next cfg request miso).waking = true ∧
      (e.next cfg request miso).wakePhase = e.wakePhase) ∨
    ((e.next cfg request miso).phase = .idle ∧
      (e.next cfg request miso).wakePhase = e.wakePhase + 1 ∧
      (e.next cfg request miso).delayLeft = cfg.wakeDelay.toNat) := by
  obtain ⟨hsends, -⟩ := h.wakes hw
  have hi : e.phase ≠ .idle := by rintro hp; simp [hp, Phase.sends] at hsends
  have hf : e.phase ≠ .finish := by rintro hp; simp [hp, Phase.sends] at hsends
  cases hs : e.steps cfg with
  | false => simp [next_wait request miso hi hf hs, hw]
  | true =>
    cases hp : e.phase with
    | setupBit => simp [next_setupBit request miso hp hs, hw]
    | clockHigh => simp [next_clockHigh request miso hp hs, hw]
    | clockLow =>
      by_cases hb : e.bit = 31
      · simp [next_clockLow_wake request miso hp hs hb hw, endWake]
      · simp [next_clockLow_of_ne request miso hp hs hb, hw]
    | _ => simp [hp, Phase.sends] at hsends

/-- In a cycle without a frame on the link, the handshake goes on or the read starts. -/
theorem readLeft_idle (h : e.Sound cfg) (hp : e.phase = .idle) (address : UInt32) :
    (e.idle cfg (.read address)).readLeft cfg + 1 ≤ e.idleLeft cfg := by
  have hnext := h.idle hp (.read address)
  rcases e.settled_or with hset | ⟨ha, hd | ⟨hd, opcode, ho⟩⟩
  · rw [idle_settled _ hset] at hnext ⊢
    rw [readLeft_of_reading hnext rfl, idleLeft_of_settled hset]
    exact Nat.le_of_eq rfl
  · let paused : Engine := { e with delayLeft := e.delayLeft - 1 }
    have hrest : (paused.divide cfg).idleLeft cfg ≤
        e.delayLeft - 1 + cfg.handshake (3 - e.wakePhase) := idleLeft_le _ _
    rw [idle_pause _ ha hd, readLeft_of_idle (e := paused) hp, idleLeft_of_unsettled ha (.inl hd)]
    omega
  · obtain ⟨hlt, -, -⟩ := Opcode.of_wake_eq_some ho
    rw [idle_wake _ ha hd ho] at hnext ⊢
    have hframe := frameLeft_le hnext
    rw [readLeft_of_waking hnext rfl, idleLeft_of_unsettled ha (.inr hlt), hd,
      show 3 - e.wakePhase = (2 - e.wakePhase) + 1 by omega, handshake_succ, Config.wakeCycles]
    simp only [Engine.start, if_true, Nat.add_zero] at hframe ⊢
    omega

/-- **Every cycle takes one off what a held read waits for**, until it is answered. -/
theorem readLeft_next (h : e.Sound cfg) (hf : e.phase ≠ .finish) (address : UInt32)
    (miso : Bool) : (e.next cfg (.read address) miso).readLeft cfg + 1 ≤ e.readLeft cfg := by
  by_cases hi : e.phase = .idle
  · rw [next_idle _ miso hi, readLeft_of_idle hi]
    exact readLeft_idle h.divide hi address
  have hnext := h.next (.read address) miso
  have hframe := frameLeft_next h hi hf (.read address) miso
  cases hw : e.waking with
  | true =>
    rw [readLeft_of_waking h hw]
    rcases next_waking h hw (.read address) miso with ⟨hw', hphase⟩ | ⟨hp, hphase, hdelay⟩
    · rw [readLeft_of_waking hnext hw', hphase]
      omega
    · have hrest := idleLeft_le cfg ((e.next cfg (.read address) miso).divide cfg)
      rw [← readLeft_of_idle hp] at hrest
      simp only [divide, hphase, hdelay, show 3 - (e.wakePhase + 1) = 2 - e.wakePhase by omega]
        at hrest
      omega
  | false =>
    have hr : e.reading = true := by simp [h.reading_eq, hi, hw]
    obtain ⟨hr', -⟩ := h.next_reading hr hf (.read address) miso
    rw [readLeft_of_reading h hr, readLeft_of_reading hnext hr']
    omega

theorem handshake_mono (cfg : Config) {m n : Nat} (h : m ≤ n) :
    cfg.handshake m ≤ cfg.handshake n :=
  Nat.add_le_add_right (Nat.mul_le_mul_right _ h) _

/-- An engine that may find its device asleep is one that wakes it. -/
theorem wakeOnBoot_of_asleep (h : e.Sound cfg) (ha : e.awake = false) : cfg.wakeOnBoot = true := by
  cases hboot : cfg.wakeOnBoot with
  | true => rfl
  | false => exact absurd (h.untouched hboot).1 (by simp [ha])

/-- In a pause, the command before it is over. -/
theorem idleLeft_unsettled_le (h : e.Sound cfg) : e.idleLeft cfg ≤ cfg.handshake 3 := by
  have hleft := idleLeft_le cfg e
  rcases Nat.eq_zero_or_pos e.wakePhase with hz | hpos
  · rwa [hz, h.delayLeft_eq_zero hz, Nat.zero_add] at hleft
  · have hpause := h.delayLeft_le
    have hmore := handshake_mono cfg (show 3 - e.wakePhase + 1 ≤ 3 by omega)
    rw [handshake_succ, Config.wakeCycles] at hmore
    omega

/-- **No held read waits longer than a whole handshake and a read.** -/
theorem readLeft_le (h : e.Sound cfg) :
    e.readLeft cfg ≤ cfg.handshake (if cfg.wakeOnBoot then 3 else 0) := by
  have hframe := frameLeft_le h
  have hread : cfg.readCycles ≤ cfg.handshake (if cfg.wakeOnBoot then 3 else 0) :=
    Nat.le_add_left _ _
  by_cases hi : e.phase = .idle
  · rw [readLeft_of_idle hi]
    rcases (e.divide cfg).settled_or with hset | ⟨ha, -⟩
    · exact Nat.le_trans (idleLeft_settled_le hset) hread
    · rw [wakeOnBoot_of_asleep h ha]
      exact idleLeft_unsettled_le h.divide
  cases hw : e.waking with
  | true =>
    obtain ⟨-, ha, opcode, ho⟩ := h.wakes hw
    have hmore := handshake_mono cfg (show 2 - e.wakePhase + 1 ≤ 3 by omega)
    rw [handshake_succ, Config.wakeCycles] at hmore
    rw [hw, if_pos rfl, Nat.add_zero] at hframe
    rw [readLeft_of_waking h hw, wakeOnBoot_of_asleep h ha, if_pos rfl]
    omega
  | false =>
    rw [hw, if_neg Bool.false_ne_true] at hframe
    rw [readLeft_of_reading h (by simp [h.reading_eq, hi, hw])]
    unfold Config.readCycles at hread
    omega

end Engine

namespace Link

variable {cfg : Config} {l : Link}

/-! ### Blocking calls -/

/-- The states of a link from power-on onwards, whatever is done to it: also with its contents
or its power changed while a read is on the link. -/
inductive Driven (cfg : Config) : Link → Prop
  | create {l : Link} : create cfg = .ok l → Driven cfg l
  | cycle {l : Link} (request : Request) : Driven cfg l → Driven cfg (l.cycle request).2
  | idle {l : Link} (n : Nat) : Driven cfg l → Driven cfg (idle n l)
  | readWord {l : Link} (address : UInt32) :
      Driven cfg l → Driven cfg ((readWord address).run l).state
  | writeWord {l : Link} (address data : UInt32) (mask : UInt8) :
      Driven cfg l → Driven cfg ((writeWord address data mask).run l).state
  | reset {l : Link} : Driven cfg l → Driven cfg l.reset
  | load {l : Link} {device : Device} (offset : Nat) (data : Buffer UInt8) :
      Driven cfg l → l.device.load offset data = .ok device → Driven cfg { l with device }
  | powerCycle {l : Link} : Driven cfg l → Driven cfg { l with device := l.device.powerCycle }

/-- What holds at power-on, and is kept by single cycles, by what is counted, by resets and by
changes of the device, holds whatever is done to the link. -/
theorem Driven.keeps {P : Link → Prop} (hcreate : ∀ l, Link.create cfg = .ok l → P l)
    (hcycle : ∀ l request, P l → P (l.cycle request).2)
    (hstats : ∀ l stats, P l → P { l with stats })
    (hreset : ∀ l, P l → P l.reset)
    (hload : ∀ l device offset data, l.device.load offset data = .ok device →
      P l → P { l with device })
    (hpower : ∀ l, P l → P { l with device := l.device.powerCycle }) (h : Driven cfg l) : P l := by
  induction h with
  | create h => exact hcreate _ h
  | cycle request _ ih => exact hcycle _ request ih
  | idle n _ ih => exact idle_induction (fun l => hcycle l .none) n ih
  | readWord address _ ih => exact readWord_induction hcycle hstats ih address
  | writeWord address data mask _ ih => exact writeWord_induction hcycle ih address data mask
  | reset _ ih => exact hreset _ ih
  | load offset data _ hd ih => exact hload _ _ offset data hd ih
  | powerCycle _ ih => exact hpower _ ih

/-- A link with these settings and a sound engine. -/
structure Regular (cfg : Config) (l : Link) : Prop where
  config_eq : l.config = cfg
  sound : l.engine.Sound cfg.engine

theorem Coupled.regular (h : Coupled cfg l) : Regular cfg l := ⟨h.config_eq, h.sound⟩

namespace Regular

theorem cycle (h : Regular cfg l) (request : Request) : Regular cfg (l.cycle request).2 :=
  ⟨h.config_eq, by simpa [h.config_eq] using h.sound.next request l.miso⟩

/-- **A request that is held long enough is answered.**  `left` bounds the cycles to the answer
from above if every cycle without an answer takes one off it. -/
theorem hold_answers {α : Type} {request : Request} {answer : Outputs → Option α}
    (left : Engine → Nat) (hpos : ∀ e, 1 ≤ left e)
    (hstep : ∀ l, Regular cfg l → answer (l.cycle request).1 = none →
      left (l.cycle request).2.engine + 1 ≤ left l.engine)
    (h : Regular cfg l) {n : Nat} (hn : left l.engine ≤ n) :
    ∃ a after, Link.hold request answer n l = (some a, after) ∧
      after.stats.total ≤ l.stats.total + left l.engine := by
  induction n generalizing l with
  | zero => exact absurd (hpos l.engine) (by omega)
  | succ n ih =>
    simp only [Link.hold]
    cases ha : answer (l.cycle request).1 with
    | some a => exact ⟨a, _, rfl, Nat.add_le_add_left (hpos l.engine) _⟩
    | none =>
      have hleft := hstep l h ha
      obtain ⟨a, after, heq, htotal⟩ := ih (h.cycle request) (by omega)
      refine ⟨a, after, heq, Nat.le_trans htotal ?_⟩
      change l.stats.total + 1 + _ ≤ _
      omega

end Regular

/-! ### The derived budget -/

/-- Half of the derived budget, without the reserve. -/
def Config.halfBudget (cfg : Config) : Nat := (cfg.budget - 64) / 2

/-- The derived budget in arithmetic modulo `2 ^ 64`. -/
def Config.budget64 (cfg : Config) : UInt64 :=
  let step := cfg.engine.divider.toUInt64 + 1
  let command : UInt64 := 3 * 32
  let data : UInt64 := 2 * 32 + 1
  let wake := if cfg.engine.wakeOnBoot then 3 * (command * step + cfg.engine.wakeDelay.toUInt64 + 2)
    else 0
  let read := (command + data) * step + 2
  2 * (wake + read) + 64

section

variable (hmax : cfg.maxWaitCycles = 0)
include hmax

theorem budget_eq : cfg.budget = 2 * cfg.halfBudget + 64 ∧
    cfg.engine.handshake (if cfg.engine.wakeOnBoot then 3 else 0) ≤ cfg.halfBudget := by
  simp only [Config.halfBudget, Config.budget, hmax, Nat.lt_irrefl, if_false,
    Engine.Config.handshake, Engine.Config.wakeCycles, Engine.Config.readCycles,
    Engine.Config.period, Opcode.wake, List.length_cons, List.length_nil]
  cases cfg.engine.wakeOnBoot with
  | true =>
    simp
    omega
  | false => simp

theorem toNat_budget64 : cfg.budget64.toNat = cfg.budget := by
  have hdiv := cfg.engine.divider.toNat_lt
  have hdelay := cfg.engine.wakeDelay.toNat_lt
  simp only [Config.budget64, Config.budget, hmax, Nat.lt_irrefl, if_false, Opcode.wake,
    List.length_cons, List.length_nil, commandSteps, dataSteps, frameBits]
  cases cfg.engine.wakeOnBoot <;>
    simp [UInt64.toNat_add, UInt64.toNat_mul] <;> omega

end

namespace Regular

variable (hmax : cfg.maxWaitCycles = 0) (h : Regular cfg l)
include hmax h

/-- **A blocking read returns** within half of the derived budget. -/
theorem readWord_returns (address : UInt32) :
    ∃ word, ((Link.readWord address).run l).result = .ok word ∧
      ((Link.readWord address).run l).state.stats.total ≤ l.stats.total + cfg.halfBudget := by
  obtain ⟨hbudget, hhalf⟩ := budget_eq hmax
  have hleft := Nat.le_trans (Engine.readLeft_le h.sound) hhalf
  have hstep : ∀ l, Regular cfg l → (l.cycle (.read address)).1.response = none →
      (l.cycle (.read address)).2.engine.readLeft cfg.engine + 1 ≤
        l.engine.readLeft cfg.engine := by
    intro l h hn
    have hf := (Engine.response_eq_none_iff _).1 hn
    rw [cycle_engine, h.config_eq]
    exact Engine.readLeft_next h.sound hf address l.miso
  obtain ⟨word, after, heq, htotal⟩ := h.hold_answers (·.readLeft cfg.engine)
    Engine.readLeft_pos hstep (show _ ≤ l.config.budget by rw [h.config_eq]; omega)
  rw [run_readWord, heq]
  exact ⟨word, rfl, Nat.le_trans htotal (Nat.add_le_add_left hleft _)⟩

/-- **A blocking write returns** within half of the derived budget. -/
theorem writeWord_returns (address data : UInt32) (mask : UInt8) :
    ((Link.writeWord address data mask).run l).result = .ok () ∧
      ((Link.writeWord address data mask).run l).state.stats.total ≤
        l.stats.total + cfg.halfBudget := by
  obtain ⟨hbudget, hhalf⟩ := budget_eq hmax
  have hread := Nat.le_trans (Nat.le_add_left cfg.engine.readCycles _) hhalf
  have hleft : l.engine.frameLeft cfg.engine + 1 ≤ cfg.halfBudget := by
    have hframe := Engine.frameLeft_le h.sound
    unfold Engine.Config.readCycles commandSteps dataSteps frameBits at hread
    unfold commandSteps dataSteps frameBits at hframe
    split at hframe <;> omega
  let accepted : Outputs → Option Unit := fun out => if out.ready then some () else none
  have hstep : ∀ l, Regular cfg l → accepted (l.cycle (.write address data mask)).1 = none →
      (l.cycle (.write address data mask)).2.engine.frameLeft cfg.engine + 1 + 1 ≤
        l.engine.frameLeft cfg.engine + 1 := by
    intro l h hn
    have hready : l.engine.ready (.write address data mask) = false := by
      cases hr : l.engine.ready (.write address data mask) with
      | false => rfl
      | true => simp [accepted, hr] at hn
    obtain ⟨hi, hf⟩ : l.engine.phase ≠ .idle ∧ l.engine.phase ≠ .finish := by
      simpa [Engine.ready, Request.isWrite, h.sound.busy_eq] using hready
    exact Nat.le_of_eq (by rw [cycle_engine, h.config_eq, Engine.frameLeft_next h.sound hi hf])
  obtain ⟨⟨⟩, after, heq, htotal⟩ := h.hold_answers (·.frameLeft cfg.engine + 1)
    (fun _ => Nat.le_add_left 1 _) hstep (show _ ≤ l.config.budget by rw [h.config_eq]; omega)
  rw [run_writeWord, heq]
  exact ⟨rfl, Nat.le_trans htotal (Nat.add_le_add_left hleft _)⟩

end Regular

theorem Driven.regular (h : Driven cfg l) : Regular cfg l := by
  refine h.keeps (fun l h => (coupled_create h).regular) (fun l request h => h.cycle request)
    (fun l _ h => ⟨h.config_eq, h.sound⟩) (fun l h => ⟨h.config_eq, ?_⟩)
    (fun l _ _ _ _ h => ⟨h.config_eq, h.sound⟩) fun l h => ⟨h.config_eq, h.sound⟩
  simpa [Link.reset, h.config_eq] using Engine.sound_powerOn cfg.engine

/-- **The derived budget suffices from every state.**  It is computed without a wrap in 64 bits.
Whatever was done to the link since power-on, a blocking read gives a word and a blocking write
is accepted, after at most half of the budget without its reserve. -/
theorem budget_suffices (cfg : Config) (hmax : cfg.maxWaitCycles = 0) :
    cfg.budget64.toNat = cfg.budget ∧
    ∀ l, Driven cfg l →
      (∀ address, ∃ word, ((readWord address).run l).result = .ok word ∧
        ((readWord address).run l).state.stats.total ≤
          l.stats.total + (cfg.budget - 64) / 2) ∧
      (∀ address data mask, ((writeWord address data mask).run l).result = .ok () ∧
        ((writeWord address data mask).run l).state.stats.total ≤
          l.stats.total + (cfg.budget - 64) / 2) :=
  ⟨toNat_budget64 hmax, fun _ h => ⟨h.regular.readWord_returns hmax,
    h.regular.writeWord_returns hmax⟩⟩

/-- Eight bytes behind a slow clock, with a handshake. -/
def slowConfig : Config := ⟨⟨4, 1, true, 2⟩, 8, true, 0⟩

def slowErased : Link := (create slowConfig).toOption.get (by decide)

/-- The same with blocking calls that give up during the handshake. -/
def hastyConfig : Config := { slowConfig with maxWaitCycles := 600 }

def hastyErased : Link := (create hastyConfig).toOption.get (by decide)

/-- The link in the middle of the second command of the handshake, with its device powered off
and on. -/
def interrupted : Link :=
  let l := idle 300 slowErased
  { l with device := l.device.powerCycle }

theorem budget_suffices_interrupted :
    slowConfig.maxWaitCycles = 0 ∧ Driven slowConfig interrupted ∧
      interrupted.engine.waking = true ∧ interrupted.engine.wakePhase = 1 ∧
      (∃ word, ((readWord 5).run interrupted).result = .ok word) ∧
      ((writeWord 5 0 0xF).run interrupted).result = .ok () := by
  have hd : Driven slowConfig interrupted := .powerCycle (.idle 300 (.create rfl))
  obtain ⟨-, hreturns⟩ := budget_suffices slowConfig rfl
  obtain ⟨hread, hwrite⟩ := hreturns interrupted hd
  obtain ⟨word, hword, -⟩ := hread 5
  exact ⟨rfl, hd, by decide +kernel, by decide +kernel, ⟨word, hword⟩, (hwrite 5 0 0xF).1⟩

end Link
end Flash
end WeightLink
