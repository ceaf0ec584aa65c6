/-
# What holds of the engine in every cycle

The state of an engine repeats itself: the select line, the clock and the busy flag
say again what the phase says, and a frame on the link belongs either to the wake
handshake or to a read.  `Engine.Sound` is this invariant.

A cycle either waits for the divider (`Engine.next_wait`) or takes one step of the
frame (the other `next` lemmas, one for each way out of a phase); each of them keeps
the invariant, so it holds after power-on and for ever (`Engine.Sound.next`).
-/

import WeightLink.Flash.Engine

namespace WeightLink
namespace Flash

/-- Whether the frame of a command goes out. -/
def Phase.sends (p : Phase) : Bool := p = .setupBit || p = .clockHigh || p = .clockLow

namespace Engine

/-- Whether a read is on the link. -/
def reading (e : Engine) : Bool := e.busy && !e.waking

/-- The flash address in the frame that is sent, or was sent last. -/
def latched (e : Engine) : BitVec 24 := e.shiftOut.setWidth 24

/-- Whether the handshake is over, so that a read may start. -/
def settled (e : Engine) : Bool := e.awake || e.delayLeft = 0 && 3 ≤ e.wakePhase

/-- The engine with its divider one cycle further. -/
def divide (cfg : Config) (e : Engine) : Engine :=
  { e with divider := if e.steps cfg then 0 else e.divider + 1 }

/-- The level of the data wire in a cycle that waits for the divider. -/
def wire (e : Engine) : Bool :=
  match e.phase with
  | .setupBit => e.shiftOut.getMsbD e.bit
  | .readSetup => false
  | _ => e.pins.mosi

theorem response_eq_none_iff (e : Engine) : e.response = none ↔ e.phase ≠ .finish := by
  unfold response
  split <;> simp [*]

/-- Only the last cycle of a read answers. -/
theorem phase_of_response {e : Engine} {word : UInt32} (hw : e.response = some word) :
    e.phase = .finish :=
  Decidable.not_not.1 fun hf => nomatch hw.symm.trans ((response_eq_none_iff e).2 hf)

theorem latched_read {e : Engine} {address : BitVec 24}
    (h : e.shiftOut = (Frame.read address).bits) : e.latched = address := by
  have := congrArg Frame.payload (Frame.ofBits_bits (Frame.read address))
  rw [latched, h]
  exact this

/-! ### One cycle, by the phase it starts in -/

section Next

variable {cfg : Config} {e : Engine} (request : Request) (miso : Bool)

theorem next_idle (hp : e.phase = .idle) :
    e.next cfg request miso = (e.divide cfg).idle cfg request := by
  simp [next, hp, divide]

theorem next_finish (hp : e.phase = .finish) :
    e.next cfg request miso =
      { e.divide cfg with
        pins := { e.pins with csN := true, mosi := false }
        busy := false
        bit := 0
        transactions := e.transactions + 1
        phase := .idle } := by
  simp [next, hp, divide]

theorem next_wait (hi : e.phase ≠ .idle) (hf : e.phase ≠ .finish) (hs : e.steps cfg = false) :
    e.next cfg request miso =
      { e with divider := e.divider + 1, pins := { e.pins with mosi := e.wire } } := by
  cases hp : e.phase <;> simp_all [next, wire]

theorem next_setupBit (hp : e.phase = .setupBit) (hs : e.steps cfg = true) :
    e.next cfg request miso =
      { e with
        divider := 0
        pins := { e.pins with mosi := e.shiftOut.getMsbD e.bit }
        phase := .clockHigh } := by
  simp [next, hp, hs]

theorem next_clockHigh (hp : e.phase = .clockHigh) (hs : e.steps cfg = true) :
    e.next cfg request miso =
      { e with divider := 0, pins := { e.pins with sclk := true }, phase := .clockLow } := by
  simp [next, hp, hs]

theorem next_clockLow_of_ne (hp : e.phase = .clockLow) (hs : e.steps cfg = true)
    (hb : e.bit ≠ 31) :
    e.next cfg request miso =
      { e with
        divider := 0
        pins := { e.pins with sclk := false }
        bit := e.bit + 1
        phase := .setupBit } := by
  simp [next, hp, hs, frameBits, hb]

theorem next_clockLow_wake (hp : e.phase = .clockLow) (hs : e.steps cfg = true)
    (hb : e.bit = 31) (hw : e.waking = true) :
    e.next cfg request miso =
      ({ e with divider := 0, pins := { e.pins with sclk := false } } : Engine).endWake cfg := by
  simp [next, hp, hs, frameBits, hb, hw]

theorem next_clockLow_read (hp : e.phase = .clockLow) (hs : e.steps cfg = true)
    (hb : e.bit = 31) (hw : e.waking = false) :
    e.next cfg request miso =
      { e with
        divider := 0
        pins := { e.pins with sclk := false }
        bit := 0
        phase := .readSetup } := by
  simp [next, hp, hs, frameBits, hb, hw]

theorem next_readSetup (hp : e.phase = .readSetup) (hs : e.steps cfg = true) :
    e.next cfg request miso =
      { e with divider := 0, pins := { e.pins with mosi := false }, phase := .readHigh } := by
  simp [next, hp, hs]

theorem next_readHigh (hp : e.phase = .readHigh) (hs : e.steps cfg = true) :
    e.next cfg request miso =
      { e with
        divider := 0
        pins := { e.pins with sclk := true }
        shiftIn := e.capture miso
        phase := .readLow } := by
  simp [next, hp, hs, capture]

theorem next_readLow_of_ne (hp : e.phase = .readLow) (hs : e.steps cfg = true)
    (hb : e.bit ≠ 31) :
    e.next cfg request miso =
      { e with
        divider := 0
        pins := { e.pins with sclk := false }
        bit := e.bit + 1
        phase := .readHigh } := by
  simp [next, hp, hs, frameBits, hb]

theorem next_readLow_last (hp : e.phase = .readLow) (hs : e.steps cfg = true)
    (hb : e.bit = 31) :
    e.next cfg request miso =
      { e with divider := 0, pins := { e.pins with sclk := false }, phase := .finish } := by
  simp [next, hp, hs, frameBits, hb]

end Next

/-! ### A cycle without a frame on the link -/

section Idle

variable {cfg : Config} {e : Engine} (request : Request)

theorem idle_settled (h : e.settled = true) :
    e.idle cfg request = ({ e with awake := true } : Engine).serve cfg request := by
  cases ha : e.awake with
  | true =>
    have he : { e with awake := true } = e := by rw [← ha]
    simp [idle, ha, he]
  | false =>
    simp only [settled, ha, Bool.false_or, Bool.and_eq_true, decide_eq_true_eq] at h
    have ho : Opcode.wake[e.wakePhase]? = none := by simpa [Opcode.wake] using h.2
    simp [idle, ha, h.1, ho]

theorem idle_pause (ha : e.awake = false) (hd : 0 < e.delayLeft) :
    e.idle cfg request = { e with delayLeft := e.delayLeft - 1 } := by
  simp [idle, ha, hd]

theorem idle_wake (ha : e.awake = false) (hd : e.delayLeft = 0) {opcode : BitVec 8}
    (ho : Opcode.wake[e.wakePhase]? = some opcode) :
    e.idle cfg request =
      { e.start (Frame.wake opcode) true with wakeCommands := e.wakeCommands + 1 } := by
  simp [idle, ha, hd, ho]

/-- The handshake is over, in a pause, or about to send its next command. -/
theorem settled_or (e : Engine) : e.settled = true ∨ e.awake = false ∧
    (0 < e.delayLeft ∨ e.delayLeft = 0 ∧ ∃ opcode, Opcode.wake[e.wakePhase]? = some opcode) := by
  by_cases h : e.settled = true
  · exact Or.inl h
  · simp only [settled, Bool.or_eq_true, Bool.and_eq_true, decide_eq_true_eq, not_or,
      Bool.not_eq_true] at h
    refine Or.inr ⟨h.1, ?_⟩
    rcases Nat.eq_zero_or_pos e.delayLeft with hd | hd
    · have hlt : e.wakePhase < Opcode.wake.length := Nat.lt_of_not_le fun hle => h.2 ⟨hd, hle⟩
      exact Or.inr ⟨hd, _, List.getElem?_eq_getElem hlt⟩
    · exact Or.inl hd

end Idle

/-! ### The invariant -/

/-- What holds of an engine in every cycle. -/
@[grind cases]
structure Sound (cfg : Config) (e : Engine) : Prop where
  divider_le : e.divider ≤ cfg.divider.toNat
  bit_le : e.bit ≤ 31
  busy_eq : e.busy = decide (e.phase ≠ .idle)
  csN_eq : e.pins.csN = decide (e.phase = .idle)
  sclk_eq : e.pins.sclk = decide (e.phase = .clockLow ∨ e.phase = .readLow)
  bit_eq_zero : e.phase = .idle ∨ e.phase = .readSetup → e.bit = 0
  bit_eq_last : e.phase = .finish → e.bit = 31
  /-- The bit that the device takes at the rising edge is on the wire before it. -/
  mosi_eq : e.phase = .clockHigh ∨ e.phase = .clockLow →
    e.pins.mosi = e.shiftOut.getMsbD e.bit
  delayLeft_le : e.delayLeft ≤ cfg.wakeDelay.toNat
  /-- A pause follows a command. -/
  delayLeft_eq_zero : e.wakePhase = 0 → e.delayLeft = 0
  wakeCommands_eq : e.wakeCommands = e.wakePhase + e.waking.toNat
  /-- A frame of the handshake is a command of it, sent while the device may be asleep. -/
  wakes : e.waking = true → e.phase.sends = true ∧ e.awake = false ∧
    ∃ opcode, Opcode.wake[e.wakePhase]? = some opcode ∧ e.shiftOut = (Frame.wake opcode).bits
  /-- Every other frame is a read. -/
  reads : e.phase ≠ .idle → e.waking = false →
    e.awake = true ∧ ∃ address, e.shiftOut = (Frame.read (cfg.translate address)).bits
  /-- Without a handshake there is nothing to wait for. -/
  untouched : cfg.wakeOnBoot = false → e.awake = true ∧ e.wakePhase = 0
  /-- With one, reads wait for its last pause. -/
  asleep : cfg.wakeOnBoot = true → e.wakePhase ≤ 3 ∧
    (e.awake = true → e.wakePhase = 3 ∧ e.delayLeft = 0)

theorem sound_powerOn (cfg : Config) : (powerOn cfg).Sound cfg := by
  constructor <;> simp [powerOn, Pins.idle]

namespace Sound

variable {cfg : Config} {e : Engine}

theorem reading_eq (h : e.Sound cfg) : e.reading = (decide (e.phase ≠ .idle) && !e.waking) := by
  rw [reading, h.busy_eq]

/-- The invariant does not look at the rest of the divider. -/
theorem divide (h : e.Sound cfg) : (e.divide cfg).Sound cfg := by
  have hd : (if e.steps cfg then 0 else e.divider + 1) ≤ cfg.divider.toNat := by
    have := h.divider_le
    simp only [steps, decide_eq_true_eq]
    split <;> omega
  exact { h with divider_le := hd }

theorem waking_of_not_sends (h : e.Sound cfg) (hp : e.phase.sends = false) : e.waking = false := by
  rw [← Bool.not_eq_true]
  intro hw
  obtain ⟨hsends, -⟩ := h.wakes hw
  rw [hp] at hsends
  exact nomatch hsends

theorem waking_of_idle (h : e.Sound cfg) (hp : e.phase = .idle) : e.waking = false :=
  h.waking_of_not_sends (by rw [hp]; rfl)

/-- A frame of the handshake may start once the pause is over. -/
theorem startWake (h : e.Sound cfg) (hp : e.phase = .idle) (ha : e.awake = false)
    {opcode : BitVec 8} (ho : Opcode.wake[e.wakePhase]? = some opcode) :
    ({ e.start (Frame.wake opcode) true with wakeCommands := e.wakeCommands + 1 } : Engine).Sound
      cfg := by
  have hw := h.waking_of_idle hp
  constructor <;> grind [start, Phase.sends]

/-- The end of the handshake. -/
theorem wakeUp (h : e.Sound cfg) (hp : e.phase = .idle) (hw : e.settled = true) :
    ({ e with awake := true } : Engine).Sound cfg := by
  have := h.waking_of_idle hp
  constructor <;> grind [settled]

/-- A read may start once the device is awake. -/
theorem serve (h : e.Sound cfg) (hp : e.phase = .idle) (ha : e.awake = true)
    (request : Request) : (e.serve cfg request).Sound cfg := by
  have hw := h.waking_of_idle hp
  unfold Engine.serve
  split
  · constructor <;> grind [start, Phase.sends]
  · exact h

theorem idle (h : e.Sound cfg) (hp : e.phase = .idle) (request : Request) :
    (e.idle cfg request).Sound cfg := by
  rcases e.settled_or with hw | ⟨ha, hd | ⟨hd, opcode, ho⟩⟩
  · rw [idle_settled request hw]
    exact (h.wakeUp hp hw).serve hp rfl request
  · rw [idle_pause request ha hd]
    constructor <;> grind
  · rw [idle_wake request ha hd ho]
    exact h.startWake hp ha ho

section Step

variable (request : Request) (miso : Bool)

theorem finish (h : e.Sound cfg) (hp : e.phase = .finish) :
    (e.next cfg request miso).Sound cfg := by
  have hd := h.divide.divider_le
  rw [next_finish request miso hp]
  constructor <;> grind [Phase.sends, Engine.divide]

theorem wait (h : e.Sound cfg) (hi : e.phase ≠ .idle) (hf : e.phase ≠ .finish)
    (hs : e.steps cfg = false) : (e.next cfg request miso).Sound cfg := by
  have hd := h.divide.divider_le
  rw [next_wait request miso hi hf hs]
  constructor <;> grind [Phase.sends, wire, Engine.divide]

theorem setupBit (h : e.Sound cfg) (hp : e.phase = .setupBit) (hs : e.steps cfg = true) :
    (e.next cfg request miso).Sound cfg := by
  rw [next_setupBit request miso hp hs]
  constructor <;> grind [Phase.sends]

theorem clockHigh (h : e.Sound cfg) (hp : e.phase = .clockHigh) (hs : e.steps cfg = true) :
    (e.next cfg request miso).Sound cfg := by
  rw [next_clockHigh request miso hp hs]
  constructor <;> grind [Phase.sends]

/-- The last bit of a frame ends a wake command, and makes a read wait for its data. -/
theorem clockLow (h : e.Sound cfg) (hp : e.phase = .clockLow) (hs : e.steps cfg = true) :
    (e.next cfg request miso).Sound cfg := by
  by_cases hb : e.bit = 31
  · cases hw : e.waking with
    | true =>
      rw [next_clockLow_wake request miso hp hs hb hw]
      constructor <;> grind [Phase.sends, endWake, Opcode.wake]
    | false =>
      rw [next_clockLow_read request miso hp hs hb hw]
      constructor <;> grind [Phase.sends]
  · rw [next_clockLow_of_ne request miso hp hs hb]
    constructor <;> grind [Phase.sends]

theorem readSetup (h : e.Sound cfg) (hp : e.phase = .readSetup) (hs : e.steps cfg = true) :
    (e.next cfg request miso).Sound cfg := by
  rw [next_readSetup request miso hp hs]
  constructor <;> grind [Phase.sends]

theorem readHigh (h : e.Sound cfg) (hp : e.phase = .readHigh) (hs : e.steps cfg = true) :
    (e.next cfg request miso).Sound cfg := by
  rw [next_readHigh request miso hp hs]
  constructor <;> grind [Phase.sends]

theorem readLow (h : e.Sound cfg) (hp : e.phase = .readLow) (hs : e.steps cfg = true) :
    (e.next cfg request miso).Sound cfg := by
  by_cases hb : e.bit = 31
  · rw [next_readLow_last request miso hp hs hb]
    constructor <;> grind [Phase.sends]
  · rw [next_readLow_of_ne request miso hp hs hb]
    constructor <;> grind [Phase.sends]

/-- **A cycle keeps the invariant.** -/
theorem next (h : e.Sound cfg) : (e.next cfg request miso).Sound cfg := by
  by_cases hi : e.phase = .idle
  · rw [next_idle request miso hi]
    exact h.divide.idle hi request
  by_cases hf : e.phase = .finish
  · exact h.finish request miso hf
  cases hs : e.steps cfg with
  | false => exact h.wait request miso hi hf hs
  | true =>
    cases hp : e.phase with
    | idle => exact absurd hp hi
    | finish => exact absurd hp hf
    | setupBit => exact h.setupBit request miso hp hs
    | clockHigh => exact h.clockHigh request miso hp hs
    | clockLow => exact h.clockLow request miso hp hs
    | readSetup => exact h.readSetup request miso hp hs
    | readHigh => exact h.readHigh request miso hp hs
    | readLow => exact h.readLow request miso hp hs

end Step

/-! ### Reads on the link -/

theorem waking_of_finish (h : e.Sound cfg) (hp : e.phase = .finish) : e.waking = false :=
  h.waking_of_not_sends (by rw [hp]; rfl)

theorem reading_of_finish (h : e.Sound cfg) (hp : e.phase = .finish) : e.reading = true := by
  rw [h.reading_eq, h.waking_of_finish hp, hp]
  rfl

/-- A read stays on the link, with the frame it started with, until it is answered. -/
theorem next_reading (h : e.Sound cfg) (hr : e.reading = true) (hf : e.phase ≠ .finish)
    (request : Request) (miso : Bool) :
    (e.next cfg request miso).reading = true ∧
      (e.next cfg request miso).shiftOut = e.shiftOut := by
  obtain ⟨hb, hw⟩ : e.busy = true ∧ e.waking = false := by simpa [reading] using hr
  have hi : e.phase ≠ .idle := by simpa [h.busy_eq] using hb
  cases hs : e.steps cfg with
  | false =>
    rw [next_wait request miso hi hf hs]
    exact ⟨hr, rfl⟩
  | true =>
    cases hp : e.phase with
    | idle => exact absurd hp hi
    | finish => exact absurd hp hf
    | setupBit => simp [next_setupBit request miso hp hs, reading, hw, hb]
    | clockHigh => simp [next_clockHigh request miso hp hs, reading, hw, hb]
    | clockLow =>
      by_cases h31 : e.bit = 31
      · simp [next_clockLow_read request miso hp hs h31 hw, reading, hw, hb]
      · simp [next_clockLow_of_ne request miso hp hs h31, reading, hw, hb]
    | readSetup => simp [next_readSetup request miso hp hs, reading, hw, hb]
    | readHigh => simp [next_readHigh request miso hp hs, reading, hw, hb]
    | readLow =>
      by_cases h31 : e.bit = 31
      · simp [next_readLow_last request miso hp hs h31, reading, hw, hb]
      · simp [next_readLow_of_ne request miso hp hs h31, reading, hw, hb]

/-- With the answer, the read leaves the link. -/
theorem next_answered (hf : e.phase = .finish) (request : Request) (miso : Bool) :
    (e.next cfg request miso).reading = false := by
  rw [next_finish request miso hf]
  rfl

/-- A read comes onto the link in an idle cycle in which it is presented. -/
theorem next_started (h : e.Sound cfg) (hr : e.reading = false) (request : Request) (miso : Bool)
    (hn : (e.next cfg request miso).reading = true) :
    ∃ address, request = .read address ∧
      (e.next cfg request miso).shiftOut = (Frame.read (cfg.translate address)).bits := by
  by_cases hi : e.phase = .idle
  · have hw := h.waking_of_idle hi
    have hb : e.busy = false := by simp [h.busy_eq, hi]
    have hd : (e.divide cfg).busy = false := hb
    rw [next_idle request miso hi] at hn ⊢
    rcases (e.divide cfg).settled_or with hset | ⟨ha, hp | ⟨hz, opcode, ho⟩⟩
    · rw [idle_settled request hset] at hn ⊢
      cases request with
      | read address => exact ⟨address, rfl, rfl⟩
      | none => simp [Engine.serve, reading, hd] at hn
      | write _ _ _ => simp [Engine.serve, reading, hd] at hn
    · rw [idle_pause request ha hp] at hn
      simp [reading, hd] at hn
    · rw [idle_wake request ha hz ho] at hn
      simp [Engine.start, reading] at hn
  · have hw : e.waking = true := by simpa [h.reading_eq, hi] using hr
    have hsends := (h.wakes hw).1
    have hf : e.phase ≠ .finish := by
      intro hf
      rw [h.waking_of_finish hf] at hw
      exact nomatch hw
    cases hs : e.steps cfg with
    | false => simp [next_wait request miso hi hf hs, reading, hw] at hn
    | true =>
      cases hp : e.phase with
      | setupBit => simp [next_setupBit request miso hp hs, reading, hw] at hn
      | clockHigh => simp [next_clockHigh request miso hp hs, reading, hw] at hn
      | clockLow =>
        by_cases h31 : e.bit = 31
        · simp [next_clockLow_wake request miso hp hs h31 hw, reading, endWake] at hn
        · simp [next_clockLow_of_ne request miso hp hs h31, reading, hw] at hn
      | _ => simp [hp, Phase.sends] at hsends

end Sound
end Engine
end Flash
end WeightLink
