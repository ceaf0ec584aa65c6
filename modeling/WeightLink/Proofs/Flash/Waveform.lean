/-
# The waveform of a frame

An engine drives its wires in a way that is settled when a frame starts.  `Engine.ahead` are the
wires from a cycle on until the device is released; the next cycle shows the first of them
(`Engine.ahead_next`), whatever is presented and received.  The divider runs freely, so a frame
starts anywhere in a serial step, and only the first low phase of the clock depends on where.

At the start of a frame these wires are its bits, each with its pulse of the clock, and behind a
read frame the pulses of the data (`Engine.isFrame_ahead`).  So every frame since power-on goes
out exactly timed, and none runs into the next one (`Engine.frames_timed`).
-/

import Mathlib.Data.List.Chain
import WeightLink.Proofs.Flash.Pulses
import WeightLink.Proofs.Flash.Trace

namespace WeightLink
namespace Flash
namespace Engine

open Pins (hold hold_succ afterBit afterData)

/-! ### The wires of a frame -/

/-- The wires from the next cycle on, until the device is released. -/
def ahead (cfg : Config) (e : Engine) : List Pins :=
  let p := cfg.period
  let left := e.stepLeft cfg
  let level := e.shiftOut.getMsbD e.bit
  match e.phase with
  | .idle | .finish => []
  | .setupBit =>
    hold false level (left + (p - 1)) ++ hold true level p ++
      afterBit p e.shiftOut e.waking (31 - e.bit)
  | .clockHigh =>
    hold false level (left - 1) ++ hold true level p ++
      afterBit p e.shiftOut e.waking (31 - e.bit)
  | .clockLow => hold true level (left - 1) ++ afterBit p e.shiftOut e.waking (31 - e.bit)
  | .readSetup => hold false false (left + (p - 1)) ++ hold true false p ++ afterData p false 31
  | .readHigh =>
    hold false e.pins.mosi (left - 1) ++ hold true e.pins.mosi p ++
      afterData p e.pins.mosi (31 - e.bit)
  | .readLow => hold true e.pins.mosi (left - 1) ++ afterData p e.pins.mosi (31 - e.bit)

variable {cfg : Config} {e : Engine}

/-- A cycle that waits takes one off the step in progress. -/
theorem ahead_wait {e' : Engine} (h : e.Sound cfg) (hi : e.phase ≠ .idle) (hf : e.phase ≠ .finish)
    (hs : e.steps cfg = false)
    (he : e' = { e with divider := e.divider + 1, pins := { e.pins with mosi := e.wire } }) :
    e.ahead cfg = e'.pins :: e'.ahead cfg := by
  have hne : e.divider ≠ cfg.divider.toNat := by simpa [steps] using hs
  have hle := h.divider_le
  obtain ⟨k, hk⟩ : ∃ k, e.stepLeft cfg = k + 2 :=
    ⟨cfg.divider.toNat - 1 - e.divider, by unfold stepLeft; omega⟩
  have hk' : e'.stepLeft cfg = k + 1 := by
    rw [he]
    unfold stepLeft at hk ⊢
    dsimp only
    omega
  have hphase : e'.phase = e.phase := by rw [he]
  have hbit : e'.bit = e.bit := by rw [he]
  have hshift : e'.shiftOut = e.shiftOut := by rw [he]
  have hwaking : e'.waking = e.waking := by rw [he]
  have hpins : e'.pins = ⟨false, decide (e.phase = .clockLow ∨ e.phase = .readLow), e.wire⟩ := by
    simp [he, h.csN_eq, h.sclk_eq, hi]
  have hmosi := h.mosi_eq
  have hsum : k + 2 + (cfg.period - 1) = k + 1 + (cfg.period - 1) + 1 := by omega
  cases hp : e.phase with
  | idle => exact absurd hp hi
  | finish => exact absurd hp hf
  | setupBit =>
    simp [ahead, hp, hk, hk', hphase, hbit, hshift, hwaking, hpins, wire, hsum, hold_succ]
  | clockHigh =>
    simp [ahead, hp, hk, hk', hphase, hbit, hshift, hwaking, hpins, wire, hmosi, hold_succ]
  | clockLow =>
    simp [ahead, hp, hk, hk', hphase, hbit, hshift, hwaking, hpins, wire, hmosi, hold_succ]
  | readSetup => simp [ahead, hp, hk, hk', hphase, hpins, wire, hsum, hold_succ]
  | readHigh => simp [ahead, hp, hk, hk', hphase, hbit, hpins, wire, hold_succ]
  | readLow => simp [ahead, hp, hk, hk', hphase, hbit, hpins, wire, hold_succ]

/-- A cycle that takes a step is followed by the cycles of the next one. -/
theorem ahead_step (h : e.Sound cfg) (hi : e.phase ≠ .idle) (hf : e.phase ≠ .finish)
    (hs : e.steps cfg = true) (request : Request) (miso : Bool) :
    e.ahead cfg = if (e.next cfg request miso).pins.csN then [] else
      (e.next cfg request miso).pins :: (e.next cfg request miso).ahead cfg := by
  have hleft := stepLeft_of_steps hs
  have hc : e.pins.csN = false := by simp [h.csN_eq, hi]
  have hk := h.sclk_eq
  have hm := h.mosi_eq
  have hle := h.bit_le
  have hfresh : ∀ e' : Engine, e'.divider = 0 → e'.stepLeft cfg = cfg.divider.toNat + 1 := by
    intro e' hd
    simp [stepLeft, hd]
  have hgap : 2 * (cfg.divider.toNat + 1) - 1 = cfg.divider.toNat + 1 + cfg.divider.toNat := by
    omega
  cases hp : e.phase with
  | idle => exact absurd hp hi
  | finish => exact absurd hp hf
  | setupBit =>
    rw [next_setupBit request miso hp hs]
    simp [ahead, hp, hleft, hfresh, hc, hk, Config.period, hold_succ, Nat.add_comm 1]
  | clockHigh =>
    rw [next_clockHigh request miso hp hs]
    simp [ahead, hp, hleft, hfresh, hc, hm, Config.period, hold_succ]
  | clockLow =>
    by_cases hb : e.bit = 31
    · cases hw : e.waking with
      | true =>
        rw [next_clockLow_wake request miso hp hs hb hw]
        simp [ahead, hp, hleft, hb, hw, afterBit, endWake]
      | false =>
        rw [next_clockLow_read request miso hp hs hb hw]
        simp [ahead, hp, hleft, hfresh, hb, hw, hc, hm, hgap, afterBit, Config.period, hold_succ]
    · have hlast : 31 - e.bit = 30 - e.bit + 1 := by omega
      have hthis : 30 - (30 - e.bit) = e.bit := by omega
      have hnext : 31 - (30 - e.bit) = e.bit + 1 := by omega
      rw [next_clockLow_of_ne request miso hp hs hb]
      simp [ahead, hp, hleft, hfresh, hc, hm, hgap, hlast, hthis, hnext, afterBit, Config.period,
        hold_succ]
  | readSetup =>
    rw [next_readSetup request miso hp hs]
    have hb := h.bit_eq_zero (.inr hp)
    simp [ahead, hp, hleft, hfresh, hc, hk, hb, Config.period, hold_succ, Nat.add_comm 1]
  | readHigh =>
    rw [next_readHigh request miso hp hs]
    simp [ahead, hp, hleft, hfresh, hc, Config.period, hold_succ]
  | readLow =>
    by_cases hb : e.bit = 31
    · rw [next_readLow_last request miso hp hs hb]
      simp [ahead, hp, hleft, hb, hc, afterData, hold_succ]
    · have hlast : 31 - e.bit = 30 - e.bit + 1 := by omega
      rw [next_readLow_of_ne request miso hp hs hb]
      simp [ahead, hp, hleft, hfresh, hc, hlast, afterData, Config.period, hold_succ]

/-- **The wires of a frame are settled when it starts.**  The next cycle shows the first ones that
are ahead, or releases the device if there are none, whatever is presented. -/
theorem ahead_next (h : e.Sound cfg) (hi : e.phase ≠ .idle) (request : Request) (miso : Bool) :
    e.ahead cfg = if (e.next cfg request miso).pins.csN then [] else
      (e.next cfg request miso).pins :: (e.next cfg request miso).ahead cfg := by
  by_cases hf : e.phase = .finish
  · rw [next_finish request miso hf]
    simp [ahead, hf]
  cases hs : e.steps cfg with
  | true => exact ahead_step h hi hf hs request miso
  | false =>
    have hwait := next_wait request miso hi hf hs
    have hc : (e.next cfg request miso).pins.csN = false := by simp [hwait, h.csN_eq, hi]
    rw [ahead_wait h hi hf hs hwait, hc]
    rfl

/-- While the device is selected, the wires are those that were ahead. -/
theorem ahead_eq_append (h : e.Sound cfg) (hi : e.phase ≠ .idle) (is : List Input)
    (hlow : Pins.Selected (wires cfg is e)) :
    e.ahead cfg = wires cfg is e ++ (after cfg is e).ahead cfg ∧
      (after cfg is e).phase ≠ .idle := by
  induction is generalizing e with
  | nil => exact ⟨rfl, hi⟩
  | cons i is ih =>
    have hn := h.next i.request i.miso
    have hc : (e.next cfg i.request i.miso).pins.csN = false := hlow _ List.mem_cons_self
    have hi' : (e.next cfg i.request i.miso).phase ≠ .idle := by simpa [hn.csN_eq] using hc
    obtain ⟨hrest, hlast⟩ := ih hn hi' fun p hp => hlow p (List.mem_cons_of_mem _ hp)
    refine ⟨?_, hlast⟩
    rw [ahead_next h hi i.request i.miso, hc, hrest]
    rfl

/-- The device is released exactly when nothing is ahead. -/
theorem csN_next_iff (h : e.Sound cfg) (hi : e.phase ≠ .idle) (request : Request) (miso : Bool) :
    (e.next cfg request miso).pins.csN = true ↔ e.ahead cfg = [] := by
  rw [ahead_next h hi request miso]
  split <;> simp [*]

/-- In a cycle without a frame on the link, the wires stay, or the device is selected. -/
theorem idle_pins (request : Request) : (e.idle cfg request).pins = e.pins ∨
    (e.idle cfg request).pins = { e.pins with csN := false, sclk := false } := by
  rcases e.settled_or with hset | ⟨ha, hd | ⟨hd, opcode, ho⟩⟩
  · rw [idle_settled request hset]
    cases request with
    | read address => exact .inr rfl
    | none => exact .inl rfl
    | write _ _ _ => exact .inl rfl
  · rw [idle_pause request ha hd]
    exact .inl rfl
  · rw [idle_wake request ha hd ho]
    exact .inr rfl

/-- A frame stays what it was when the device was selected. -/
theorem next_shiftOut (hi : e.phase ≠ .idle) (request : Request) (miso : Bool) :
    (e.next cfg request miso).shiftOut = e.shiftOut := by
  unfold next
  cases hp : e.phase with
  | idle => exact absurd hp hi
  | finish => rfl
  | clockLow => grind [endWake]
  | _ => grind

theorem after_shiftOut (h : e.Sound cfg) (hi : e.phase ≠ .idle) (is : List Input)
    (hlow : Pins.Selected (wires cfg is e)) : (after cfg is e).shiftOut = e.shiftOut := by
  induction is generalizing e with
  | nil => rfl
  | cons i is ih =>
    have hn := h.next i.request i.miso
    have hc : (e.next cfg i.request i.miso).pins.csN = false := hlow _ List.mem_cons_self
    have hi' : (e.next cfg i.request i.miso).phase ≠ .idle := by simpa [hn.csN_eq] using hc
    rw [after_cons, ih hn hi' fun p hp => hlow p (List.mem_cons_of_mem _ hp),
      next_shiftOut hi]

/-! ### Frames -/

/-- The frame for which the device is selected: the next command of the handshake, or the read
that is presented. -/
def Takes (cfg : Config) (e : Engine) (request : Request) (f : Frame) (waking : Bool) : Prop :=
  if waking then ∃ opcode, Opcode.wake[e.wakePhase]? = some opcode ∧ f = .wake opcode
  else ∃ address, request = .read address ∧ f = .read (cfg.translate address)

/-- The device is selected for a frame. -/
theorem next_selected (h : e.Sound cfg) (hi : e.phase = .idle) {request : Request} {miso : Bool}
    (hn : (e.next cfg request miso).pins.csN = false) :
    ∃ f waking, e.Takes cfg request f waking ∧ (e.next cfg request miso).waking = waking ∧
      (e.next cfg request miso).shiftOut = f.bits ∧
      (e.next cfg request miso).phase = .setupBit ∧ (e.next cfg request miso).bit = 0 ∧
      (e.next cfg request miso).pins = ⟨false, false, e.pins.mosi⟩ := by
  have hc : e.pins.csN = true := by simp [h.csN_eq, hi]
  rw [next_idle request miso hi] at hn ⊢
  rcases (e.divide cfg).settled_or with hset | ⟨ha, hd | ⟨hd, opcode, ho⟩⟩
  · rw [idle_settled request hset] at hn ⊢
    cases request with
    | read address => exact ⟨_, false, ⟨address, rfl, rfl⟩, rfl, rfl, rfl, rfl, rfl⟩
    | none => simp [Engine.serve, Engine.divide, hc] at hn
    | write _ _ _ => simp [Engine.serve, Engine.divide, hc] at hn
  · rw [idle_pause request ha hd] at hn
    simp [Engine.divide, hc] at hn
  · rw [idle_wake request ha hd ho]
    exact ⟨_, true, ⟨opcode, ho, rfl⟩, rfl, rfl, rfl, rfl, rfl⟩

/-- The clock of a frame behind its first low phase. -/
def Config.pulses (cfg : Config) (waking : Bool) : List (Bool × Nat) :=
  (true, cfg.period) :: (List.replicate 31 [(false, 2 * cfg.period), (true, cfg.period)]).flatten ++
    if waking then [] else Pins.dataPulses cfg.period

/-- The wires, cycle by cycle, while the device is selected for a frame. -/
structure IsFrame (cfg : Config) (f : Frame) (waking : Bool) (ps : List Pins) : Prop where
  selected : Pins.Selected ps
  /-- The divider runs freely, so the first low phase is up to a serial step longer or shorter. -/
  clock : ∃ lead, cfg.period < lead ∧ lead ≤ 2 * cfg.period ∧
    Pins.clockPhases ps = (false, lead) :: cfg.pulses waking
  sampled : Pins.sampled false ps =
    (List.range frameBits).map f.bits.getMsbD ++ List.replicate (if waking then 0 else 32) false

theorem isFrame_ahead (h : e.Sound cfg) (hp : e.phase = .setupBit) (hb : e.bit = 0) {f : Frame}
    (hs : e.shiftOut = f.bits) {mosi : Bool} (hpins : e.pins = ⟨false, false, mosi⟩) :
    IsFrame cfg f e.waking (e.pins :: e.ahead cfg) := by
  have hpos : 0 < cfg.period := Nat.succ_pos _
  have hle : e.stepLeft cfg ≤ cfg.period := stepLeft_le
  have hleft : 0 < e.stepLeft cfg := by
    have := h.divider_le
    unfold stepLeft
    omega
  have hwave : e.pins :: e.ahead cfg = hold false mosi 1 ++
      (hold false (f.bits.getMsbD 0) (e.stepLeft cfg + (cfg.period - 1)) ++
        hold true (f.bits.getMsbD 0) cfg.period ++
        afterBit cfg.period f.bits e.waking 31) := by
    simp [ahead, hp, hb, hs, hpins, hold_succ]
  have hlow := Pins.startsLow_afterBit (p := cfg.period) f.bits e.waking 31
  rw [hwave]
  constructor
  · simp [Pins.selected_afterBit]
  · refine ⟨e.stepLeft cfg + cfg.period, by omega, by omega, ?_⟩
    rw [Pins.clockPhases_hold _ _ Nat.one_pos, Pins.clockPhases_pulse (by omega) hpos hlow,
      Pins.joinPhase_same, Pins.clockPhases_afterBit hpos]
    rw [show 1 + (e.stepLeft cfg + (cfg.period - 1)) = e.stepLeft cfg + cfg.period by omega]
    rfl
  · rw [Pins.sampled_low _ _ Nat.one_pos, Pins.sampled_pulse (by omega) hpos,
      Pins.sampled_afterBit hpos _ _ (Nat.le_refl 31)]
    rfl

/-! ### The wires since power-on -/

theorem next_legal (h : e.Sound cfg) (request : Request) (miso : Bool) :
    Pins.Legal e.pins (e.next cfg request miso).pins := by
  have hn := h.next request miso
  constructor
  · intro hc
    have hp : (e.next cfg request miso).phase = .idle := by simpa [hn.csN_eq] using hc
    simp [hn.sclk_eq, hp]
  · have hk := h.sclk_eq
    by_cases hi : e.phase = .idle
    · intro hrise
      rw [next_idle request miso hi] at hrise ⊢
      rcases idle_pins (e := e.divide cfg) request with hpins | hpins
      · rw [hpins]
        rfl
      · simp [hpins] at hrise
    · clear hn
      unfold next
      cases hp : e.phase with
      | idle => exact absurd hp hi
      | _ => grind [endWake]

theorem isChain_wires (h : e.Sound cfg) (is : List Input) :
    List.IsChain Pins.Legal (e.pins :: wires cfg is e) := by
  induction is generalizing e with
  | nil => exact .singleton _
  | cons i is ih =>
    exact .cons_cons (next_legal h i.request i.miso) (ih (h.next i.request i.miso))

/-- **The wires of an engine keep to clock mode 0, and every frame is exactly timed.**  Whatever
is presented and received since power-on, the clock rests while the device is not selected, and
data is on the wire before the clock rises and until it has fallen.

When the device is selected, it is for a frame that is taken then: a command of the handshake,
or the read that is presented.  What the wires do from there on is settled as well (`ps`).
Whatever comes in meanwhile, they show a part of it and the frame stays what it is, and the device
is released exactly when all of it was shown. -/
theorem frames_timed (cfg : Config) (before : List Input) :
    List.IsChain Pins.Legal (Pins.idle :: wires cfg before (powerOn cfg)) ∧
    ∀ i, (after cfg before (powerOn cfg)).pins.csN = true →
      (after cfg (before ++ [i]) (powerOn cfg)).pins.csN = false →
      ∃ f waking ps, (after cfg before (powerOn cfg)).Takes cfg i.request f waking ∧
        IsFrame cfg f waking ps ∧
        ∀ more, Pins.Selected (wires cfg (i :: more) (after cfg before (powerOn cfg))) →
          wires cfg (i :: more) (after cfg before (powerOn cfg)) <+: ps ∧
          (after cfg (before ++ i :: more) (powerOn cfg)).shiftOut = f.bits ∧
          ∀ j, (after cfg (before ++ i :: more ++ [j]) (powerOn cfg)).pins.csN = true ↔
            wires cfg (i :: more) (after cfg before (powerOn cfg)) = ps := by
  have h := sound_after_powerOn cfg before
  refine ⟨isChain_wires (sound_powerOn cfg) before, fun i hc hn => ?_⟩
  simp only [after_append, after_cons, after_nil, wires_cons] at hn ⊢
  revert h hc hn
  generalize after cfg before (powerOn cfg) = e
  intro h hc hn
  have hi : e.phase = .idle := by simpa [h.csN_eq] using hc
  obtain ⟨f, waking, htakes, hw, hs, hp, hb, hpins⟩ := next_selected h hi hn
  have hfirst := h.next i.request i.miso
  revert hfirst hn hw hs hp hb hpins
  generalize e.next cfg i.request i.miso = first
  intro hn hw hs hp hb hpins hfirst
  have hbusy : first.phase ≠ .idle := by simp [hp]
  refine ⟨f, waking, _, htakes, hw ▸ isFrame_ahead hfirst hp hb hs hpins, fun more hlow => ?_⟩
  have hlow : Pins.Selected (wires cfg more first) := fun p hp => hlow p (List.mem_cons_of_mem _ hp)
  obtain ⟨hahead, hlast⟩ := ahead_eq_append hfirst hbusy more hlow
  refine ⟨?_, ?_, fun j => ?_⟩
  · rw [hahead]
    exact List.prefix_append (first.pins :: wires cfg more first) _
  · rw [after_shiftOut hfirst hbusy more hlow, hs]
  · rw [csN_next_iff (hfirst.after more) hlast, hahead]
    simp

/-- A wake command goes out while a read waits. -/
def wakingConfig : Config := ⟨4, 1, true, 2⟩

/-- What is presented and received during the command. -/
def wakingInputs : List Input :=
  List.replicate 95 ⟨.read 8, true⟩ ++ List.replicate 95 ⟨.none, false⟩

theorem frames_timed_waking :
    (powerOn wakingConfig).pins.csN = true ∧
    Pins.Selected (wires wakingConfig (⟨.none, true⟩ :: wakingInputs) (powerOn wakingConfig)) ∧
    (after wakingConfig (⟨.none, true⟩ :: wakingInputs ++ [⟨.read 8, true⟩])
      (powerOn wakingConfig)).pins.csN = true ∧
    IsFrame wakingConfig (.wake Opcode.resetEnable) true
      (wires wakingConfig (⟨.none, true⟩ :: wakingInputs) (powerOn wakingConfig)) := by
  have hlow : Pins.Selected
      (wires wakingConfig (⟨.none, true⟩ :: wakingInputs) (powerOn wakingConfig)) := by
    decide +kernel
  have hend : (after wakingConfig (⟨.none, true⟩ :: wakingInputs ++ [⟨.read 8, true⟩])
      (powerOn wakingConfig)).pins.csN = true := by decide +kernel
  obtain ⟨-, hframes⟩ := frames_timed wakingConfig []
  obtain ⟨f, waking, ps, htakes, hframe, hmore⟩ := hframes ⟨.none, true⟩ rfl rfl
  obtain ⟨-, -, hall⟩ := hmore wakingInputs hlow
  simp only [List.nil_append] at hall
  obtain rfl := (hall ⟨.read 8, true⟩).1 hend
  refine ⟨rfl, hlow, hend, ?_⟩
  cases waking with
  | true =>
    obtain ⟨opcode, ho, rfl⟩ := htakes
    obtain rfl : Opcode.resetEnable = opcode := Option.some.inj ho
    exact hframe
  | false =>
    obtain ⟨address, hrequest, -⟩ := htakes
    exact nomatch hrequest

end Engine
end Flash
end WeightLink
