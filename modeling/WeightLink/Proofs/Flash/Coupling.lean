/-
# Engine and device in step

The two machines of a link share three wires and one clock, and see each other with a
delay.  What the device has made of the wires is a function of the engine's state all
the same: how far its transaction is (`Engine.heard`), whether it is out of deep
power-down (`Engine.released`), and which data bits have arrived (`Engine.received`).
`Engine.Hears` says that the device is there, and `Engine.Hears.next` that a cycle keeps
the two in step.  The falling edge after the last bit of a read frame already puts out
the first data bit, and the one after the last data bit puts out a bit that nobody takes.
-/

import WeightLink.Proofs.Flash.EngineInvariant
import WeightLink.Proofs.Flash.Transaction
import WeightLink.Proofs.Flash.Wire

namespace WeightLink
namespace Flash
namespace Engine

open Device (Transaction)

/-- The transaction of a device that has followed the frame from its start. -/
def heard (e : Engine) : Transaction :=
  match e.phase with
  | .idle => Device.fresh
  | .setupBit | .clockHigh => .command (e.shiftOut >>> (32 - e.bit)) e.bit
  | .clockLow =>
    if e.bit = 31 then if e.waking then .ignoring else .after e.latched 0
    else .command (e.shiftOut >>> (31 - e.bit)) (e.bit + 1)
  | .readSetup | .readHigh | .readLow => .after e.latched (e.bit + 1)
  | .finish => .after e.latched 33

/-- Whether the last command of the handshake was executed. -/
def released (e : Engine) : Bool :=
  3 ≤ e.wakePhase || e.waking && e.wakePhase = 2 && e.phase = .clockLow && e.bit = 31

/-- How many data bits are in their place. -/
def received (e : Engine) : Nat :=
  match e.phase with
  | .readHigh => e.bit
  | .readLow => e.bit + 1
  | .finish => 32
  | _ => 0

/-- The device has followed the engine. -/
@[grind cases]
structure Hears (e : Engine) (d : Device) : Prop where
  sclk_eq : d.sclk = e.pins.sclk
  transaction_eq : d.transaction = e.heard
  awake_eq : d.awake = (!d.requiresWake || e.released)
  /-- The data line shows the bit that is taken next, or was taken last. -/
  miso_eq : e.phase = .readSetup ∨ e.phase = .readHigh ∨ e.phase = .readLow →
    d.miso = d.dataBit e.latched e.bit
  shiftIn_eq : ∀ i < e.received, e.shiftIn.getMsbD i = d.dataBit e.latched i

variable {cfg : Config} {e : Engine} {d : Device}

theorem hears_powerOn (cfg : Config) (ht : d.transaction = Device.fresh) (hs : d.sclk = false)
    (ha : d.awake = !d.requiresWake) : (powerOn cfg).Hears d := by
  constructor <;> simp [powerOn, heard, released, received, Pins.idle, ht, hs, ha]

namespace Hears

/-- A device that is not selected starts over. -/
theorem of_idle {e' : Engine} (h : e.Hears d) (hs : e'.Sound cfg) (hp : e'.phase = .idle)
    (hr : e'.released = e.released) : e'.Hears (d.eval e'.pins) := by
  have hc : e'.pins.csN = true := by simp [hs.csN_eq, hp]
  rw [Device.eval_of_csN hc]
  constructor <;> grind [heard, received]

/-- Without an edge of the clock the device stays where it is. -/
theorem of_level {e' : Engine} (h : e.Hears d) (hc : e'.pins.csN = false)
    (hk : e'.pins.sclk = e.pins.sclk) (ht : e'.heard = e.heard) (hr : e'.released = e.released)
    (hm : e'.phase = .readSetup ∨ e'.phase = .readHigh ∨ e'.phase = .readLow →
      d.miso = d.dataBit e'.latched e'.bit)
    (hi : ∀ i < e'.received, e'.shiftIn.getMsbD i = d.dataBit e'.latched i) :
    e'.Hears (d.eval e'.pins) := by
  rw [Device.eval_level hc (by rw [hk, h.sclk_eq])]
  exact ⟨by rw [hk, h.sclk_eq], by rw [ht, h.transaction_eq], by rw [hr, h.awake_eq], hm, hi⟩

/-- The first cycle of a frame selects the device, which has nothing to take yet. -/
theorem start (h : e.Hears d) (hs : e.Sound cfg) (hp : e.phase = .idle) (f : Frame) (w : Bool)
    (n : Nat) :
    ({ e.start f w with wakeCommands := n } : Engine).Hears
      (d.eval ({ e.start f w with wakeCommands := n } : Engine).pins) := by
  have hw := hs.waking_of_idle hp
  have hk : e.pins.sclk = false := by simp [hs.sclk_eq, hp]
  apply h.of_level
  · rfl
  · exact hk.symm
  · simp [heard, Engine.start, hp, Device.fresh, BitVec.ushiftRight_eq_zero]
  · grind [released, Engine.start]
  · simp [Engine.start]
  · simp [received, Engine.start]

theorem idle (h : e.Hears d) (hs : e.Sound cfg) (hp : e.phase = .idle) (request : Request) :
    (e.idle cfg request).Hears (d.eval (e.idle cfg request).pins) := by
  rcases e.settled_or with hw | ⟨ha, hd | ⟨hd, opcode, ho⟩⟩
  · have hs := hs.wakeUp hp hw
    have h : ({ e with awake := true } : Engine).Hears d := { h with }
    rw [idle_settled request hw]
    cases request with
    | read address => exact h.start hs hp _ false _
    | none => exact h.of_idle hs hp rfl
    | write _ _ _ => exact h.of_idle hs hp rfl
  · have hn := hs.idle hp request
    rw [idle_pause request ha hd] at hn ⊢
    exact h.of_idle hn hp rfl
  · rw [idle_wake request ha hd ho]
    exact h.start hs hp _ true _

/-- The last bit of a frame executes it. -/
theorem execute {e' : Engine} (h : e.Hears d) (hs : e.Sound cfg) (hp : e.phase = .clockHigh)
    (he : e' = { e with divider := 0, pins := { e.pins with sclk := true }, phase := .clockLow })
    (hb : e.bit = 31) :
    e'.Hears (({ d with sclk := true } : Device).execute (Frame.ofBits e.shiftOut)) := by
  have hreq := Device.requiresWake_execute { d with sclk := true } (Frame.ofBits e.shiftOut)
  have hclk := Device.sclk_execute { d with sclk := true } (Frame.ofBits e.shiftOut)
  subst he
  cases hw : e.waking with
  | false =>
    obtain ⟨-, address, ha⟩ := hs.reads (by simp [hp]) hw
    have hf : Frame.ofBits e.shiftOut = Frame.read e.latched := by
      rw [latched_read ha, ha, Frame.ofBits_bits]
    obtain ⟨ht, hawake⟩ := Device.execute_read { d with sclk := true } e.latched
    rw [hf] at hreq hclk ⊢
    constructor
    · exact hclk
    · rw [ht]
      simp [heard, hb, latched]
    · grind [released]
    · simp
    · simp [received]
  | true =>
    obtain ⟨-, -, opcode, ho, ha⟩ := hs.wakes hw
    have hf : Frame.ofBits e.shiftOut = Frame.wake opcode := by rw [ha, Frame.ofBits_bits]
    obtain ⟨hlt, hmem, hlast⟩ := Opcode.of_wake_eq_some ho
    obtain ⟨ht, hawake⟩ := Device.execute_wake { d with sclk := true } hmem
    rw [hf] at hreq hclk ⊢
    constructor
    · exact hclk
    · rw [ht]
      simp [heard, hb]
    · grind [released]
    · simp
    · simp [received]

/-- A rising edge gives the device the next bit of the frame. -/
theorem rise {e' : Engine} (h : e.Hears d) (hs : e.Sound cfg) (hp : e.phase = .clockHigh)
    (he : e' = { e with divider := 0, pins := { e.pins with sclk := true }, phase := .clockLow }) :
    e'.Hears (d.eval e'.pins) := by
  have hk : d.sclk = false := by simp [h.sclk_eq, hs.sclk_eq, hp]
  have hc : e'.pins.csN = false := by simp [he, hs.csN_eq, hp]
  have hm : e'.pins.mosi = e.shiftOut.getMsbD e.bit := by rw [he, ← hs.mosi_eq (Or.inl hp)]
  have ht : d.transaction = .command (e.shiftOut >>> (32 - e.bit)) e.bit := by
    rw [h.transaction_eq, heard, hp]
  have hshift := shiftConcat_ushiftRight e.shiftOut (n := e.bit) (by have := hs.bit_le; omega)
  by_cases hb : e.bit = 31
  · rw [hb] at ht hm hshift
    rw [Device.eval_rise_frame hc (by rw [he]) hk ht, hm, hshift]
    simpa using h.execute hs hp he hb
  · rw [Device.eval_rise_command hc (by rw [he]) hk ht hb, hm, hshift]
    subst he
    constructor
    · rfl
    · simp [heard, hb]
    · grind [released]
    · simp
    · simp [received]

/-- A falling edge inside a frame. -/
theorem fall_command {e' : Engine} (h : e.Hears d) (hs : e.Sound cfg) (hp : e.phase = .clockLow)
    (hb : e.bit ≠ 31)
    (he : e' = { e with
      divider := 0, pins := { e.pins with sclk := false }, bit := e.bit + 1, phase := .setupBit }) :
    e'.Hears (d.eval e'.pins) := by
  have hk : d.sclk = true := by simp [h.sclk_eq, hs.sclk_eq, hp]
  have hc : e'.pins.csN = false := by simp [he, hs.csN_eq, hp]
  have ht : d.transaction = .command (e.shiftOut >>> (31 - e.bit)) (e.bit + 1) := by
    rw [h.transaction_eq, heard, hp]
    simp [hb]
  rw [Device.eval_fall_command hc (by rw [he]) hk ht]
  subst he
  constructor
  · rfl
  · rw [ht, heard]
    simp only [show 32 - (e.bit + 1) = 31 - e.bit by omega]
  · grind [released]
  · simp
  · simp [received]

/-- A falling edge after the frame of a read puts out the data bit after the `n` bits that
were put out so far. -/
theorem fall_data {e' : Engine} {n : Nat} (h : e.Hears d) (hk : e.pins.sclk = true)
    (ht : e.heard = .after e.latched n) (hc : e'.pins.csN = false) (hk' : e'.pins.sclk = false)
    (hr : e'.released = e.released) (hl : e'.latched = e.latched)
    (ht' : e'.heard = .after e.latched (n + 1)) (hbit : e'.phase = .finish ∨ e'.bit = n)
    (hi : ∀ i < e'.received, e'.shiftIn.getMsbD i = d.dataBit e.latched i) :
    e'.Hears (d.eval e'.pins) := by
  rw [Device.eval_fall_after hc hk' (by rw [h.sclk_eq, hk]) (by rw [h.transaction_eq, ht])]
  constructor
  · exact hk'.symm
  · exact ht'.symm
  · rw [hr]
    exact h.awake_eq
  · intro hp
    rcases hbit with hf | rfl
    · simp [hf] at hp
    · rw [hl]
      rfl
  · rw [hl]
    exact hi

/-- The engine takes a data bit. -/
theorem capture {e' : Engine} (h : e.Hears d) (hs : e.Sound cfg) (hp : e.phase = .readHigh)
    (he : e' = { e with
      divider := 0
      pins := { e.pins with sclk := true }
      shiftIn := e.capture d.miso
      phase := .readLow }) :
    e'.Hears (d.eval e'.pins) := by
  have hk : d.sclk = false := by simp [h.sclk_eq, hs.sclk_eq, hp]
  have hc : e'.pins.csN = false := by simp [he, hs.csN_eq, hp]
  have ht : d.transaction = .after e.latched (e.bit + 1) := by
    rw [h.transaction_eq, heard, hp]
  have hm := h.miso_eq (by simp [hp])
  have hle := hs.bit_le
  rw [Device.eval_rise_after hc (by rw [he]) hk ht]
  subst he
  constructor
  · rfl
  · exact ht
  · grind [released]
  · intro _
    exact hm
  · intro i hi
    simp only [received] at hi
    rw [getMsbD_capture e d.miso hle (by omega)]
    split
    · next hbit =>
      rw [hbit, hm]
      rfl
    · exact h.shiftIn_eq i (by simp only [received, hp]; omega)

/-- New contents do not matter to a device without data bits on their way. -/
theorem of_not_reading {d' : Device} (h : e.Hears d) (hs : e.Sound cfg) (hr : e.reading = false)
    (hk : d'.sclk = d.sclk) (ht : d'.transaction = d.transaction) (ha : d'.awake = d.awake)
    (hw : d'.requiresWake = d.requiresWake) : e.Hears d' := by
  constructor <;> grind [Phase.sends, reading, received]

/-- **A cycle keeps the device in step.** -/
theorem next (h : e.Hears d) (hs : e.Sound cfg) (request : Request) :
    (e.next cfg request d.miso).Hears (d.eval (e.next cfg request d.miso).pins) := by
  by_cases hi : e.phase = .idle
  · rw [next_idle request d.miso hi]
    exact idle (e := e.divide cfg) { h with } hs.divide hi request
  by_cases hf : e.phase = .finish
  · have hn := hs.next request d.miso
    rw [next_finish request d.miso hf] at hn ⊢
    exact h.of_idle hn rfl (by grind [released, Engine.divide])
  have hc : e.pins.csN = false := by simp [hs.csN_eq, hi]
  cases hd : e.steps cfg with
  | false =>
    rw [next_wait request d.miso hi hf hd]
    exact h.of_level hc rfl rfl rfl h.miso_eq h.shiftIn_eq
  | true =>
    have hk := hs.sclk_eq
    cases hp : e.phase with
    | idle => exact absurd hp hi
    | finish => exact absurd hp hf
    | setupBit =>
      rw [next_setupBit request d.miso hp hd]
      refine h.of_level hc rfl ?_ ?_ ?_ ?_
      · simp [heard, hp]
      · simp [released, hp]
      · simp
      · simp [received]
    | clockHigh => exact h.rise hs hp (next_clockHigh request d.miso hp hd)
    | clockLow =>
      by_cases hb : e.bit = 31
      · cases hw : e.waking with
        | true =>
          have hn := hs.next request d.miso
          obtain ⟨-, -, opcode, ho, -⟩ := hs.wakes hw
          obtain ⟨hlt, -, -⟩ := Opcode.of_wake_eq_some ho
          rw [next_clockLow_wake request d.miso hp hd hb hw] at hn ⊢
          exact h.of_idle hn rfl (by grind [released, endWake])
        | false =>
          rw [next_clockLow_read request d.miso hp hd hb hw]
          refine h.fall_data (n := 0) (by simp [hk, hp]) ?_ hc rfl ?_ rfl rfl (Or.inr rfl) ?_
          · simp [heard, hp, hb, hw]
          · grind [released]
          · simp [received]
      · exact h.fall_command hs hp hb (next_clockLow_of_ne request d.miso hp hd hb)
    | readSetup =>
      rw [next_readSetup request d.miso hp hd]
      have hb := hs.bit_eq_zero (Or.inr hp)
      refine h.of_level hc rfl ?_ ?_ ?_ ?_
      · rw [heard, heard, hp]
        rfl
      · simp [released, hp]
      · intro _
        exact h.miso_eq (Or.inl hp)
      · simp [received, hb]
    | readHigh => exact h.capture hs hp (next_readHigh request d.miso hp hd)
    | readLow =>
      have ht : e.heard = .after e.latched (e.bit + 1) := by rw [heard, hp]
      have hin := h.shiftIn_eq
      simp only [received, hp] at hin
      by_cases hb : e.bit = 31
      · rw [next_readLow_last request d.miso hp hd hb]
        refine h.fall_data (by simp [hk, hp]) ht hc rfl ?_ rfl ?_ (Or.inl rfl) ?_
        · grind [released]
        · rw [heard, hb]
          rfl
        · simpa [received, hb] using hin
      · rw [next_readLow_of_ne request d.miso hp hd hb]
        refine h.fall_data (by simp [hk, hp]) ht hc rfl ?_ rfl rfl (Or.inr rfl) ?_
        · grind [released]
        · exact hin

/-- **The engine answers with the bytes at the address that it has sent.** -/
theorem answer (h : e.Hears d) {word : UInt32} (hw : e.response = some word) {k : Nat}
    (hk : k < 4) : Word.byte word k = d.dataByte (e.latched + BitVec.ofNat 24 k) := by
  have hp := phase_of_response hw
  simp only [response, hp, if_true, Option.some.injEq] at hw
  subst hw
  refine Word.byte_swap_of_getMsbD (b := fun n => d.dataByte (_ + BitVec.ofNat 24 n))
    (fun i hi => ?_) hk
  exact h.shiftIn_eq i (by simpa [received, hp] using hi)

end Hears
end Engine
end Flash
end WeightLink
