/-
# The counters of a link that only reads

A cycle in which a read is presented is counted more than once.  Either the read waits, which is a
stall, or it is answered.  Either a frame is on the link after the cycle, or the cycle answers, or
the handshake keeps the device released for it (`Engine.next_account`).  And it is one of the
latency of the read that is held.

So the counters of a link that has served some blocking reads since power-on, and nothing else, are
determined by the reads and by the cycles that they took (`Link.Ledger`): what the cycles keep
(`Counted.cycle`) is carried through the hold of a request to the next answered read
(`Ledger.readWord`), and from there through all of them (`Link.Served.ledger`).
-/

import WeightLink.Proofs.Flash.Handshake

namespace WeightLink
namespace Flash

/-! ### Latencies -/

namespace Latency

variable {l : Latency} {n sum : Nat}

/-- The latencies of `n` reads that took `sum` cycles together. -/
structure Sums (n sum : Nat) (l : Latency) : Prop where
  count_eq : l.count = n
  total_eq : l.total = sum % 2 ^ 64
  min_le : n * l.min ≤ sum
  le_max : sum ≤ n * l.max

theorem sums_none : none.Sums 0 0 := ⟨rfl, rfl, Nat.le_refl 0, Nat.le_refl 0⟩

/-- One more read. -/
theorem Sums.add (h : l.Sums n sum) (cycles : Nat) :
    (l.add cycles).Sums (n + 1) (sum + cycles) := by
  have hmin : n * (l.add cycles).min ≤ n * l.min ∧ (l.add cycles).min ≤ cycles := by
    unfold Latency.add
    rw [h.count_eq]
    split
    · simp [*]
    · exact ⟨Nat.mul_le_mul_left n (Nat.min_le_left _ _), Nat.min_le_right _ _⟩
  have hmax : n * l.max ≤ n * (l.add cycles).max := Nat.mul_le_mul_left n (Nat.le_max_left _ _)
  have hnew : cycles ≤ (l.add cycles).max := Nat.le_max_right _ _
  refine ⟨congrArg (· + 1) h.count_eq, ?_, ?_, ?_⟩
  · change (l.total + cycles) % 2 ^ 64 = (sum + cycles) % 2 ^ 64
    rw [h.total_eq, Nat.mod_add_mod]
  · rw [Nat.succ_mul]
    exact Nat.add_le_add (Nat.le_trans hmin.1 h.min_le) hmin.2
  · rw [Nat.succ_mul]
    exact Nat.add_le_add (Nat.le_trans h.le_max hmax) hnew

end Latency

/-! ### What a cycle of the engine is spent on -/

namespace Engine

variable {cfg : Config} {e : Engine}

/-- The cycles for which the handshake has kept the device released. -/
def paused (cfg : Config) (e : Engine) : Nat :=
  e.wakePhase * (cfg.wakeDelay.toNat + 1) - e.delayLeft

/-- A command starts after the pause of the one before it. -/
def Unpaused (e : Engine) : Prop := e.waking = true → e.delayLeft = 0

theorem Sound.delayLeft_le_mul (h : e.Sound cfg) :
    e.delayLeft ≤ e.wakePhase * (cfg.wakeDelay.toNat + 1) := by
  rcases Nat.eq_zero_or_pos e.wakePhase with hz | hpos
  · rw [h.delayLeft_eq_zero hz]
    exact Nat.zero_le _
  · have hle := h.delayLeft_le
    exact Nat.le_trans (Nat.le_succ_of_le hle) (Nat.le_mul_of_pos_left _ hpos)

/-- A frame goes on, or it is a command and ends in its pause. -/
theorem next_frame (h : e.Sound cfg) (hi : e.phase ≠ .idle) (hf : e.phase ≠ .finish)
    (request : Request) (miso : Bool) :
    ((e.next cfg request miso).busy = true ∧ (e.next cfg request miso).waking = e.waking ∧
      (e.next cfg request miso).wakePhase = e.wakePhase ∧
      (e.next cfg request miso).delayLeft = e.delayLeft) ∨
    (e.waking = true ∧ (e.next cfg request miso).busy = false ∧
      (e.next cfg request miso).waking = false ∧
      (e.next cfg request miso).wakePhase = e.wakePhase + 1 ∧
      (e.next cfg request miso).delayLeft = cfg.wakeDelay.toNat) := by
  have hb : e.busy = true := by simp [h.busy_eq, hi]
  unfold next
  cases hp : e.phase with
  | idle => exact absurd hp hi
  | finish => exact absurd hp hf
  | _ => grind [endWake]

/-- **What a cycle is spent on.**  If a read is presented, a frame is on the link afterwards, or the
cycle answers, or the handshake keeps the device released. -/
theorem next_account (h : e.Sound cfg) (hu : e.Unpaused) (address : UInt32) (miso : Bool) :
    (e.next cfg (.read address) miso).busy.toNat + e.response.isSome.toNat +
        (e.next cfg (.read address) miso).paused cfg = e.paused cfg + 1 ∧
      (e.next cfg (.read address) miso).Unpaused := by
  have hle := h.delayLeft_le_mul
  by_cases hi : e.phase = .idle
  · have hb : e.busy = false := by simp [h.busy_eq, hi]
    have hw := h.waking_of_idle hi
    rw [next_idle _ miso hi]
    rcases (e.divide cfg).settled_or with hset | ⟨ha, hd | ⟨hd, opcode, ho⟩⟩
    · rw [idle_settled _ hset]
      simp [serve, start, divide, response, paused, Unpaused, hi, Nat.add_comm]
    · have hpos : 0 < e.delayLeft := hd
      rw [idle_pause _ ha hd]
      simp only [divide, response, paused, Unpaused, hi, hb, hw]
      simp
      omega
    · have hz : e.delayLeft = 0 := hd
      rw [idle_wake _ ha hd ho]
      simp [start, divide, response, paused, Unpaused, hi, hz, Nat.add_comm]
  by_cases hf : e.phase = .finish
  · rw [next_finish _ miso hf]
    simp [divide, response, paused, Unpaused, hf, h.waking_of_finish hf, Nat.add_comm]
  have hnone : e.response = none := by simp [response, hf]
  rcases next_frame h hi hf (.read address) miso with
    ⟨hb, hw, hphase, hdelay⟩ | ⟨hw, hb, hw', hphase, hdelay⟩
  · refine ⟨?_, fun hw' => hdelay.trans (hu (hw ▸ hw'))⟩
    simp [hnone, hb, paused, hphase, hdelay, Nat.add_comm]
  · refine ⟨?_, fun hw => absurd (hw'.symm.trans hw) Bool.false_ne_true⟩
    have hz := hu hw
    simp only [hnone, hb, paused, hphase, hdelay, hz, Nat.succ_mul]
    simp
    omega

/-- With an answer the handshake is over. -/
theorem Sound.next_woken (h : e.Sound cfg) (hf : e.phase = .finish) (request : Request)
    (miso : Bool) :
    (e.next cfg request miso).wakeCommands = (if cfg.wakeOnBoot then 3 else 0) ∧
      (e.next cfg request miso).paused cfg =
        if cfg.wakeOnBoot then 3 * (cfg.wakeDelay.toNat + 1) else 0 := by
  have hw := h.waking_of_finish hf
  have hcommands := h.wakeCommands_eq
  rw [hw] at hcommands
  have hphase : e.wakePhase = (if cfg.wakeOnBoot then 3 else 0) ∧ e.delayLeft = 0 := by
    cases hboot : cfg.wakeOnBoot with
    | true => exact h.woken_of_finish hboot hf
    | false =>
      have hzero := (h.untouched hboot).2
      exact ⟨hzero, h.delayLeft_eq_zero hzero⟩
  rw [next_finish _ miso hf]
  refine ⟨hcommands.trans (by simp [hphase.1]), ?_⟩
  simp only [paused, Engine.divide, hphase.1, hphase.2]
  cases cfg.wakeOnBoot <;> simp

end Engine

/-! ### What cycles that present a read keep -/

namespace Link

variable {cfg : Config} {l l' : Link} {n : Nat}

/-- How the counters of a link go together if nothing but reads was presented since power-on. -/
structure Counted (cfg : Config) (l : Link) : Prop where
  regular : Regular cfg l
  unpaused : l.engine.Unpaused
  stall_eq : l.stats.stall + l.stats.reads = l.stats.total
  busy_eq : l.stats.busy + l.stats.reads + l.engine.paused cfg.engine = l.stats.total
  writeAcks_eq : l.stats.writeAcks = 0
  wakeCommands_eq : l.stats.wakeCommands = l.engine.wakeCommands

theorem Counted.cycle (h : Counted cfg l) (address : UInt32) :
    Counted cfg (l.cycle (.read address)).2 := by
  obtain rfl := h.regular.config_eq
  obtain ⟨haccount, hu⟩ := Engine.next_account h.regular.sound h.unpaused address l.miso
  have hstall := h.stall_eq
  have hbusy := h.busy_eq
  refine ⟨h.regular.cycle _, hu, ?_, ?_, h.writeAcks_eq, rfl⟩
  · change l.stats.stall + (true && !l.engine.ready (.read address)).toNat +
      (l.stats.reads + l.engine.response.isSome.toNat) = l.stats.total + 1
    rw [ready_read]
    cases l.engine.response.isSome <;> simp <;> omega
  · change l.stats.busy + (l.engine.next l.config.engine (.read address) l.miso).busy.toNat +
      (l.stats.reads + l.engine.response.isSome.toNat) +
      (l.engine.next l.config.engine (.read address) l.miso).paused l.config.engine =
      l.stats.total + 1
    omega

theorem Counted.withLatency (h : Counted cfg l) (latency : Latency) :
    Counted cfg (l.withLatency latency) :=
  ⟨⟨h.regular.config_eq, h.regular.sound⟩, h.unpaused, h.stall_eq, h.busy_eq, h.writeAcks_eq,
    h.wakeCommands_eq⟩

/-! ### What answered reads keep -/

/-- The counters of a link that has served `n` blocking reads since power-on, and nothing else. -/
structure Ledger (cfg : Config) (n : Nat) (l : Link) : Prop where
  counted : Counted cfg l
  reads_eq : l.stats.reads = n
  latency : l.stats.latency.Sums n l.stats.total
  total_le : l.stats.total ≤ n * cfg.engine.handshake (if cfg.engine.wakeOnBoot then 3 else 0)
  woken : 0 < n → l.engine.wakeCommands = (if cfg.engine.wakeOnBoot then 3 else 0) ∧
    l.engine.paused cfg.engine =
      if cfg.engine.wakeOnBoot then 3 * (cfg.engine.wakeDelay.toNat + 1) else 0

/-- While a read is held: as many reads were answered as in the beginning, and what is left of
the read is what was not spent. -/
structure Holding (cfg : Config) (start l : Link) : Prop where
  counted : Counted cfg l
  reads_eq : l.stats.reads = start.stats.reads
  latency_eq : l.stats.latency = start.stats.latency
  le_total : start.stats.total ≤ l.stats.total
  left : l.stats.total + l.engine.readLeft cfg.engine ≤
    start.stats.total + start.engine.readLeft cfg.engine

theorem Holding.cycle {start : Link} (h : Holding cfg start l) {address : UInt32}
    (hn : (l.cycle (.read address)).1.response = none) :
    Holding cfg start (l.cycle (.read address)).2 := by
  have hreads : (l.cycle (.read address)).2.stats.reads =
      l.stats.reads + (l.cycle (.read address)).1.response.isSome.toNat := rfl
  have htotal : (l.cycle (.read address)).2.stats.total = l.stats.total + 1 := rfl
  have hle := h.le_total
  have hleft := h.left
  have hnext := Engine.readLeft_next h.counted.regular.sound
    ((Engine.response_eq_none_iff _).1 hn) address l.miso
  have hengine : (l.cycle (.read address)).2.engine =
      l.engine.next cfg.engine (.read address) l.miso := by
    rw [cycle_engine, h.counted.regular.config_eq]
  rw [hn] at hreads
  refine ⟨h.counted.cycle address, hreads.trans h.reads_eq, h.latency_eq, ?_, ?_⟩
  · rw [htotal]
    omega
  · rw [htotal, hengine]
    omega

/-- **One more answered read.** -/
theorem Ledger.readWord (h : Ledger cfg n l) {address word : UInt32} {es : List Event}
    (hr : (readWord address).run l = ⟨.ok word, l', es⟩) : Ledger cfg (n + 1) l' := by
  have hnow : Holding cfg l l := ⟨h.counted, rfl, rfl, Nat.le_refl _, Nat.le_refl _⟩
  obtain ⟨last, hlast, hanswer, rfl⟩ := readWord_some (fun _ h hn => h.cycle hn) hnow hr
  have hf := Engine.phase_of_response hanswer
  have hwoken := hlast.counted.regular.sound.next_woken hf (.read address) last.miso
  have hpos : 1 ≤ last.engine.readLeft cfg.engine := last.engine.readLeft_pos
  have hmost := Engine.readLeft_le h.counted.regular.sound
  have htotal := h.total_le
  have hle := hlast.le_total
  have hleft := hlast.left
  have hsum : l.stats.total + (last.stats.total + 1 - l.stats.total) = last.stats.total + 1 := by
    omega
  have hlatency := h.latency.add (last.stats.total + 1 - l.stats.total)
  rw [hsum, ← hlast.latency_eq] at hlatency
  refine ⟨(hlast.counted.cycle address).withLatency _, ?_, hlatency, ?_, fun _ => ?_⟩
  · change last.stats.reads + last.engine.response.isSome.toNat = n + 1
    rw [hanswer, hlast.reads_eq, h.reads_eq]
    rfl
  · change last.stats.total + 1 ≤ _
    rw [Nat.succ_mul]
    omega
  · rw [← hlast.counted.regular.config_eq] at hwoken ⊢
    exact hwoken

/-- No number of reads that a window is long enough for takes so long that its cycles wrap. -/
theorem Ledger.total_lt (h : Ledger cfg n l) (hn : n ≤ 2 ^ 22) : l.stats.total < 2 ^ 64 := by
  have hdivider := cfg.engine.divider.toNat_lt
  have hdelay := cfg.engine.wakeDelay.toNat_lt
  have hread : cfg.engine.handshake (if cfg.engine.wakeOnBoot then 3 else 0) ≤ 2 ^ 41 := by
    simp only [Engine.Config.handshake, Engine.Config.wakeCycles, Engine.Config.readCycles,
      Engine.Config.period, commandSteps, dataSteps, frameBits]
    split <;> omega
  have hall := Nat.mul_le_mul hn hread
  have htotal := h.total_le
  omega

/-! ### Some reads, one after the other -/

/-- Blocking reads of some words, one after the other, that are all answered. -/
inductive Served : List UInt32 → Link → Link → Prop
  | nil (l : Link) : Served [] l l
  | snoc {addresses : List UInt32} {first l last : Link} {address word : UInt32}
      {es : List Event} : Served addresses first l →
        (readWord address).run l = ⟨.ok word, last, es⟩ →
          Served (addresses ++ [address]) first last

/-- **The counters after some reads** are those of as many answered reads. -/
theorem Served.ledger {addresses : List UInt32} (h : Served addresses l l')
    (hl : Ledger cfg n l) : Ledger cfg (n + addresses.length) l' := by
  induction h with
  | nil => exact hl
  | snoc _ hr ih =>
    rw [List.length_append, ← Nat.add_assoc]
    exact (ih hl).readWord hr

/-- After power-on nothing is counted. -/
theorem ledger_powerOn (hc : l.config = cfg) (he : l.engine = Engine.powerOn cfg.engine)
    (hs : l.stats = .zero) : Ledger cfg 0 l where
  counted := by
    constructor
    · exact ⟨hc, he ▸ Engine.sound_powerOn cfg.engine⟩
    · rw [he]
      exact fun hw => nomatch hw
    · rw [hs]
      rfl
    · simp [hs, he, Stats.zero, Engine.powerOn, Engine.paused]
    · rw [hs]
      rfl
    · rw [hs, he]
      rfl
  reads_eq := by
    rw [hs]
    rfl
  latency := by
    rw [hs]
    exact Latency.sums_none
  total_le := by
    rw [hs]
    exact Nat.zero_le _
  woken h := absurd h (Nat.lt_irrefl 0)

end Link
end Flash
end WeightLink
