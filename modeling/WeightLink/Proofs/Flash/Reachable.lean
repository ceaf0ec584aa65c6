/-
# The states of a link

A link that was powered on goes through cycles, blocking calls, resets and changes of the
contents of its device, which wait until no read is on the link.  `Link.Reachable` are the
states it gets into, whatever the requests.

In all of them the device has followed the engine (`Link.Coupled`).  So the engine answers
with the four bytes at the address of the frame it has sent (`Engine.Hears.answer`): the
word of the bus address that was presented when the frame started (`Link.InFlight`).
-/

import Mathlib.Algebra.Group.Nat.Defs
import WeightLink.Flash.Link
import WeightLink.Proofs.Flash.Coupling

namespace WeightLink
namespace Flash
namespace Link

/-- The flash address of the aligned word that holds a bus address. -/
def Config.flashAddress (cfg : Config) (address : UInt32) : Nat :=
  (cfg.engine.offset.toNat + address.toNat / 4 * 4) % 2 ^ 24

/-- Byte `k` of the word at a bus address.  A device that nobody wakes shows erased bytes. -/
def wordByte (l : Link) (address : UInt32) (k : Nat) : UInt8 :=
  if l.config.engine.wakeOnBoot || !l.config.deviceRequiresWake then
    l.device.image.byte ((l.config.flashAddress address + k) % 2 ^ 24)
  else Image.erasedByte

/-- A read of a bus address is on the link. -/
def InFlight (l : Link) (address : UInt32) : Prop :=
  l.engine.reading = true ∧
    l.engine.shiftOut = (Frame.read (l.config.engine.translate address)).bits

theorem toNat_and_not_three (a : UInt32) : (a &&& ~~~3).toNat = a.toNat / 4 * 4 := by
  have h : (a &&& ~~~3).toBitVec = (a.toBitVec >>> 2) <<< 2 := by
    apply BitVec.eq_of_getLsbD_eq
    intro i hi
    have h3 : (3#32).getLsbD i = decide (i < 2) := by
      rw [BitVec.getLsbD_ofNat, show 3 = 2 ^ 2 - 1 by rfl, Nat.testBit_two_pow_sub_one]
      simp [hi]
    rw [UInt32.toBitVec_and, UInt32.toBitVec_not, UInt32.toBitVec_ofNat]
    simp only [BitVec.getLsbD_and, BitVec.getLsbD_not, BitVec.getLsbD_shiftLeft,
      BitVec.getLsbD_ushiftRight, h3, hi]
    grind
  have hlt := a.toNat_lt
  rw [← UInt32.toNat_toBitVec, h]
  simp only [BitVec.toNat_shiftLeft, BitVec.toNat_ushiftRight, UInt32.toNat_toBitVec,
    Nat.shiftLeft_eq, Nat.shiftRight_eq_div_pow]
  omega

theorem translate_toNat (cfg : Config) (address : UInt32) :
    (cfg.engine.translate address).toNat = cfg.flashAddress address := by
  simp only [Engine.Config.translate, Config.flashAddress, BitVec.toNat_setWidth,
    UInt32.toNat_toBitVec, UInt32.toNat_add, toNat_and_not_three]
  omega

/-- The two machines of a link are in step. -/
structure Coupled (cfg : Config) (l : Link) : Prop where
  config_eq : l.config = cfg
  requiresWake_eq : l.device.requiresWake = cfg.deviceRequiresWake
  sound : l.engine.Sound cfg.engine
  hears : l.engine.Hears l.device
  miso_eq : l.miso = l.device.miso
  started : l.engine.reading = true → ∃ address, l.InFlight address

/-- The states of a link from power-on onwards. -/
inductive Reachable (cfg : Config) : Link → Prop
  | create {l : Link} : create cfg = .ok l → Reachable cfg l
  | cycle {l : Link} (request : Request) : Reachable cfg l → Reachable cfg (l.cycle request).2
  | readWord {l : Link} (address : UInt32) :
      Reachable cfg l → Reachable cfg ((readWord address).run l).state
  | writeWord {l : Link} (address data : UInt32) (mask : UInt8) :
      Reachable cfg l → Reachable cfg ((writeWord address data mask).run l).state
  | reset {l : Link} : Reachable cfg l → Reachable cfg l.reset
  | load {l : Link} {device : Device} (offset : Nat) (data : Buffer UInt8) :
      Reachable cfg l → l.engine.reading = false → l.device.load offset data = .ok device →
        Reachable cfg { l with device }

/-! ### Parts of a cycle -/

/-- A read is accepted with its answer. -/
theorem ready_read (l : Link) (address : UInt32) :
    l.engine.ready (.read address) = l.engine.response.isSome := by
  unfold Engine.ready Engine.response
  split <;> simp [Request.isWrite, *]

section Cycle

variable (request : Request) (l : Link)

@[simp] theorem cycle_response : (l.cycle request).1.response = l.engine.response := rfl

@[simp] theorem cycle_ready : (l.cycle request).1.ready = l.engine.ready request := rfl

@[simp] theorem cycle_config : (l.cycle request).2.config = l.config := rfl

@[simp] theorem cycle_engine :
    (l.cycle request).2.engine = l.engine.next l.config.engine request l.miso := rfl

@[simp] theorem cycle_device :
    (l.cycle request).2.device =
      l.device.eval (l.engine.next l.config.engine request l.miso).pins := rfl

theorem wordByte_cycle : (l.cycle request).2.wordByte = l.wordByte := by
  funext address k
  simp [wordByte, Device.image_eval]

theorem generation_cycle : (l.cycle request).2.device.generation = l.device.generation := by
  simp [Device.generation_eval]

end Cycle

/-! ### The machines stay in step -/

theorem create_eq_ok {cfg : Config} {l : Link} (h : create cfg = .ok l) :
    cfg.deviceBytes ≤ Device.maxCapacity ∧ l.config = cfg ∧
      l.engine = Engine.powerOn cfg.engine ∧ l.stats = .zero ∧
      l.device.image = Image.erased cfg.deviceBytes := by
  unfold create Device.create at h
  split at h
  · exact nomatch h
  · rename_i hfits
    obtain rfl := Except.ok.inj h
    exact ⟨by omega, rfl, rfl, rfl, rfl⟩

theorem reading_create {cfg : Config} {l : Link} (h : create cfg = .ok l) :
    l.engine.reading = false := by
  obtain ⟨-, -, hengine, -⟩ := create_eq_ok h
  rw [hengine]
  rfl

theorem coupled_create {cfg : Config} {l : Link} (h : create cfg = .ok l) : Coupled cfg l := by
  unfold create Device.create at h
  split at h
  · exact absurd h (by simp [bind, Except.bind])
  · simp only [bind, Except.bind, Pure.pure, Except.pure, Except.ok.injEq] at h
    subst h
    exact ⟨rfl, rfl, Engine.sound_powerOn _, Engine.hears_powerOn _ rfl rfl rfl, rfl,
      fun hr => nomatch hr⟩

namespace Coupled

variable {cfg : Config} {l : Link}

/-- Without an answer, the read on the link stays there, whatever is presented. -/
theorem inFlight_cycle (h : Coupled cfg l) {address : UInt32} (hf : l.InFlight address)
    (hn : l.engine.phase ≠ .finish) (request : Request) :
    (l.cycle request).2.InFlight address := by
  obtain ⟨hr, hs⟩ := h.sound.next_reading hf.1 hn request l.miso
  rw [← h.config_eq] at hr hs
  exact ⟨hr, hs.trans hf.2⟩

/-- A read that comes onto the link is the one that is presented. -/
theorem inFlight_of_started (h : Coupled cfg l) (hr : l.engine.reading = false)
    {request : Request} (hn : (l.cycle request).2.engine.reading = true) :
    ∃ address, request = .read address ∧ (l.cycle request).2.InFlight address := by
  rw [cycle_engine, h.config_eq] at hn
  obtain ⟨address, rfl, hs⟩ := h.sound.next_started hr request l.miso hn
  refine ⟨address, rfl, ?_, ?_⟩
  · rw [cycle_engine, h.config_eq]
    exact hn
  · rw [cycle_engine, cycle_config, h.config_eq]
    exact hs

theorem cycle (h : Coupled cfg l) (request : Request) : Coupled cfg (l.cycle request).2 := by
  constructor
  · exact h.config_eq
  · simp [Device.requiresWake_eval, h.requiresWake_eq]
  · simpa [h.config_eq] using h.sound.next request l.miso
  · simpa [h.config_eq, h.miso_eq] using h.hears.next h.sound request
  · rfl
  · intro hr
    by_cases hp : l.engine.phase = .finish
    · rw [cycle_engine, Engine.Sound.next_answered hp] at hr
      exact nomatch hr
    by_cases hl : l.engine.reading = true
    · obtain ⟨address, hf⟩ := h.started hl
      exact ⟨address, h.inFlight_cycle hf hp request⟩
    · obtain ⟨address, -, hf⟩ := h.inFlight_of_started (by simpa using hl) hr
      exact ⟨address, hf⟩

theorem reset (h : Coupled cfg l) : Coupled cfg l.reset := by
  constructor
  · exact h.config_eq
  · exact h.requiresWake_eq
  · simpa [Link.reset, h.config_eq] using Engine.sound_powerOn cfg.engine
  · exact Engine.hears_powerOn _ rfl rfl rfl
  · rfl
  · exact fun hr => nomatch hr

/-- Nobody looks at the counters. -/
theorem withStats (h : Coupled cfg l) (stats : Stats) : Coupled cfg { l with stats } :=
  ⟨h.config_eq, h.requiresWake_eq, h.sound, h.hears, h.miso_eq, h.started⟩

/-- The contents may change while no data bits are on their way. -/
theorem load (h : Coupled cfg l) (hr : l.engine.reading = false) {device : Device}
    {offset : Nat} {data : Buffer UInt8} (hd : l.device.load offset data = .ok device) :
    Coupled cfg { l with device } := by
  obtain ⟨image, generation, rfl, -⟩ := Device.load_eq hd
  exact ⟨h.config_eq, h.requiresWake_eq, h.sound,
    h.hears.of_not_reading h.sound hr rfl rfl rfl rfl, h.miso_eq, h.started⟩

/-- While a read is on the link, the device is awake if the engine wakes it or it needs no
waking. -/
theorem awake_of_reading (h : Coupled cfg l) (hr : l.engine.reading = true) :
    (!l.device.requiresWake || l.device.awake) =
      (cfg.engine.wakeOnBoot || !cfg.deviceRequiresWake) := by
  obtain ⟨hb, hw⟩ : l.engine.busy = true ∧ l.engine.waking = false := by
    simpa [Engine.reading] using hr
  have hi : l.engine.phase ≠ .idle := by simpa [h.sound.busy_eq] using hb
  -- A read is not sent before the handshake is over, so only a missing handshake counts.
  obtain ⟨hawake, -⟩ := h.sound.reads hi hw
  have hreleased : l.engine.released = cfg.engine.wakeOnBoot := by
    cases hboot : cfg.engine.wakeOnBoot with
    | true =>
      obtain ⟨hthree, -⟩ := (h.sound.asleep hboot).2 hawake
      simp [Engine.released, hthree]
    | false =>
      obtain ⟨-, hzero⟩ := h.sound.untouched hboot
      simp [Engine.released, hzero]
  rw [h.hears.awake_eq, hreleased, h.requiresWake_eq]
  cases cfg.deviceRequiresWake <;> cases cfg.engine.wakeOnBoot <;> rfl

/-- **The answer to a read on the link is the word of its address.** -/
theorem answer_inFlight (h : Coupled cfg l) {address word : UInt32} (hf : l.InFlight address)
    (hw : l.engine.response = some word) {k : Nat} (hk : k < 4) :
    Word.byte word k = l.wordByte address k := by
  have haddr : (l.engine.latched + BitVec.ofNat 24 k).toNat =
      (l.config.flashAddress address + k) % 2 ^ 24 := by
    rw [Engine.latched_read hf.2, BitVec.toNat_add, translate_toNat, BitVec.toNat_ofNat]
    omega
  have hawake := h.awake_of_reading hf.1
  rw [h.hears.answer hw hk, Device.dataByte, haddr, wordByte, h.config_eq, ← hawake]
  cases l.device.requiresWake <;> cases l.device.awake <;> rfl

end Coupled

/-! ### Blocking calls -/

/-- What every cycle of a held request keeps is kept to the end. -/
theorem hold_induction {α : Type} {P : Link → Prop} {request : Request}
    (hcycle : ∀ l, P l → P (l.cycle request).2) (answer : Outputs → Option α) (n : Nat) {l : Link}
    (h : P l) : P (hold request answer n l).2 := by
  induction n generalizing l with
  | zero => exact h
  | succ n ih =>
    simp only [hold]
    split
    · exact hcycle l h
    · exact ih (hcycle l h)

/-- What cycles without a request keep, idling keeps. -/
theorem idle_induction {P : Link → Prop} (hcycle : ∀ l, P l → P (l.cycle .none).2) (n : Nat)
    {l : Link} (h : P l) : P (idle n l) := by
  induction n generalizing l with
  | zero => exact h
  | succ n ih => exact ih (hcycle l h)

/-- The cycle that answers a held request, with what every cycle without an answer keeps. -/
theorem hold_some {α : Type} {P : Link → Prop} {request : Request} {answer : Outputs → Option α}
    (hcycle : ∀ l, P l → answer (l.cycle request).1 = none → P (l.cycle request).2) {n : Nat}
    {l after : Link} {a : α} (h : P l) (ha : hold request answer n l = (some a, after)) :
    ∃ last, P last ∧ answer (last.cycle request).1 = some a ∧ after = (last.cycle request).2 := by
  induction n generalizing l with
  | zero => exact nomatch ha
  | succ n ih =>
    simp only [hold] at ha
    cases hnow : answer (l.cycle request).1 with
    | some b =>
      simp only [hnow, Prod.mk.injEq, Option.some.injEq] at ha
      exact ⟨l, h, ha.1 ▸ hnow, ha.2.symm⟩
    | none =>
      simp only [hnow] at ha
      exact ih (hcycle l h hnow) ha

@[simp] theorem run_observed {α : Type} (f : Link → α × Link) (l : Link) :
    (observed f).run l = ⟨.ok (f l).1, (f l).2, notices l (f l).2⟩ := rfl

/-- A blocking read, in terms of the cycles that it takes. -/
theorem run_readWord (address : UInt32) (l : Link) :
    (readWord address).run l =
      match hold (.read address) Outputs.response l.config.budget l with
      | (some word, after) =>
        ⟨.ok word,
          { after with
            stats :=
              { after.stats with
                latency := after.stats.latency.add (after.stats.total - l.stats.total) } },
          notices l after⟩
      | (none, after) =>
        ⟨.error (.readTimeout address (after.stats.total - l.stats.total) after.engine.phase),
          after, notices l after⟩ := by
  unfold readWord
  simp only [Action.run_bind, Action.run_get, run_observed]
  rcases hold (.read address) Outputs.response l.config.budget l with ⟨_ | word, after⟩
  · simp [Action.run_bind]
  · simp [Except.map]

/-- The link with other latencies. -/
def withLatency (l : Link) (latency : Latency) : Link :=
  { l with stats := { l.stats with latency } }

/-- The cycle that answers a blocking read, with what every cycle without an answer keeps. -/
theorem readWord_some {P : Link → Prop} {address word : UInt32} {l l' : Link} {es : List Event}
    (hcycle : ∀ l, P l → l.engine.response = none → P (l.cycle (.read address)).2) (h : P l)
    (hr : (readWord address).run l = ⟨.ok word, l', es⟩) :
    ∃ last, P last ∧ last.engine.response = some word ∧
      l' = (last.cycle (.read address)).2.withLatency
        (last.stats.latency.add (last.stats.total + 1 - l.stats.total)) := by
  rw [run_readWord] at hr
  split at hr
  · rename_i given after hhold
    obtain rfl : given = word := Except.ok.inj (congrArg Outcome.result hr)
    obtain ⟨last, hlast, hanswer, rfl⟩ := hold_some (P := P) hcycle h hhold
    exact ⟨last, hlast, hanswer, (congrArg Outcome.state hr).symm⟩
  · exact nomatch congrArg Outcome.result hr

/-- What cycles keep, whatever is counted, a blocking read keeps. -/
theorem readWord_induction {P : Link → Prop}
    (hcycle : ∀ l request, P l → P (l.cycle request).2)
    (hstats : ∀ l stats, P l → P { l with stats }) {l : Link} (h : P l) (address : UInt32) :
    P ((readWord address).run l).state := by
  have hheld := hold_induction (fun l => hcycle l (.read address)) Outputs.response
    l.config.budget h
  rw [run_readWord]
  revert hheld
  rcases hold (.read address) Outputs.response l.config.budget l with ⟨_ | word, after⟩
  · exact id
  · exact hstats after _

/-- Blocking reads change nothing that is stored. -/
theorem readWord_kept (address : UInt32) (l : Link) :
    ((readWord address).run l).state.wordByte = l.wordByte ∧
      ((readWord address).run l).state.device.generation = l.device.generation :=
  readWord_induction
    (P := fun after =>
      after.wordByte = l.wordByte ∧ after.device.generation = l.device.generation)
    (fun after request ⟨hw, hg⟩ => ⟨(wordByte_cycle request after).trans hw,
      (generation_cycle request after).trans hg⟩)
    (fun _ _ hk => hk) ⟨rfl, rfl⟩ address

/-- A blocking write, in terms of the cycles that it takes. -/
theorem run_writeWord (address data : UInt32) (mask : UInt8) (l : Link) :
    (writeWord address data mask).run l =
      match hold (.write address data mask) (fun out => if out.ready then some () else none)
        l.config.budget l with
      | (some (), after) => ⟨.ok (), after, notices l after⟩
      | (none, after) => ⟨.error (.writeTimeout address), after, notices l after⟩ := by
  unfold writeWord
  simp only [Action.run_bind, Action.run_get, run_observed]
  rcases hold (.write address data mask) _ l.config.budget l with ⟨_ | _, after⟩ <;> simp

/-- What cycles keep, a blocking write keeps. -/
theorem writeWord_induction {P : Link → Prop}
    (hcycle : ∀ l request, P l → P (l.cycle request).2) {l : Link} (h : P l)
    (address data : UInt32) (mask : UInt8) : P ((writeWord address data mask).run l).state := by
  have hheld := hold_induction (fun l => hcycle l (.write address data mask))
    (fun out => if out.ready then some () else none) l.config.budget h
  rw [run_writeWord]
  revert hheld
  rcases hold (.write address data mask) _ l.config.budget l with ⟨_ | _, after⟩ <;> exact id

/-- **From power-on onwards the device follows the engine.** -/
theorem Reachable.coupled {cfg : Config} {l : Link} (h : Reachable cfg l) : Coupled cfg l := by
  induction h with
  | create h => exact coupled_create h
  | cycle request _ ih => exact ih.cycle request
  | readWord address _ ih =>
    exact readWord_induction (fun _ request h => h.cycle request)
      (fun _ stats h => h.withStats stats) ih address
  | writeWord address data mask _ ih =>
    exact writeWord_induction (fun _ request h => h.cycle request) ih address data mask
  | reset _ ih => exact ih.reset
  | load offset data _ hr hd ih => exact ih.load hr hd

end Link
end Flash
end WeightLink
