/-
# A link whose device loses its power

A device may be powered off and on behind the back of its engine.  It then shows erased bytes
until it is woken again, and the engine, which believes it awake, does not wake it.  So the engine
no longer knows what the device shows, but it still reads what the device shows: with a device that
is its own `Device.face`, erased if it shows nothing, the two are in step whenever no command of
the handshake is on the link (`Link.Steady`).

Once the engine takes its device to be awake, what the device shows stays as it is until the
contents or the power change (`Link.Kept`).  A blocking read that finds the link free gives the
word that is shown when it returns (`Link.AtRest.readWord`).
-/

import WeightLink.Proofs.Flash.Handshake
import WeightLink.Proofs.Source.Ready

namespace WeightLink
namespace Flash

open WeightLink.Action (Triple)

/-! ### What a device shows -/

namespace Device

/-- The device as it shows itself: erased while it needs to be woken, and never in need of it. -/
def face (d : Device) : Device :=
  { d with
    image := if d.requiresWake && !d.awake then Image.erased 1 else d.image
    requiresWake := false
    awake := true }

variable {d : Device} {pins : Pins}

theorem dataByte_face (d : Device) : d.face.dataByte = d.dataByte := by
  funext address
  unfold dataByte face
  cases d.requiresWake <;> cases d.awake <;> rfl

theorem awake_eval (h : d.awake = true) : (d.eval pins).awake = true := by
  grind [eval, rise, fall, execute]

theorem face_execute {f : Frame} (h : (d.execute f).awake = d.awake) :
    (d.execute f).face = d.face.execute f := by
  revert h
  grind [execute, face]

theorem face_rise {mosi : Bool} (h : (d.rise mosi).awake = d.awake) :
    (d.rise mosi).face = d.face.rise mosi := by
  unfold rise at h ⊢
  cases ht : d.transaction with
  | command shift bits =>
    by_cases hb : bits + 1 = frameBits
    · simp only [ht, hb, if_true] at h
      simp only [hb, if_true, show d.face.transaction = _ from ht]
      exact face_execute h
    · simp [ht, hb, face]
  | _ => simp [ht, face]

theorem face_fall (d : Device) : d.fall.face = d.face.fall := by
  unfold fall
  cases ht : d.transaction with
  | reading address bit =>
    have hbyte := congrFun (dataByte_face d) address
    by_cases hb : bit + 1 = 8
    · simp [hb, show d.face.transaction = _ from ht, hbyte]
      rfl
    · simp [hb, show d.face.transaction = _ from ht, hbyte]
      rfl
  | _ => simp [ht, face]

/-- Unless it wakes up, the face of a device takes its cycles like the device. -/
theorem face_eval (h : (d.eval pins).awake = d.awake) :
    (d.eval pins).face = d.face.eval pins := by
  unfold eval at h ⊢
  have hk : d.face.sclk = d.sclk := rfl
  rw [hk]
  by_cases hc : pins.csN = true
  · simp [hc, face]
  · by_cases hr : (pins.sclk && !d.sclk) = true
    · simp only [hc, hr, if_true] at h ⊢
      exact face_rise h
    · by_cases hf : (!pins.sclk && d.sclk) = true
      · simp only [hc, hr, hf, if_true] at h ⊢
        exact face_fall _
      · simp only [hc, hr, hf] at h ⊢
        rfl
/-- A frame that is no command of the handshake wakes nobody. -/
theorem awake_eval_eq (h : ∀ f, d.executed pins = some f → f.opcode = Opcode.read) :
    (d.eval pins).awake = d.awake := by
  cases hf : d.executed pins with
  | none => exact (eval_of_executed_eq_none hf).2.2.1
  | some f =>
    rw [eval_of_executed hf]
    simp [execute, h f hf]

end Device

/-! ### In step with a face -/

namespace Engine

variable {cfg : Config} {e : Engine}

/-- The data line matters in one phase only. -/
theorem next_of_ne_readHigh (h : e.phase ≠ .readHigh) (request : Request) (m n : Bool) :
    e.next cfg request m = e.next cfg request n := by
  unfold next
  cases hp : e.phase with
  | readHigh => exact absurd hp h
  | _ => rfl

/-- To have followed the engine is to hear it, whether it wakes the device or not. -/
theorem Hears.face {d : Device} (h : e.Hears d) : e.Hears d.face := by
  have hbit : ∀ address n, d.face.dataBit address n = d.dataBit address n := by
    intro address n
    rw [Device.dataBit, Device.dataByte_face, Device.dataBit]
  exact ⟨h.sclk_eq, h.transaction_eq, rfl, fun hp => (h.miso_eq hp).trans (hbit _ _).symm,
    fun i hi => (h.shiftIn_eq i hi).trans (hbit _ _).symm⟩

/-- There is nothing to hear without a frame on the link. -/
theorem hears_face_of_idle {d : Device} (hp : e.phase = .idle) (hk : d.sclk = e.pins.sclk)
    (ht : d.transaction = Device.fresh) : e.Hears d.face :=
  ⟨hk, by rw [heard, hp]; exact ht, rfl, by simp [hp], by simp [received, hp]⟩

end Engine

namespace Link

/-- Engine and device are in step apart from the power of the device. -/
structure Steady (cfg : Config) (l : Link) : Prop where
  config_eq : l.config = cfg
  sound : l.engine.Sound cfg.engine
  hears : l.engine.waking = false → l.engine.Hears l.device.face
  miso_eq : l.engine.reading = true → l.miso = l.device.miso
  awake_eq : l.device.requiresWake = false → l.device.awake = true

/-- What stays from one state to another while nobody changes contents or power. -/
structure Kept (l l' : Link) : Prop where
  config_eq : l'.config = l.config
  image_eq : l'.device.image = l.device.image
  generation_eq : l'.device.generation = l.device.generation
  awake : l.engine.awake = true → l'.engine.awake = true
  dataByte_eq : l.engine.awake = true → l'.device.dataByte = l.device.dataByte

variable {cfg : Config} {l l' l'' : Link}

theorem Kept.refl (l : Link) : Kept l l := ⟨rfl, rfl, rfl, id, fun _ => rfl⟩

theorem Kept.trans (h : Kept l l') (h' : Kept l' l'') : Kept l l'' :=
  ⟨h'.config_eq.trans h.config_eq, h'.image_eq.trans h.image_eq,
    h'.generation_eq.trans h.generation_eq, fun ha => h'.awake (h.awake ha),
    fun ha => (h'.dataByte_eq (h.awake ha)).trans (h.dataByte_eq ha)⟩

theorem Kept.withStats (h : Kept l l') (stats : Stats) : Kept l { l' with stats } :=
  ⟨h.config_eq, h.image_eq, h.generation_eq, h.awake, h.dataByte_eq⟩

namespace Steady

theorem regular (h : Steady cfg l) : Regular cfg l := ⟨h.config_eq, h.sound⟩

/-- The engine takes the data line as the device has left it. -/
theorem next_miso (h : Steady cfg l) (request : Request) :
    l.engine.next cfg.engine request l.miso = l.engine.next cfg.engine request l.device.miso := by
  by_cases hr : l.engine.phase = .readHigh
  · have hw := h.sound.waking_of_not_sends (by rw [hr]; rfl)
    rw [h.miso_eq (by simp [h.sound.reading_eq, hr, hw])]
  · exact Engine.next_of_ne_readHigh hr request _ _

/-- Only the handshake wakes a device. -/
theorem awake_cycle (h : Steady cfg l) (hw : l.engine.waking = false) (request : Request) :
    (l.cycle request).2.device.awake = l.device.awake := by
  refine Device.awake_eval_eq fun f hf => ?_
  have hexec := (h.hears hw).follows.executed_eq h.sound request l.miso
  rw [← h.config_eq] at hexec
  have hf : _ = some f := hexec.symm.trans hf
  split at hf
  · rename_i hlast
    obtain ⟨-, address, hs⟩ := h.sound.reads (by simp [hlast.1]) hw
    rw [← Option.some.inj hf, hs, Frame.ofBits_bits]
    rfl
  · exact nomatch hf

theorem cycle (h : Steady cfg l) (request : Request) : Steady cfg (l.cycle request).2 := by
  obtain rfl := h.config_eq
  have hn := h.sound.next request l.miso
  refine ⟨rfl, hn, fun hw' => ?_, fun _ => rfl, fun hr => ?_⟩
  · cases hw : l.engine.waking with
    | false =>
      have hnext := (h.hears hw).next h.sound request
      change (l.engine.next _ request l.device.miso).Hears (l.device.face.eval
        (l.engine.next _ request l.device.miso).pins) at hnext
      rw [← h.next_miso request] at hnext
      rw [cycle_device, Device.face_eval (h.awake_cycle hw request)]
      exact hnext
    | true =>
      -- The command is over, and with its end the device is released.
      rcases Engine.next_waking h.sound hw request l.miso with ⟨hstill, -⟩ | ⟨hi, -, -⟩
      · exact absurd (hstill.symm.trans hw') (by decide)
      · have hc : (l.engine.next l.config.engine request l.miso).pins.csN = true := by
          simp [hn.csN_eq, hi]
        rw [cycle_device, Device.eval_of_csN hc]
        exact Engine.hears_face_of_idle hi rfl rfl
  · rw [cycle_device, Device.requiresWake_eval] at hr
    exact Device.awake_eval (h.awake_eq hr)

theorem kept_cycle (h : Steady cfg l) (request : Request) : Kept l (l.cycle request).2 where
  config_eq := rfl
  image_eq := Device.image_eval _ _
  generation_eq := Device.generation_eval _ _
  awake ha := Engine.next_awake ha request l.miso
  dataByte_eq ha := by
    have hsame := h.awake_cycle (h.sound.waking_of_awake ha) request
    funext address
    rw [Device.dataByte, Device.dataByte, hsame, cycle_device, Device.requiresWake_eval,
      Device.image_eval]

/-- **The engine answers with the bytes that are shown** at the address that it has sent. -/
theorem answer (h : Steady cfg l) {word : UInt32} (hw : l.engine.response = some word) {k : Nat}
    (hk : k < 4) :
    Word.byte word k = l.device.dataByte (l.engine.latched + BitVec.ofNat 24 k) := by
  have hwaking := h.sound.waking_of_finish (Engine.phase_of_response hw)
  rw [← Device.dataByte_face]
  exact (h.hears hwaking).answer hw hk

end Steady

/-! ### Calls on a free link -/

/-- Nobody is waiting for a read of the link. -/
structure AtRest (cfg : Config) (l : Link) : Prop where
  steady : Steady cfg l
  free : l.engine.reading = false

namespace AtRest

theorem create (h : Link.create cfg = .ok l) : AtRest cfg l := by
  have hc := coupled_create h
  have hfree := reading_create h
  exact ⟨⟨hc.config_eq, hc.sound, fun _ => hc.hears.face, fun _ => hc.miso_eq,
    fun hr => by rw [hc.hears.awake_eq, hr]; rfl⟩, hfree⟩

theorem reset (h : AtRest cfg l) : AtRest cfg l.reset := by
  obtain rfl := h.steady.config_eq
  exact ⟨⟨rfl, Engine.sound_powerOn _, fun _ => Engine.hears_face_of_idle rfl rfl rfl,
    fun hr => (nomatch hr), fun hr => congrArg not hr⟩, rfl⟩

theorem idle_of_not_waking (h : AtRest cfg l) (hw : l.engine.waking = false) :
    l.engine.phase = .idle := by
  simpa [h.steady.sound.reading_eq, hw] using h.free

/-- The contents may change. -/
theorem load (h : AtRest cfg l) {device : Device} {offset : Nat} {data : Buffer UInt8}
    (hd : l.device.load offset data = .ok device) : AtRest cfg { l with device } := by
  obtain ⟨image, generation, rfl, -⟩ := Device.load_eq hd
  have hs := h.steady
  refine ⟨⟨hs.config_eq, hs.sound, fun hw => ?_, fun hr => absurd hr (by simp [h.free]),
    hs.awake_eq⟩, h.free⟩
  have hi := h.idle_of_not_waking hw
  have hheard := (hs.hears hw).transaction_eq
  rw [Engine.heard, hi] at hheard
  exact Engine.hears_face_of_idle hi (hs.hears hw).sclk_eq hheard

/-- The power of the device may be lost. -/
theorem powerCycle (h : AtRest cfg l) : AtRest cfg { l with device := l.device.powerCycle } := by
  have hs := h.steady
  refine ⟨⟨hs.config_eq, hs.sound, fun hw => ?_, fun hr => absurd hr (by simp [h.free]),
    fun hr => congrArg not hr⟩, h.free⟩
  have hi := h.idle_of_not_waking hw
  have hlow : l.engine.pins.sclk = false := by simp [hs.sound.sclk_eq, hi]
  exact Engine.hears_face_of_idle hi hlow.symm rfl

/-- Nobody looks at the counters. -/
theorem withStats (h : AtRest cfg l) (stats : Stats) : AtRest cfg { l with stats } :=
  ⟨⟨h.steady.config_eq, h.steady.sound, h.steady.hears, h.steady.miso_eq, h.steady.awake_eq⟩,
    h.free⟩

/-- A cycle in which no read is presented leaves the link free. -/
theorem cycle (h : AtRest cfg l) (request : Request) (hr : ∀ address, request ≠ .read address) :
    AtRest cfg (l.cycle request).2 := by
  refine ⟨h.steady.cycle request, ?_⟩
  cases hn : (l.cycle request).2.engine.reading with
  | false => rfl
  | true =>
    rw [cycle_engine, h.steady.config_eq] at hn
    obtain ⟨address, he, -⟩ := h.steady.sound.next_started h.free request l.miso hn
    exact absurd he (hr address)

theorem idle (h : AtRest cfg l) (n : Nat) :
    AtRest cfg (Link.idle n l) ∧ Kept l (Link.idle n l) := by
  induction n generalizing l with
  | zero => exact ⟨h, .refl l⟩
  | succ n ih =>
    obtain ⟨hrest, hkept⟩ := ih (h.cycle .none fun _ he => nomatch he)
    exact ⟨hrest, (h.steady.kept_cycle .none).trans hkept⟩

theorem writeWord (h : AtRest cfg l) (address data : UInt32) (mask : UInt8) :
    AtRest cfg ((Link.writeWord address data mask).run l).state ∧
      Kept l ((Link.writeWord address data mask).run l).state := by
  have hheld : AtRest cfg _ ∧ Kept l _ := hold_induction (P := fun x => AtRest cfg x ∧ Kept l x)
    (fun x ⟨hx, hk⟩ => ⟨hx.cycle (.write address data mask) fun _ he => (nomatch he),
      hk.trans (hx.steady.kept_cycle _)⟩)
    (fun out => if out.ready then some () else none) l.config.budget ⟨h, .refl l⟩
  rw [run_writeWord]
  revert hheld
  rcases hold (.write address data mask) _ l.config.budget l with ⟨_ | _, after⟩ <;> exact id

/-- What a held read keeps until it is answered. -/
structure Waits (cfg : Config) (before : Link) (address : UInt32) (l : Link) : Prop where
  steady : Steady cfg l
  kept : Kept before l
  inFlight : l.engine.reading = true → l.InFlight address

theorem Waits.cycle {address : UInt32} (h : Waits cfg l address l')
    (hn : l'.engine.response = none) : Waits cfg l address (l'.cycle (.read address)).2 := by
  obtain rfl := h.steady.config_eq
  refine ⟨h.steady.cycle _, h.kept.trans (h.steady.kept_cycle _), fun hr => ⟨hr, ?_⟩⟩
  cases hbefore : l'.engine.reading with
  | true =>
    have hf := (Engine.response_eq_none_iff _).1 hn
    obtain ⟨-, hs⟩ := h.steady.sound.next_reading hbefore hf (.read address) l'.miso
    exact hs.trans (h.inFlight hbefore).2
  | false =>
    obtain ⟨given, he, hs⟩ := h.steady.sound.next_started hbefore (.read address) l'.miso hr
    obtain rfl := Request.read.inj he
    exact hs

/-- **A blocking read of a free link gives the word that is shown** when it returns, and leaves the
link free with its device taken to be awake, or hangs. -/
theorem readWord (h : AtRest cfg l) (address : UInt32) :
    match (Link.readWord address).run l with
    | ⟨.ok word, after, _⟩ => AtRest cfg after ∧ Kept l after ∧ after.engine.awake = true ∧
        ∀ k < 4, Word.byte word k =
          after.device.dataByte (cfg.engine.translate address + BitVec.ofNat 24 k)
    | ⟨.error e, _, _⟩ => cfg.Hangs e := by
  have hhang := h.steady.regular.readWord_hangs address
  cases hrun : (Link.readWord address).run l with
  | mk result after es =>
    rw [hrun] at hhang
    cases result with
    | error e => exact hhang
    | ok word =>
      have hown : Waits cfg l address l :=
        ⟨h.steady, .refl l, fun hr => absurd hr (by simp [h.free])⟩
      obtain ⟨last, hlast, hword, rfl⟩ := readWord_some (fun _ hw hn => hw.cycle hn) hown hrun
      have hf := Engine.phase_of_response hword
      have hr := hlast.steady.sound.reading_of_finish hf
      have ha : last.engine.awake = true :=
        (hlast.steady.sound.reads (by simp [hf]) (hlast.steady.sound.waking_of_finish hf)).1
      have hk := hlast.steady.kept_cycle (.read address)
      have hlatched : last.engine.latched = cfg.engine.translate address := by
        rw [← hlast.steady.config_eq]
        exact Engine.latched_read (hlast.inFlight hr).2
      have hnext : AtRest cfg (last.cycle (.read address)).2 :=
        ⟨hlast.steady.cycle _, Engine.Sound.next_answered hf _ _⟩
      refine ⟨hnext.withStats _, (hlast.kept.trans hk).withStats _, hk.awake ha, fun k hk4 => ?_⟩
      have hbyte := hlast.steady.answer hword hk4
      rwa [hlatched, ← hk.dataByte_eq ha] at hbyte

end AtRest
end Link
end Flash
end WeightLink
