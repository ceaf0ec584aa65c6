/-
# The frames that a device executes

A cycle makes the device execute a frame if the clock rises with the last bit of it
(`Device.executed`).  Over some turns of a link these are `Link.frames`, which the device keeps in
its log as far as that reaches (`Link.log_after`).

What the device executes does not depend on its contents.  So it follows the engine
(`Engine.Follows`) also while its contents change under a read, which `Engine.Hears` does not
allow: with the data bits left out of both machines (`Engine.blank`, `Device.blank`) the one is the
other.  In step, the device executes the frame that the engine sends, in the cycle in which the
engine raises the clock for its last bit (`Engine.Follows.executed_eq`).
-/

import WeightLink.Proofs.Flash.Trace

namespace WeightLink
namespace Flash

/-! ### The device -/

namespace Device

/-- The frame that a cycle makes the device execute. -/
def executed (d : Device) (pins : Pins) : Option Frame :=
  match d.transaction with
  | .command shift bits =>
    if !pins.csN && pins.sclk && !d.sclk && bits + 1 = frameBits then
      some (Frame.ofBits (shift.shiftConcat pins.mosi))
    else none
  | _ => none

variable {d : Device} {pins : Pins}

theorem eval_of_executed {f : Frame} (h : d.executed pins = some f) :
    d.eval pins = ({ d with sclk := true } : Device).execute f := by
  unfold executed at h
  split at h
  · rename_i shift bits ht
    split at h
    · rename_i hc
      simp only [Bool.and_eq_true, Bool.not_eq_true', decide_eq_true_eq] at hc
      obtain ⟨⟨⟨hc, hp⟩, hs⟩, hb⟩ := hc
      obtain rfl : bits = 31 := Nat.succ.inj hb
      rw [eval_rise_frame hc hp hs ht, Option.some.inj h]
    · exact nomatch h
  · exact nomatch h

/-- Without a frame, a cycle leaves what frames change. -/
theorem eval_of_executed_eq_none (h : d.executed pins = none) :
    (d.eval pins).log = d.log ∧ (d.eval pins).seen = d.seen ∧ (d.eval pins).awake = d.awake ∧
      (d.eval pins).resetArmed = d.resetArmed ∧ (d.eval pins).resets = d.resets := by
  grind [executed, eval, rise, fall]

theorem log_execute (d : Device) (f : Frame) :
    (d.execute f).log = if d.log.size < d.logLimit then d.log.push f else d.log := by
  grind [execute]

theorem logLimit_execute (d : Device) (f : Frame) : (d.execute f).logLimit = d.logLimit := by
  grind [execute]

theorem logLimit_eval (d : Device) (pins : Pins) : (d.eval pins).logLimit = d.logLimit := by
  grind [eval, rise, fall, execute]

theorem seen_execute (d : Device) (f : Frame) : (d.execute f).seen = d.seen + 1 := by
  grind [execute]

/-- The log keeps an executed frame if it has room for it. -/
theorem log_eval (d : Device) (pins : Pins) : (d.eval pins).log.toList =
    d.log.toList ++ (d.executed pins).toList.take (d.logLimit - d.log.size) := by
  cases h : d.executed pins with
  | none => simp [(eval_of_executed_eq_none h).1]
  | some f =>
    rw [eval_of_executed h, log_execute]
    by_cases hlt : d.log.size < d.logLimit
    · obtain ⟨room, hroom⟩ := Nat.exists_eq_add_one.2 (Nat.sub_pos_of_lt hlt)
      simp [hlt, hroom]
    · simp [hlt, Nat.sub_eq_zero_of_le (Nat.le_of_not_lt hlt)]

theorem seen_eval (d : Device) (pins : Pins) :
    (d.eval pins).seen = d.seen + (d.executed pins).toList.length := by
  cases h : d.executed pins with
  | none => exact (eval_of_executed_eq_none h).2.1
  | some f =>
    rw [eval_of_executed h, seen_execute]
    rfl

/-- The device with its contents erased and its data line high. -/
def blank (d : Device) : Device := { d with image := Image.erased 1, miso := true }

theorem eval_blank (d : Device) (pins : Pins) :
    (d.eval pins).blank = (d.blank.eval pins).blank := by
  grind [eval, rise, fall, execute, blank]

/-- A blank device shows set bits only. -/
theorem dataBit_blank (d : Device) (address : BitVec 24) (n : Nat) :
    d.blank.dataBit address n = true := by
  have hbyte : d.blank.dataByte (address + BitVec.ofNat 24 (n / 8)) = Image.erasedByte := by
    unfold dataByte
    split <;> rfl
  have hset : ∀ i < 8, Image.erasedByte.toBitVec.getMsbD i = true := by decide
  rw [dataBit, hbyte]
  exact hset _ (Nat.mod_lt _ (by decide))

end Device

/-! ### The device follows the engine -/

namespace Engine

/-- The device has taken the bits of the frame. -/
structure Follows (e : Engine) (d : Device) : Prop where
  sclk_eq : d.sclk = e.pins.sclk
  transaction_eq : d.transaction = e.heard
  awake_eq : d.awake = (!d.requiresWake || e.released)

/-- The cycle raises the clock for the last bit of a frame. -/
def Completes (cfg : Config) (e : Engine) : Prop :=
  e.phase = .clockHigh ∧ e.bit = 31 ∧ e.steps cfg = true

instance (cfg : Config) (e : Engine) : Decidable (e.Completes cfg) :=
  inferInstanceAs (Decidable (_ ∧ _))

/-- The engine with all data bits set. -/
def blank (e : Engine) : Engine := { e with shiftIn := BitVec.allOnes 32 }

variable {cfg : Config} {e : Engine} {d : Device}

theorem idle_blank (request : Request) (e : Engine) :
    (e.idle cfg request).blank = (e.blank.idle cfg request).blank := by
  rcases e.settled_or with hset | ⟨ha, hd | ⟨hd, opcode, ho⟩⟩
  · rw [idle_settled request hset, idle_settled (e := e.blank) request hset]
    cases request <;> rfl
  · rw [idle_pause request ha hd, idle_pause (e := e.blank) request ha hd]
    rfl
  · rw [idle_wake request ha hd ho, idle_wake (e := e.blank) request ha hd ho]
    rfl

/-- What a cycle does apart from the data bits does not depend on them. -/
theorem next_blank (request : Request) (miso : Bool) (e : Engine) :
    (e.next cfg request miso).blank = (e.blank.next cfg request true).blank := by
  by_cases hi : e.phase = .idle
  · rw [next_idle request miso hi, next_idle (e := e.blank) request true hi]
    exact idle_blank request (e.divide cfg)
  · unfold next
    cases hp : e.phase with
    | idle => exact absurd hp hi
    | _ => grind [blank, endWake, steps]

theorem Hears.follows (h : e.Hears d) : e.Follows d := ⟨h.sclk_eq, h.transaction_eq, h.awake_eq⟩

theorem Sound.received_le (h : e.Sound cfg) : e.received ≤ 32 := by
  have := h.bit_le
  unfold received
  split <;> omega

namespace Follows

/-- With the data bits left out, to take the bits of a frame is all there is to hear. -/
theorem hears_blank (h : e.Follows d) (hs : e.Sound cfg) : e.blank.Hears d.blank where
  sclk_eq := h.sclk_eq
  transaction_eq := h.transaction_eq
  awake_eq := h.awake_eq
  miso_eq _ := (Device.dataBit_blank d _ _).symm
  shiftIn_eq i hi := by
    have hlt : i < 32 := Nat.lt_of_lt_of_le hi hs.received_le
    rw [Device.dataBit_blank, blank, BitVec.getMsbD_allOnes, decide_eq_true hlt]

/-- **A cycle keeps the device in step**, whatever its contents are. -/
theorem next (h : e.Follows d) (hs : e.Sound cfg) (request : Request) (miso : Bool) :
    (e.next cfg request miso).Follows (d.eval (e.next cfg request miso).pins) := by
  have hsb : e.blank.Sound cfg := { hs with }
  have hnext := ((h.hears_blank hs).next hsb request).follows
  have he : (e.next cfg request miso).blank = (e.blank.next cfg request true).blank :=
    next_blank request miso e
  have hpins : (e.blank.next cfg request true).pins = (e.next cfg request miso).pins :=
    (congrArg Engine.pins he).symm
  have hd := Device.eval_blank d (e.next cfg request miso).pins
  change (e.blank.next cfg request true).Follows (d.blank.eval (e.blank.next cfg request true).pins)
    at hnext
  rw [hpins] at hnext
  have hboth : (e.next cfg request miso).blank.Follows
      (d.eval (e.next cfg request miso).pins).blank := by
    rw [he, hd]
    exact ⟨hnext.sclk_eq, hnext.transaction_eq, hnext.awake_eq⟩
  exact ⟨hboth.sclk_eq, hboth.transaction_eq, hboth.awake_eq⟩

/-- The device executes what the engine sends. -/
theorem executed_eq (h : e.Follows d) (hs : e.Sound cfg) (request : Request) (miso : Bool) :
    d.executed (e.next cfg request miso).pins =
      if e.Completes cfg then some (Frame.ofBits e.shiftOut) else none := by
  have hk := h.sclk_eq
  have hclk := hs.sclk_eq
  have ht := h.transaction_eq
  have hle := hs.bit_le
  cases hp : e.phase with
  | idle => simp [Device.executed, Completes, ht, heard, hp, Device.fresh, frameBits]
  | setupBit =>
    have hlow : (e.next cfg request miso).pins.sclk = false := by
      have hsclk : e.pins.sclk = false := by simp [hclk, hp]
      cases hstep : e.steps cfg with
      | true => simpa [next_setupBit request miso hp hstep] using hsclk
      | false => simpa [next_wait request miso (by simp [hp]) (by simp [hp]) hstep] using hsclk
    simp [Device.executed, Completes, ht, heard, hp, hlow]
  | clockHigh =>
    have hsclk : e.pins.sclk = false := by simp [hclk, hp]
    cases hstep : e.steps cfg with
    | false =>
      simp [Device.executed, Completes, ht, heard, hp, hsclk, hstep,
        next_wait request miso (by simp [hp]) (by simp [hp]) hstep]
    | true =>
      -- The shift register of the device and the bit on the wire are the frame.
      have hc : e.pins.csN = false := by simp [hs.csN_eq, hp]
      have hm := hs.mosi_eq (.inl hp)
      have hshift := shiftConcat_ushiftRight e.shiftOut (n := e.bit) (by omega)
      rw [← hm] at hshift
      by_cases hb : e.bit = 31
      · rw [hb] at hshift
        simp [Device.executed, Completes, ht, heard, hp, hk, hsclk, hc, hb, hstep, frameBits,
          hshift, next_clockHigh request miso hp hstep]
      · simp [Device.executed, Completes, ht, heard, hp, hb, frameBits]
  | clockLow =>
    by_cases hb : e.bit = 31
    · cases hw : e.waking <;>
        simp [Device.executed, Completes, ht, heard, hp, hb, hw, Device.Transaction.after]
    · simp [Device.executed, Completes, ht, heard, hp, hb, hk, hclk]
  | _ => simp [Device.executed, Completes, ht, heard, hp, Device.Transaction.after]

end Follows
end Engine

/-! ### The frames of some turns -/

namespace Link

/-- The frame that a turn makes the device execute. -/
def executes (l : Link) : Turn → Option Frame
  | .cycle request => l.device.executed (l.cycle request).1.pins
  | .load _ _ => none

/-- The frames that the device executes in some turns. -/
def frames : List Turn → Link → List Frame
  | [], _ => []
  | t :: ts, l => (l.executes t).toList ++ frames ts (l.turn t)

variable {l : Link}

theorem log_turn (l : Link) (t : Turn) :
    (l.turn t).device.log.toList = l.device.log.toList ++
        (l.executes t).toList.take (l.device.logLimit - l.device.log.size) ∧
      (l.turn t).device.logLimit = l.device.logLimit ∧
      (l.turn t).device.seen = l.device.seen + (l.executes t).toList.length := by
  cases t with
  | cycle request =>
    exact ⟨Device.log_eval _ _, Device.logLimit_eval _ _, Device.seen_eval _ _⟩
  | load offset data =>
    obtain ⟨device, he, hd | hd⟩ := turn_load offset data l
    · simp [he, hd, executes]
    · obtain ⟨image, generation, rfl, -⟩ := Device.load_eq hd
      simp [he, executes]

/-- **The frames are what the device counts and logs**, as far as the log has room for them. -/
theorem log_after (ts : List Turn) (l : Link) :
    (after ts l).device.seen = l.device.seen + (frames ts l).length ∧
      (after ts l).device.log.toList = l.device.log.toList ++
        (frames ts l).take (l.device.logLimit - l.device.log.size) := by
  induction ts generalizing l with
  | nil => simp [frames]
  | cons t ts ih =>
    obtain ⟨hseen, hlog⟩ := ih (l.turn t)
    obtain ⟨hlogt, hlimit, hseent⟩ := log_turn l t
    have hsize := congrArg List.length hlogt
    simp only [Array.length_toList, List.length_append, List.length_take] at hsize
    refine ⟨?_, ?_⟩
    · rw [after_cons, hseen, hseent, frames, List.length_append, Nat.add_assoc]
    · rw [after_cons, hlog, hlogt, hlimit, hsize, frames, List.take_append, List.append_assoc]
      congr 3
      omega

end Link
end Flash
end WeightLink
