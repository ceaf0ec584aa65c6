/-
# The wake handshake

From power-on to the next reset, a device that is to be woken executes the three commands of the
handshake, once and in their order, and reads after that (`Link.Progress`).  How many of the
commands it has executed can be read off the engine (`Engine.commanded`), and with them what they
have done to the device: the first one arms it, the second one resets it, the third one wakes it.

Between two commands the device is released for the configured pause and the cycle in which it
is released (`Engine.pause_length`).  The engine accepts, answers and starts no read before all
of this is over.
-/

import WeightLink.Proofs.Flash.Answers
import WeightLink.Proofs.Flash.Execution

namespace WeightLink
namespace Flash
namespace Engine

variable {cfg : Config} {e : Engine}

/-! ### Commands of the handshake -/

/-- How many commands of the handshake the device has executed. -/
def commanded (e : Engine) : Nat :=
  e.wakePhase + if e.waking ∧ e.phase = .clockLow ∧ e.bit = 31 then 1 else 0

theorem commanded_of_completes (h : e.Completes cfg) : e.commanded = e.wakePhase := by
  simp [commanded, h.1]

theorem commanded_of_not_waking (hw : e.waking = false) : e.commanded = e.wakePhase := by
  simp [commanded, hw]

/-- A cycle without a frame on the link completes nothing and puts nobody to sleep. -/
theorem idle_kept (hi : e.phase = .idle) (request : Request) :
    (e.idle cfg request).commanded = e.wakePhase ∧
      (e.awake = true → (e.idle cfg request).awake = true) := by
  rcases e.settled_or with hset | ⟨ha, hd | ⟨hd, opcode, ho⟩⟩
  · rw [idle_settled request hset]
    cases request <;> simp [serve, start, commanded, hi]
  · rw [idle_pause request ha hd]
    simp [commanded, hi]
  · rw [idle_wake request ha hd ho]
    simp [start, commanded, ha]

/-- A completed command counts. -/
theorem next_commanded (request : Request) (miso : Bool) :
    (e.next cfg request miso).commanded =
      e.commanded + if e.Completes cfg ∧ e.waking = true then 1 else 0 := by
  by_cases hi : e.phase = .idle
  · rw [next_idle request miso hi, (idle_kept (e := e.divide cfg) hi request).1]
    simp [Completes, commanded, hi, divide]
  · unfold next
    cases hp : e.phase with
    | idle => exact absurd hp hi
    | _ => grind [endWake, commanded, Completes, frameBits]

/-- A frame on the link wakes nobody up. -/
theorem next_awake_eq (hi : e.phase ≠ .idle) (request : Request) (miso : Bool) :
    (e.next cfg request miso).awake = e.awake := by
  unfold next
  cases hp : e.phase with
  | idle => exact absurd hp hi
  | _ => grind [endWake]

/-- Once awake, an engine takes its device to be awake. -/
theorem next_awake (ha : e.awake = true) (request : Request) (miso : Bool) :
    (e.next cfg request miso).awake = true := by
  by_cases hi : e.phase = .idle
  · rw [next_idle request miso hi]
    exact (idle_kept (e := e.divide cfg) hi request).2 ha
  · rw [next_awake_eq hi, ha]

theorem after_awake (ha : e.awake = true) (is : List Input) : (after cfg is e).awake = true := by
  induction is generalizing e with
  | nil => exact ha
  | cons i is ih => exact ih (next_awake ha i.request i.miso)

/-! ### Pauses -/

/-- **A pause is exactly as long as it should be.**  If nobody selects the device during some
cycles of a pause, and then the device is selected, the pause is over; if it is selected for a
command, it has just ended. -/
theorem pause_length (h : e.Sound cfg) (hi : e.phase = .idle) (ha : e.awake = false)
    {gap : List Input} (hgap : ∀ p ∈ wires cfg gap e, p.csN = true) {i : Input}
    (hend : (after cfg (gap ++ [i]) e).pins.csN = false) :
    e.delayLeft ≤ gap.length ∧
      ((after cfg (gap ++ [i]) e).waking = true → gap.length = e.delayLeft) := by
  induction gap generalizing e with
  | nil =>
    -- The device is not selected in a cycle of the pause.
    have hzero : e.delayLeft = 0 := by
      refine Nat.eq_zero_of_not_pos fun hd => ?_
      have hc : e.pins.csN = true := by simp [h.csN_eq, hi]
      have hstay := hend
      simp only [List.nil_append, after_cons, after_nil, next_idle i.request i.miso hi,
        idle_pause (e := e.divide cfg) i.request ha hd] at hstay
      exact absurd (hstay.symm.trans hc) Bool.false_ne_true
    simp [hzero]
  | cons g gs ih =>
    have hn := h.next g.request g.miso
    have hc : (e.next cfg g.request g.miso).pins.csN = true := hgap _ List.mem_cons_self
    have hrest : ∀ p ∈ wires cfg gs (e.next cfg g.request g.miso), p.csN = true :=
      fun p hp => hgap p (List.mem_cons_of_mem _ hp)
    have hi' : (e.next cfg g.request g.miso).phase = .idle := by simpa [hn.csN_eq] using hc
    rw [List.cons_append, after_cons] at hend ⊢
    rcases (e.divide cfg).settled_or with hset | ⟨ha', hd | ⟨hd, opcode, ho⟩⟩
    · have hzero : e.delayLeft = 0 := by
        have hfalse : (e.divide cfg).awake = false := ha
        simp only [settled, hfalse, Bool.false_or, Bool.and_eq_true, decide_eq_true_eq] at hset
        exact hset.1
      have hawake : (e.next cfg g.request g.miso).awake = true := by
        rw [next_idle g.request g.miso hi, idle_settled g.request hset]
        cases g.request <;> rfl
      refine ⟨hzero ▸ Nat.zero_le _, fun hw => ?_⟩
      obtain ⟨-, hasleep, -⟩ := (hn.after (gs ++ [i])).wakes hw
      exact absurd ((after_awake hawake (gs ++ [i])).symm.trans hasleep) (by decide)
    · have hnext : e.next cfg g.request g.miso =
          { e.divide cfg with delayLeft := e.delayLeft - 1 } := by
        rw [next_idle g.request g.miso hi, idle_pause g.request ha' hd]
        rfl
      have hpos : 0 < e.delayLeft := hd
      obtain ⟨hle, heq⟩ := ih hn hi' (by rw [hnext]; exact ha) hrest hend
      rw [hnext] at hle
      refine ⟨?_, fun hw => ?_⟩
      · simp only [List.length_cons] at hle ⊢
        omega
      · have hlen := heq hw
        rw [hnext] at hlen
        simp only [List.length_cons] at hlen ⊢
        omega
    · rw [next_idle g.request g.miso hi, idle_wake g.request ha' hd ho] at hc
      exact absurd hc Bool.false_ne_true

/-- The end of a command starts its pause. -/
theorem next_paused (h : e.Sound cfg) (hw : e.waking = true) {request : Request} {miso : Bool}
    (hc : (e.next cfg request miso).pins.csN = true) :
    (e.next cfg request miso).phase = .idle ∧ (e.next cfg request miso).awake = false ∧
      (e.next cfg request miso).delayLeft = cfg.wakeDelay.toNat := by
  have hn := h.next request miso
  have hi : (e.next cfg request miso).phase = .idle := by simpa [hn.csN_eq] using hc
  obtain ⟨hsends, hasleep, -⟩ := h.wakes hw
  have hbusy : e.phase ≠ .idle := by
    intro hp
    simp [hp, Phase.sends] at hsends
  rcases next_waking h hw request miso with ⟨hw', -⟩ | ⟨-, -, hdelay⟩
  · rw [hn.waking_of_idle hi] at hw'
    exact absurd hw' Bool.false_ne_true
  · exact ⟨hi, (next_awake_eq hbusy request miso).trans hasleep, hdelay⟩

/-- **Between a command and the next frame the device is released** for the pause and the cycle in
which it is released, exactly so if the next frame is a command. -/
theorem release_length (h : e.Sound cfg) (hw : e.waking = true) {gap : List Input} (hne : gap ≠ [])
    (hgap : ∀ p ∈ wires cfg gap e, p.csN = true) {i : Input}
    (hend : (after cfg (gap ++ [i]) e).pins.csN = false) :
    cfg.wakeDelay.toNat + 1 ≤ gap.length ∧
      ((after cfg (gap ++ [i]) e).waking = true → gap.length = cfg.wakeDelay.toNat + 1) := by
  cases gap with
  | nil => exact absurd rfl hne
  | cons g gs =>
    obtain ⟨hi, ha, hdelay⟩ := next_paused h hw (hgap _ List.mem_cons_self)
    have hrest := pause_length (h.next g.request g.miso) hi ha
      (fun p hp => hgap p (List.mem_cons_of_mem _ hp)) hend
    rw [hdelay] at hrest
    simpa using hrest

/-! ### Reads wait for the handshake -/

theorem Sound.waking_of_awake (h : e.Sound cfg) (ha : e.awake = true) : e.waking = false := by
  cases hw : e.waking with
  | false => rfl
  | true => exact absurd (ha.symm.trans (h.wakes hw).2.1) (by decide)

variable (hboot : cfg.wakeOnBoot = true)
include hboot

theorem Sound.woken (h : e.Sound cfg) (hs : e.settled = true) :
    e.wakePhase = 3 ∧ e.delayLeft = 0 := by
  obtain ⟨hle, hawake⟩ := h.asleep hboot
  simp only [settled, Bool.or_eq_true, Bool.and_eq_true, decide_eq_true_eq] at hs
  rcases hs with ha | ⟨hd, hp⟩
  · exact hawake ha
  · exact ⟨Nat.le_antisymm hle hp, hd⟩

theorem Sound.woken_of_finish (h : e.Sound cfg) (hf : e.phase = .finish) :
    e.wakePhase = 3 ∧ e.delayLeft = 0 :=
  (h.asleep hboot).2 (h.reads (by simp [hf]) (h.waking_of_finish hf)).1

theorem Sound.woken_of_started (h : e.Sound cfg) (hr : e.reading = false) {request : Request}
    {miso : Bool} (hn : (e.next cfg request miso).reading = true) :
    e.wakePhase = 3 ∧ e.delayLeft = 0 := by
  by_cases hi : e.phase = .idle
  · have hfree : (e.divide cfg).busy = false := h.busy_eq.trans (by simp [hi])
    rw [next_idle request miso hi] at hn
    rcases (e.divide cfg).settled_or with hset | ⟨ha, hd | ⟨hd, opcode, ho⟩⟩
    · have hwoken := h.divide.woken hboot hset
      exact hwoken
    · rw [idle_pause request ha hd] at hn
      simp [reading, hfree] at hn
    · rw [idle_wake request ha hd ho] at hn
      simp [reading, start] at hn
  · have hw : e.waking = true := by simpa [h.reading_eq, hi] using hr
    rcases next_waking h hw request miso with ⟨hw', -⟩ | ⟨hp, -, -⟩
    · simp [reading, hw'] at hn
    · simp [(h.next request miso).reading_eq, hp] at hn

end Engine

/-! ### What frames do to the device -/

/-- The first command arms the device, and the second one resets an armed one. -/
theorem Device.execute_command (d : Device) {n : Nat} {opcode : BitVec 8}
    (ho : Opcode.wake[n]? = some opcode) :
    (d.execute (Frame.wake opcode)).resetArmed = decide (n = 0) ∧
      (d.execute (Frame.wake opcode)).resets =
        d.resets + if n = 1 ∧ d.resetArmed = true then 1 else 0 := by
  obtain ⟨hlt, -, -⟩ := Opcode.of_wake_eq_some ho
  rw [resetArmed_execute, resets_execute]
  obtain rfl | rfl | rfl : n = 0 ∨ n = 1 ∨ n = 2 := by omega
  · obtain rfl : Opcode.resetEnable = opcode := Option.some.inj ho
    simp [Frame.wake, Opcode.resetEnable, Opcode.reset]
  · obtain rfl : Opcode.reset = opcode := Option.some.inj ho
    simp [Frame.wake, Opcode.resetEnable, Opcode.reset]
  · obtain rfl : Opcode.release = opcode := Option.some.inj ho
    simp [Frame.wake, Opcode.resetEnable, Opcode.reset, Opcode.release]

theorem Device.execute_of_read (d : Device) {f : Frame} (h : f.opcode = Opcode.read) :
    (d.execute f).resetArmed = false ∧ (d.execute f).resets = d.resets := by
  rw [resetArmed_execute, resets_execute, h]
  exact ⟨rfl, by simp [Opcode.read, Opcode.reset]⟩

/-! ### From power-on to the next reset -/

namespace Link

variable {cfg : Config} {l : Link} {resets : Nat} {executed : List Frame}

/-- A cycle in which the engine accepts a read, answers one, or starts the frame of one. -/
def Serves (l : Link) (request : Request) : Prop :=
  (∃ address, request = .read address ∧ (l.cycle request).1.ready = true) ∨
    (l.cycle request).1.response.isSome = true ∨
    l.engine.reading = false ∧ (l.cycle request).2.engine.reading = true

/-- The states of a link right after power-on or a reset. -/
inductive PowerOn (cfg : Config) : Link → Prop
  | create {l : Link} : create cfg = .ok l → PowerOn cfg l
  | reset {l : Link} : Driven cfg l → PowerOn cfg l.reset

/-- The frames of the handshake, in their order. -/
def wakeFrames : List Frame := Opcode.wake.map Frame.wake

/-- How far the handshake is, and what it has done to the device, which has executed some
frames since power-on. -/
structure Progress (cfg : Config) (resets : Nat) (executed : List Frame) (l : Link) : Prop where
  config_eq : l.config = cfg
  sound : l.engine.Sound cfg.engine
  follows : l.engine.Follows l.device
  executed_eq : ∃ reads, executed = wakeFrames.take l.engine.commanded ++ reads ∧
    (∀ f ∈ reads, f.opcode = Opcode.read) ∧ (reads ≠ [] → l.engine.awake = true)
  armed_eq : l.device.resetArmed = decide (l.engine.commanded = 1)
  resets_eq : l.device.resets = resets + if 2 ≤ l.engine.commanded then 1 else 0

theorem progress_powerOn (hc : l.config = cfg) (he : l.engine = Engine.powerOn cfg.engine)
    (hf : l.engine.Follows l.device) (ha : l.device.resetArmed = false) :
    Progress cfg l.device.resets [] l where
  config_eq := hc
  sound := he ▸ Engine.sound_powerOn cfg.engine
  follows := hf
  executed_eq := ⟨[], by simp [he, Engine.commanded, Engine.powerOn]⟩
  armed_eq := by rw [ha, he]; rfl
  resets_eq := by rw [he]; rfl

theorem PowerOn.progress (h : PowerOn cfg l) : Progress cfg l.device.resets [] l := by
  cases h with
  | create h =>
    have hc := coupled_create h
    unfold Link.create Device.create at h
    split at h
    · exact nomatch h
    · obtain rfl := Except.ok.inj h
      exact progress_powerOn rfl rfl hc.hears.follows rfl
  | reset h =>
    obtain rfl := h.regular.config_eq
    exact progress_powerOn rfl rfl (Engine.hears_powerOn _ rfl rfl rfl).follows rfl

namespace Progress

theorem load (h : Progress cfg resets executed l) {device : Device} {offset : Nat}
    {data : Buffer UInt8} (hd : l.device.load offset data = .ok device) :
    Progress cfg resets executed { l with device } := by
  obtain ⟨image, generation, rfl, -⟩ := Device.load_eq hd
  exact ⟨h.config_eq, h.sound, ⟨h.follows.sclk_eq, h.follows.transaction_eq, h.follows.awake_eq⟩,
    h.executed_eq, h.armed_eq, h.resets_eq⟩

section Cycle

variable (h : Progress cfg resets executed l) (request : Request)
include h

/-- A cycle that executes nothing. -/
theorem cycle_waits (hn : ¬l.engine.Completes cfg.engine) :
    Progress cfg resets executed (l.cycle request).2 := by
  obtain rfl := h.config_eq
  obtain ⟨reads, hreads, hall, hawake⟩ := h.executed_eq
  have hnone := (h.follows.executed_eq h.sound request l.miso).trans (if_neg hn)
  obtain ⟨-, -, -, harmed, hresets⟩ := Device.eval_of_executed_eq_none hnone
  have hnext : (l.cycle request).2.engine.commanded = l.engine.commanded :=
    (Engine.next_commanded request l.miso).trans (by simp [hn])
  refine ⟨rfl, h.sound.next request l.miso, h.follows.next h.sound request l.miso,
    ⟨reads, ?_, hall, fun hr => Engine.next_awake (hawake hr) request l.miso⟩, ?_, ?_⟩
  · rw [hnext, hreads]
  · rw [hnext, ← h.armed_eq]
    exact harmed
  · rw [hnext, ← h.resets_eq]
    exact hresets

/-- The cycle in which the device executes a command of the handshake. -/
theorem cycle_commands (hlast : l.engine.Completes cfg.engine) (hw : l.engine.waking = true) :
    Progress cfg resets (executed ++ [Frame.ofBits l.engine.shiftOut]) (l.cycle request).2 := by
  obtain rfl := h.config_eq
  obtain ⟨reads, hreads, hall, hawake⟩ := h.executed_eq
  obtain ⟨-, hasleep, opcode, ho, hs⟩ := h.sound.wakes hw
  have hf : Frame.ofBits l.engine.shiftOut = Frame.wake opcode := by rw [hs, Frame.ofBits_bits]
  have hsome := (h.follows.executed_eq h.sound request l.miso).trans (if_pos hlast)
  have hdevice : (l.cycle request).2.device =
      ({ l.device with sclk := true } : Device).execute (Frame.wake opcode) :=
    hf ▸ Device.eval_of_executed hsome
  obtain ⟨harmed, hresets⟩ := Device.execute_command { l.device with sclk := true } ho
  have hbefore := Engine.commanded_of_completes hlast
  have hnext : (l.cycle request).2.engine.commanded = l.engine.wakePhase + 1 :=
    (Engine.next_commanded request l.miso).trans (by simp [hlast, hw, hbefore])
  have hfirst : reads = [] := by
    cases reads with
    | nil => rfl
    | cons f fs => exact absurd ((hawake (List.cons_ne_nil f fs)).symm.trans hasleep) (by decide)
  have hcount := h.resets_eq
  have harm := h.armed_eq
  rw [hbefore] at hreads hcount harm
  refine ⟨rfl, h.sound.next request l.miso, h.follows.next h.sound request l.miso,
    ⟨[], ?_, by simp⟩, ?_, ?_⟩
  · rw [hnext, hreads, hfirst, hf, List.take_add_one, wakeFrames, List.getElem?_map, ho]
    simp
  · rw [hnext, hdevice, harmed]
    simp
  · obtain ⟨hlt, -, -⟩ := Opcode.of_wake_eq_some ho
    rw [hnext, hdevice, hresets, show ({ l.device with sclk := true } : Device).resets = _ from
      hcount, show ({ l.device with sclk := true } : Device).resetArmed = _ from harm]
    grind

/-- The cycle in which the device executes a read. -/
theorem cycle_reads (hlast : l.engine.Completes cfg.engine) (hw : l.engine.waking = false) :
    Progress cfg resets (executed ++ [Frame.ofBits l.engine.shiftOut]) (l.cycle request).2 := by
  obtain rfl := h.config_eq
  obtain ⟨reads, hreads, hall, -⟩ := h.executed_eq
  obtain ⟨hawake, address, hs⟩ := h.sound.reads (by simp [hlast.1]) hw
  have hf : (Frame.ofBits l.engine.shiftOut).opcode = Opcode.read := by
    rw [hs, Frame.ofBits_bits]
    rfl
  have hsome := (h.follows.executed_eq h.sound request l.miso).trans (if_pos hlast)
  have hdevice : (l.cycle request).2.device =
      ({ l.device with sclk := true } : Device).execute (Frame.ofBits l.engine.shiftOut) :=
    Device.eval_of_executed hsome
  obtain ⟨harmed, hresets⟩ := Device.execute_of_read { l.device with sclk := true } hf
  have hnext : (l.cycle request).2.engine.commanded = l.engine.commanded :=
    (Engine.next_commanded request l.miso).trans (by simp [hw])
  have hnone : l.engine.commanded ≠ 1 := by
    rw [Engine.commanded_of_not_waking hw]
    cases hboot : l.config.engine.wakeOnBoot with
    | true => simp [((h.sound.asleep hboot).2 hawake).1]
    | false => simp [(h.sound.untouched hboot).2]
  refine ⟨rfl, h.sound.next request l.miso, h.follows.next h.sound request l.miso,
    ⟨reads ++ [Frame.ofBits l.engine.shiftOut], ?_, ?_,
      fun _ => Engine.next_awake hawake request l.miso⟩, ?_, ?_⟩
  · rw [hnext, hreads, List.append_assoc]
  · simpa [or_imp, forall_and, hf] using hall
  · rw [hnext, hdevice, harmed, decide_eq_false hnone]
  · rw [hnext, hdevice, hresets]
    exact h.resets_eq

end Cycle

theorem cycle (h : Progress cfg resets executed l) (request : Request) :
    Progress cfg resets (executed ++ (l.executes (.cycle request)).toList) (l.cycle request).2 := by
  have hexec := h.follows.executed_eq h.sound request l.miso
  rw [← h.config_eq] at hexec
  change l.executes (.cycle request) = _ at hexec
  rw [hexec, h.config_eq]
  by_cases hlast : l.engine.Completes cfg.engine
  · rw [if_pos hlast, Option.toList_some]
    cases hw : l.engine.waking with
    | true => exact h.cycle_commands request hlast hw
    | false => exact h.cycle_reads request hlast hw
  · rw [if_neg hlast, Option.toList_none, List.append_nil]
    exact h.cycle_waits request hlast

theorem turn (h : Progress cfg resets executed l) (t : Turn) :
    Progress cfg resets (executed ++ (l.executes t).toList) (l.turn t) := by
  cases t with
  | cycle request => exact h.cycle request
  | load offset data =>
    rw [executes, Option.toList_none, List.append_nil]
    obtain ⟨device, he, rfl | hd⟩ := turn_load offset data l
    · rw [he]
      exact h
    · rw [he]
      exact h.load hd

/-- **A run keeps to the handshake.** -/
theorem after (h : Progress cfg resets executed l) (ts : List Turn) :
    Progress cfg resets (executed ++ frames ts l) (after ts l) := by
  induction ts generalizing executed l with
  | nil => simpa [frames] using h
  | cons t ts ih => simpa [frames] using ih (h.turn t)

variable (h : Progress cfg resets executed l)
include h

/-- The commands of the handshake come first, and reads come when all of them were executed. -/
theorem shape : (cfg.engine.wakeOnBoot = true → ∃ n reads, executed = wakeFrames.take n ++ reads ∧
      (∀ f ∈ reads, f.opcode = Opcode.read) ∧ (reads ≠ [] → n = 3)) ∧
    (cfg.engine.wakeOnBoot = false → ∀ f ∈ executed, f.opcode = Opcode.read) := by
  obtain ⟨reads, rfl, hall, hawake⟩ := h.executed_eq
  refine ⟨fun hboot => ⟨_, reads, rfl, hall, fun hne => ?_⟩, fun hboot => ?_⟩
  · have ha := hawake hne
    rw [Engine.commanded_of_not_waking (h.sound.waking_of_awake ha)]
    exact ((h.sound.asleep hboot).2 ha).1
  · obtain ⟨ha, hzero⟩ := h.sound.untouched hboot
    rw [Engine.commanded_of_not_waking (h.sound.waking_of_awake ha), hzero]
    exact hall

/-- What holds of pauses of the engine holds of those of a link. -/
theorem release_length {gap : List Turn} {request : Request} (hw : l.engine.waking = true)
    (hne : wires gap l ≠ []) (hgap : ∀ p ∈ wires gap l, p.csN = true)
    (hend : ((Link.after gap l).cycle request).1.pins.csN = false) :
    cfg.engine.wakeDelay.toNat + 1 ≤ (wires gap l).length ∧
      (((Link.after gap l).cycle request).2.engine.waking = true →
        (wires gap l).length = cfg.engine.wakeDelay.toNat + 1) := by
  obtain rfl := h.config_eq
  have hafter : ((Link.after gap l).cycle request).2.engine =
      Engine.after l.config.engine (inputs gap l ++ [⟨request, (Link.after gap l).miso⟩])
        l.engine := by
    rw [Engine.after_append, ← engine_after, cycle_engine, config_after]
    rfl
  have hlow : ((Link.after gap l).cycle request).2.engine.pins.csN = false := hend
  rw [hafter] at hlow ⊢
  rw [wires, Engine.length_wires]
  refine Engine.release_length h.sound hw (fun hnil => hne ?_) hgap hlow
  rw [wires, hnil]
  rfl

theorem reset_mem_iff : Frame.wake Opcode.reset ∈ executed ↔ 2 ≤ l.engine.commanded := by
  obtain ⟨reads, rfl, hall, -⟩ := h.executed_eq
  have hread : Frame.wake Opcode.reset ∉ reads := fun hm => absurd (hall _ hm) (by decide)
  rw [List.mem_append, or_iff_left hread]
  rcases l.engine.commanded with _ | _ | n
  · simp
  · simp [wakeFrames, Opcode.wake, Frame.wake, Opcode.reset, Opcode.resetEnable]
  · simp [wakeFrames, Opcode.wake]

theorem woken_of_serves (hboot : cfg.engine.wakeOnBoot = true) {request : Request}
    (hs : l.Serves request) : l.engine.wakePhase = 3 ∧ l.engine.delayLeft = 0 := by
  have hfinish : l.engine.phase = .finish ∨
      l.engine.reading = false ∧ (l.cycle request).2.engine.reading = true := by
    rcases hs with ⟨address, rfl, hready⟩ | hresponse | hstart
    · left
      simpa [Engine.ready, Request.isWrite] using hready
    · exact .inl (Engine.phase_of_response (Option.eq_some_of_isSome hresponse))
    · exact .inr hstart
  rcases hfinish with hf | ⟨hr, hn⟩
  · exact h.sound.woken_of_finish hboot hf
  · obtain rfl := h.config_eq
    exact h.sound.woken_of_started hboot hr hn

theorem wakeFrames_prefix (hw : l.engine.wakePhase = 3) : wakeFrames <+: executed := by
  obtain ⟨reads, rfl, -, -⟩ := h.executed_eq
  have hthree : 3 ≤ l.engine.commanded := hw ▸ Nat.le_add_right _ _
  rw [List.take_of_length_le (show wakeFrames.length ≤ _ from hthree)]
  exact List.prefix_append _ _

theorem awake_of_read (hboot : cfg.engine.wakeOnBoot = true) {request : Request} {f : Frame}
    (hf : l.executes (.cycle request) = some f) (hread : f.opcode = Opcode.read) :
    l.device.awake = true := by
  have hexec := h.follows.executed_eq h.sound request l.miso
  rw [← h.config_eq] at hexec
  have hf : _ = some f := hexec.symm.trans hf
  split at hf
  · rename_i hlast
    obtain rfl := Option.some.inj hf
    have hw : l.engine.waking = false := by
      cases hw : l.engine.waking with
      | false => rfl
      | true =>
        obtain ⟨-, -, opcode, ho, hs⟩ := h.sound.wakes hw
        obtain ⟨-, hmem, -⟩ := Opcode.of_wake_eq_some ho
        rw [hs, Frame.ofBits_bits] at hread
        exact absurd (hread ▸ hmem : Opcode.read ∈ Opcode.wake) (by decide)
    obtain ⟨ha, -⟩ := h.sound.reads (by simp [hlast.1]) hw
    have hthree := ((h.sound.asleep hboot).2 ha).1
    simp [h.follows.awake_eq, Engine.released, hthree]
  · exact absurd hf (Option.some_ne_none f).symm

end Progress

/-- **The handshake is kept to under all traffic.**  Whatever is presented from power-on to the next
reset, and whenever the contents of the device change, a device that is to be woken executes the
commands of the handshake, once and in their order, and only reads after the last of them; one that
is not to be woken executes only reads.  Between two commands it is released for the pause and one
cycle, and before the first read for at least that long.  No read is accepted or answered, and none
starts, before the third command was executed and its pause is over; so the device is awake for
every read.  It is reset once, by the second command. -/
theorem handshake_kept (cfg : Config) (l : Link) (h : PowerOn cfg l) (ts : List Turn) :
    (cfg.engine.wakeOnBoot = true → ∃ n reads, frames ts l = wakeFrames.take n ++ reads ∧
      (∀ f ∈ reads, f.opcode = Opcode.read) ∧ (reads ≠ [] → n = 3)) ∧
    (cfg.engine.wakeOnBoot = false → ∀ f ∈ frames ts l, f.opcode = Opcode.read) ∧
    (∀ gap request, (after ts l).engine.waking = true →
      wires gap (after ts l) ≠ [] → (∀ p ∈ wires gap (after ts l), p.csN = true) →
      ((after (ts ++ gap) l).cycle request).1.pins.csN = false →
      cfg.engine.wakeDelay.toNat + 1 ≤ (wires gap (after ts l)).length ∧
      (((after (ts ++ gap) l).cycle request).2.engine.waking = true →
        (wires gap (after ts l)).length = cfg.engine.wakeDelay.toNat + 1)) ∧
    (cfg.engine.wakeOnBoot = true → ∀ request, Serves (after ts l) request →
      wakeFrames <+: frames ts l ∧ (after ts l).engine.wakePhase = 3 ∧
      (after ts l).engine.delayLeft = 0) ∧
    (cfg.engine.wakeOnBoot = true → ∀ request f,
      (after ts l).executes (.cycle request) = some f → f.opcode = Opcode.read →
      (after ts l).device.awake = true) ∧
    (after ts l).device.resets =
      l.device.resets + if Frame.wake Opcode.reset ∈ frames ts l then 1 else 0 := by
  have hp := h.progress.after ts
  rw [List.nil_append] at hp
  refine ⟨hp.shape.1, hp.shape.2, ?_, ?_, fun hboot request f => hp.awake_of_read hboot, ?_⟩
  · intro gap request hw hne hgap hend
    rw [after_append] at hend ⊢
    exact hp.release_length hw hne hgap hend
  · intro hboot request hs
    obtain ⟨hthree, hdelay⟩ := hp.woken_of_serves hboot hs
    exact ⟨hp.wakeFrames_prefix hthree, hthree, hdelay⟩
  · rw [hp.resets_eq]
    simp only [hp.reset_mem_iff]

/-- A read that is held for some cycles. -/
def heldRead (n : Nat) : List Turn := List.replicate n (.cycle (.read 5))

theorem handshake_kept_slow :
    PowerOn slowConfig slowErased ∧
    (after (heldRead 191) slowErased).engine.waking = true ∧
    (wires (heldRead 3) (after (heldRead 191) slowErased)).length = 3 ∧
    Serves (after (heldRead 582) slowErased) (.read 5) ∧
    wakeFrames <+: frames (heldRead 582) slowErased ∧
    (after (heldRead 771) slowErased).executes (.cycle (.read 5)) = some (.read 8) ∧
    (after (heldRead 771) slowErased).device.awake = true := by
  have hon : PowerOn slowConfig slowErased := .create rfl
  have hwaking : (after (heldRead 191) slowErased).engine.waking = true := by decide +kernel
  have hserves : Serves (after (heldRead 582) slowErased) (.read 5) :=
    .inr (.inr ⟨by decide +kernel, by decide +kernel⟩)
  have hreads : (after (heldRead 771) slowErased).executes (.cycle (.read 5)) = some (.read 8) := by
    decide +kernel
  obtain ⟨-, -, hgap, -⟩ := handshake_kept slowConfig slowErased hon (heldRead 191)
  obtain ⟨-, hlength⟩ := hgap (heldRead 3) (.read 5) hwaking (by decide +kernel)
    (by decide +kernel) (by decide +kernel)
  obtain ⟨-, -, -, hserved, -⟩ := handshake_kept slowConfig slowErased hon (heldRead 582)
  obtain ⟨-, -, -, -, hawake, -⟩ := handshake_kept slowConfig slowErased hon (heldRead 771)
  exact ⟨hon, hwaking, hlength (by decide +kernel), hserves, (hserved rfl _ hserves).1, hreads,
    hawake rfl _ _ hreads rfl⟩

end Link
end Flash
end WeightLink
