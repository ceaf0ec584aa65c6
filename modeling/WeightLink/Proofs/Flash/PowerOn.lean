/-
# A reset is a power-on

What a reset leaves is taken for a link that was just powered on (`Link.Fresh`), whatever was on
the wires and in the registers before it.  The device keeps its contents and goes on with its
counters and its log (`Device.Resumes`); nothing that the link does depends on them.  So a link
after a reset and a fresh one with the same contents answer the same calls in the same way, cycle
by cycle (`Link.reset_powers_on`), and the counters of the device stay as far apart as they were.
-/

import WeightLink.Proofs.Flash.Budget
import WeightLink.Proofs.Flash.Execution
import WeightLink.Proofs.Flash.Simulation

namespace WeightLink
namespace Flash
namespace Device

/-! ### The counters of the device -/

/-- The device without its counters and its log. -/
def uncounted (d : Device) : Device :=
  { d with log := #[], seen := 0, generation := 0, streamed := 0, resets := 0 }

theorem uncounted_eq_iff {d d' : Device} :
    d'.uncounted = d.uncounted ↔
      d' =
        { d with
          log := d'.log
          seen := d'.seen
          generation := d'.generation
          streamed := d'.streamed
          resets := d'.resets } := by
  obtain ⟨⟩ := d
  obtain ⟨⟩ := d'
  simp [uncounted]

/-- What a cycle does to the rest does not depend on the counters. -/
theorem eval_uncounted (d : Device) (pins : Pins) :
    (d.eval pins).uncounted = (d.uncounted.eval pins).uncounted := by
  grind [eval, rise, fall, execute, uncounted, dataByte]

theorem streamed_execute (d : Device) (f : Frame) : (d.execute f).streamed = d.streamed := by
  grind [execute]

/-- Nor does it depend on them what a cycle adds to them. -/
theorem counted_eval (d : Device) (pins : Pins) :
    (d.eval pins).streamed = d.streamed + (d.uncounted.eval pins).streamed ∧
      (d.eval pins).resets = d.resets + (d.uncounted.eval pins).resets := by
  dsimp only [eval, uncounted]
  split
  · exact ⟨rfl, rfl⟩
  · split
    · cases d.transaction with
      | command shift bits =>
        simp only [rise]
        split <;> simp [streamed_execute, resets_execute]
      | _ => simp [rise]
    · split
      · cases d.transaction with
        | reading address bit =>
          simp only [fall]
          split <;> simp
        | _ => simp [fall]
      · exact ⟨rfl, rfl⟩

theorem executed_uncounted (d : Device) (pins : Pins) :
    d.uncounted.executed pins = d.executed pins := rfl

/-- What a log that was begun with some frames keeps of those that follow is what it keeps of
them behind those. -/
theorem logged_concat (past frames next : List Frame) (limit : Nat) :
    past ++ frames.take (limit - past.length) ++
        next.take (limit - (past ++ frames.take (limit - past.length)).length) =
      past ++ (frames ++ next.take (limit - frames.length)).take (limit - past.length) := by
  rw [List.take_append, List.take_take, List.append_assoc, List.length_append, List.length_take]
  congr 3
  omega

/-- The device is another one that has a past: the same apart from the log and the counters, and
these start with what was there.  `start` is where the other one started. -/
structure Resumes (past start d d' : Device) : Prop where
  rest_eq : d' =
    { d with
      log := d'.log
      seen := d'.seen
      generation := d'.generation
      streamed := d'.streamed
      resets := d'.resets }
  seen_eq : d.seen = past.seen + d'.seen
  streamed_eq : d.streamed = past.streamed + d'.streamed
  resets_eq : d.resets = past.resets + d'.resets
  generation_eq : d.generation + start.generation = past.generation + d'.generation
  log_eq : d.log.toList = past.log.toList ++ d'.log.toList.take (d.logLimit - past.log.size)

variable {past start d d' : Device}

/-- **A cycle adds the same to both.** -/
theorem Resumes.eval (h : Resumes past start d d') (pins : Pins) :
    Resumes past start (d.eval pins) (d'.eval pins) := by
  have hrest := uncounted_eq_iff.2 h.rest_eq
  have hlimit : d'.logLimit = d.logLimit := by rw [h.rest_eq]
  have hexecuted : d'.executed pins = d.executed pins := by
    rw [← executed_uncounted, hrest, executed_uncounted]
  obtain ⟨hstreamed, hresets⟩ := counted_eval d pins
  obtain ⟨hstreamed', hresets'⟩ := counted_eval d' pins
  rw [hrest] at hstreamed' hresets'
  refine ⟨uncounted_eq_iff.1 ?_, ?_, ?_, ?_, ?_, ?_⟩
  · rw [eval_uncounted, hrest, ← eval_uncounted]
  · rw [seen_eval, seen_eval, hexecuted, h.seen_eq, Nat.add_assoc]
  · rw [hstreamed, hstreamed', h.streamed_eq, Nat.add_assoc]
  · rw [hresets, hresets', h.resets_eq, Nat.add_assoc]
  · rw [generation_eval, generation_eval, h.generation_eq]
  · have hlog := logged_concat past.log.toList d'.log.toList (d.executed pins).toList d.logLimit
    simp only [Array.length_toList] at hlog
    rw [log_eval, log_eval, logLimit_eval, hexecuted, hlimit, ← hlog, ← h.log_eq,
      Array.length_toList]

/-- A power cycle begins the rest anew, for both. -/
theorem Resumes.powerCycle (h : Resumes past start d d') :
    Resumes past start d.powerCycle d'.powerCycle where
  rest_eq := by
    unfold Device.powerCycle
    rw [h.rest_eq]
  seen_eq := h.seen_eq
  streamed_eq := h.streamed_eq
  resets_eq := h.resets_eq
  generation_eq := by
    have := h.generation_eq
    simp only [Device.powerCycle]
    omega
  log_eq := h.log_eq

theorem load_of_fits {offset : Nat} {bytes : Bytes} (hsome : bytes.size ≠ 0)
    (hfits : offset + bytes.size ≤ d.image.capacity) : d.load offset (.held bytes) =
      .ok { d with image := d.image.program offset bytes, generation := d.generation + 1 } := by
  simp [load, hsome, Nat.not_lt.2 hfits]

/-- A device after power-up, with some contents. -/
def powered (image : Image) (generation : Nat) (requiresWake : Bool) : Device where
  image
  requiresWake
  awake := !requiresWake
  resetArmed := false
  transaction := fresh
  sclk := false
  miso := true
  log := #[]
  logLimit := defaultLogLimit
  seen := 0
  generation
  streamed := 0
  resets := 0

/-- What a power cycle leaves goes on as a device after power-up does. -/
theorem resumes_powered (hlimit : d.logLimit = defaultLogLimit) (generation : Nat) :
    let past := d.powerCycle
    let start := powered d.image generation d.requiresWake
    Resumes past start past start where
  rest_eq := by simp [powered, Device.powerCycle, hlimit]
  seen_eq := rfl
  streamed_eq := rfl
  resets_eq := rfl
  generation_eq := rfl
  log_eq := by simp [powered]

end Device

namespace Link

/-! ### Fresh links -/

/-- A link that was powered on, and whose device was perhaps programmed since then. -/
inductive Fresh (cfg : Config) : Link → Prop
  | create {l : Link} : create cfg = .ok l → Fresh cfg l
  | load {l : Link} {device : Device} (offset : Nat) (data : Buffer UInt8) :
      Fresh cfg l → l.device.load offset data = .ok device → Fresh cfg { l with device }

variable {cfg : Config} {l : Link}

/-- All fresh links are the same but for what was programmed. -/
theorem Fresh.eq (h : Fresh cfg l) : ∃ image generation, l =
    { config := cfg
      engine := Engine.powerOn cfg.engine
      device := Device.powered image generation cfg.deviceRequiresWake
      miso := true
      sawAwake := (Engine.powerOn cfg.engine).awake
      stats := .zero } := by
  induction h with
  | create h =>
    unfold Link.create Device.create at h
    split at h
    · exact nomatch h
    · exact ⟨_, _, (Except.ok.inj h).symm⟩
  | load offset data _ hd ih =>
    obtain ⟨image, generation, rfl⟩ := ih
    obtain ⟨image', generation', rfl, -⟩ := Device.load_eq hd
    exact ⟨image', generation', rfl⟩

/-! ### What stays of the device -/

/-- The device is the one of the settings: its power-up state, its log, its capacity, and nothing
behind its last cell. -/
structure Fitted (cfg : Config) (d : Device) : Prop where
  requiresWake_eq : d.requiresWake = cfg.deviceRequiresWake
  logLimit_eq : d.logLimit = Device.defaultLogLimit
  capacity_eq : d.image.capacity = cfg.deviceBytes
  cell_eq : ∀ a, cfg.deviceBytes ≤ a → d.image.cell a = Image.erasedByte

namespace Fitted

variable {d : Device}

theorem eval (h : Fitted cfg d) (pins : Pins) : Fitted cfg (d.eval pins) where
  requiresWake_eq := (d.requiresWake_eval pins).trans h.requiresWake_eq
  logLimit_eq := (d.logLimit_eval pins).trans h.logLimit_eq
  capacity_eq := by rw [Device.image_eval, h.capacity_eq]
  cell_eq := by simpa only [Device.image_eval] using h.cell_eq

theorem powerCycle (h : Fitted cfg d) : Fitted cfg d.powerCycle :=
  ⟨h.requiresWake_eq, h.logLimit_eq, h.capacity_eq, h.cell_eq⟩

theorem load (h : Fitted cfg d) {offset : Nat} {data : Buffer UInt8} {d' : Device}
    (hd : d.load offset data = .ok d') : Fitted cfg d' := by
  obtain rfl | ⟨bytes, hfits, rfl⟩ := Device.load_cases hd
  · exact h
  · refine ⟨h.requiresWake_eq, h.logLimit_eq, h.capacity_eq, fun a ha => ?_⟩
    have hout : ¬(offset ≤ a ∧ a - offset < bytes.size) := by
      rw [h.capacity_eq] at hfits
      omega
    simp only [Image.program, hout, dite_false]
    exact h.cell_eq a ha

end Fitted

/-- What cycles, programming and power cycles keep of the device is kept. -/
theorem Driven.fitted (h : Driven cfg l) : Fitted cfg l.device := by
  refine h.keeps (P := fun l => Fitted cfg l.device) (fun l h => ?_) (fun _ _ h => h.eval _)
    (fun _ _ h => h) (fun _ h => h.powerCycle) (fun _ _ _ _ hd h => h.load hd)
    fun _ h => h.powerCycle
  obtain ⟨-, -, -, -, himage⟩ := create_eq_ok h
  obtain ⟨image, generation, rfl⟩ := Fresh.eq (.create h)
  obtain rfl : image = .erased cfg.deviceBytes := himage
  exact ⟨rfl, rfl, rfl, fun _ _ => rfl⟩

theorem Driven.created (h : Driven cfg l) : ∃ l₀, Link.create cfg = .ok l₀ :=
  h.keeps (P := fun _ => ∃ l₀, Link.create cfg = .ok l₀) (fun l h => ⟨l, h⟩) (fun _ _ h => h)
    (fun _ _ h => h) (fun _ h => h) (fun _ _ _ _ _ h => h) fun _ h => h

/-- No device is without cells. -/
theorem deviceBytes_ne_zero (h : Link.create cfg = .ok l) : cfg.deviceBytes ≠ 0 := by
  unfold Link.create Device.create at h
  split at h
  · exact nomatch h
  · rename_i hfits
    exact fun hzero => hfits (.inl hzero)

/-- To program all cells makes the contents what they are. -/
theorem Fitted.program_eq {d : Device} (h : Fitted cfg d) :
    (Image.erased cfg.deviceBytes).program 0
      (Array.ofFn fun i : Fin cfg.deviceBytes => d.image.cell i) = d.image := by
  have hcell : ((Image.erased cfg.deviceBytes).program 0
      (Array.ofFn fun i : Fin cfg.deviceBytes => d.image.cell i)).cell = d.image.cell := by
    funext a
    by_cases ha : a < cfg.deviceBytes
    · simp [Image.program, ha]
    · simp [Image.program, ha, Image.erased, h.cell_eq a (Nat.le_of_not_lt ha)]
  obtain ⟨⟨capacity, cell⟩⟩ := d
  exact congrArg₂ Image.mk h.capacity_eq.symm hcell

/-- **Whatever is in a device may have been programmed after power-on.** -/
theorem Driven.exists_fresh (h : Driven cfg l) :
    ∃ fresh, Fresh cfg fresh ∧ fresh.device.image = l.device.image := by
  obtain ⟨l₀, hcreate⟩ := h.created
  obtain ⟨-, -, -, -, himage⟩ := create_eq_ok hcreate
  let contents : Bytes := Array.ofFn fun i : Fin cfg.deviceBytes => l.device.image.cell i
  have hsize : contents.size = cfg.deviceBytes := Array.size_ofFn
  have hsome : contents.size ≠ 0 := by
    rw [hsize]
    exact deviceBytes_ne_zero hcreate
  have hfits : 0 + contents.size ≤ l₀.device.image.capacity := by
    rw [hsize, himage, Nat.zero_add]
    exact Nat.le_refl _
  refine ⟨_, .load 0 (.held contents) (.create hcreate) (Device.load_of_fits hsome hfits), ?_⟩
  change l₀.device.image.program 0 contents = l.device.image
  rw [himage]
  exact h.fitted.program_eq

/-! ### After a reset -/

/-- The link is another one whose device has a past. -/
structure Resumes (past start : Device) (l l' : Link) : Prop where
  config_eq : l'.config = l.config
  engine_eq : l'.engine = l.engine
  miso_eq : l'.miso = l.miso
  sawAwake_eq : l'.sawAwake = l.sawAwake
  stats_eq : l'.stats = l.stats
  device : Device.Resumes past start l.device l'.device

namespace Resumes

variable {past start : Device} {l' : Link}

theorem cycle (h : Resumes past start l l') (request : Request) :
    Shown Eq (Resumes past start) (l.cycle request) (l'.cycle request) := by
  have hengine : (l'.cycle request).2.engine = (l.cycle request).2.engine := by
    rw [cycle_engine, cycle_engine, h.config_eq, h.engine_eq, h.miso_eq]
  have hout : (l'.cycle request).1 = (l.cycle request).1 := by
    simp only [Link.cycle, Engine.tick, h.config_eq, h.engine_eq, h.miso_eq]
  have hdevice : Device.Resumes past start (l.cycle request).2.device
      (l'.cycle request).2.device := by
    have hpins : (l'.cycle request).1.pins = (l.cycle request).1.pins := congrArg Outputs.pins hout
    change Device.Resumes past start (l.device.eval (l.cycle request).1.pins)
      (l'.device.eval (l'.cycle request).1.pins)
    rw [hpins]
    exact h.device.eval _
  have hmiso : (l'.cycle request).2.device.miso = (l.cycle request).2.device.miso := by
    rw [hdevice.rest_eq]
  refine ⟨Outputs.rel_eq_iff.2 hout, h.config_eq, hengine, hmiso, ?_, ?_, hdevice⟩
  · change (l'.sawAwake || (l'.cycle request).2.engine.awake) =
      (l.sawAwake || (l.cycle request).2.engine.awake)
    rw [h.sawAwake_eq, hengine]
  · change l'.stats.count request (l'.cycle request).1 (l'.cycle request).2.engine l'.sawAwake =
      l.stats.count request (l.cycle request).1 (l.cycle request).2.engine l.sawAwake
    rw [h.stats_eq, h.sawAwake_eq, hout, hengine]

theorem load (h : Resumes past start l l') (offset : Nat) (data : Buffer UInt8) :
    Reloaded (Resumes past start) l l' (l.device.load offset data)
      (l'.device.load offset data) := by
  have hrest := h.device.rest_eq
  have himage : l'.device.image = l.device.image := by rw [hrest]
  refine reloaded_of_capacity offset (by rw [himage]) h (fun bytes => ?_) data
  refine ⟨h.config_eq, h.engine_eq, h.miso_eq, h.sawAwake_eq, h.stats_eq, ?_, h.device.seen_eq,
    h.device.streamed_eq, h.device.resets_eq, ?_, h.device.log_eq⟩
  · dsimp only
    rw [hrest]
  · have := h.device.generation_eq
    dsimp only
    omega

theorem reset (h : Resumes past start l l') : Resumes past start l.reset l'.reset where
  config_eq := h.config_eq
  engine_eq := by simp only [Link.reset, h.config_eq]
  miso_eq := rfl
  sawAwake_eq := by simp only [Link.reset, h.config_eq]
  stats_eq := rfl
  device := h.device.powerCycle

end Resumes

/-- Links of which one has a past show the same. -/
theorem simulation_resumes (past start : Device) : Simulation Eq (Resumes past start) where
  config_eq _ _ h := h.config_eq
  phase_eq _ _ h := congrArg Engine.phase h.engine_eq
  sawAwake_eq _ _ h := h.sawAwake_eq
  stats_eq _ _ h := h.stats_eq
  cycle _ _ request h := h.cycle request
  withLatency _ _ _ h :=
    ⟨h.config_eq, h.engine_eq, h.miso_eq, h.sawAwake_eq, by
      simp only [Link.withLatency, h.stats_eq], h.device⟩
  load _ _ offset data h := h.load offset data
  reset _ _ h := h.reset

/-- A link after a reset is a fresh one with a past. -/
theorem Driven.resumes_reset (h : Driven cfg l) {fresh : Link} (hfresh : Fresh cfg fresh)
    (himage : fresh.device.image = l.device.image) :
    Resumes l.reset.device fresh.device l.reset fresh := by
  have hconfig := h.regular.config_eq
  have hfitted := h.fitted
  obtain ⟨image, generation, rfl⟩ := hfresh.eq
  obtain rfl : image = l.device.image := himage
  have hdevice := Device.resumes_powered hfitted.logLimit_eq generation
  rw [hfitted.requiresWake_eq] at hdevice
  refine ⟨hconfig.symm, ?_, rfl, ?_, rfl, hdevice⟩
  · simp only [Link.reset, hconfig]
  · simp only [Link.reset, hconfig]

/-- **A reset is a power-on**, from every state that a link gets into.  There is a fresh link with
the same contents.  All calls do the same on it as on the link after the reset: they end in the
same way and report the same, and each cycle drives the same.  After each of them the engines,
the counters of the links and the devices are the same, apart from what the one device had
counted and logged before. -/
theorem reset_powers_on (h : Driven cfg l) :
    (∃ fresh, Fresh cfg fresh ∧ fresh.device.image = l.device.image) ∧
      ∀ fresh, Fresh cfg fresh → fresh.device.image = l.device.image →
        Resumes l.reset.device fresh.device l.reset fresh ∧
          ∀ calls, List.Forall₂ (Call.Record.Same (Resumes l.reset.device fresh.device))
            (history calls l.reset) (history calls fresh) := by
  refine ⟨h.exists_fresh, fun fresh hfresh himage => ?_⟩
  have hresumes := h.resumes_reset hfresh himage
  exact ⟨hresumes, fun calls =>
    ((simulation_resumes _ _).history calls hresumes).imp fun _ _ hrecord => hrecord.same⟩

/-- Eight bytes. -/
def countedBytes : Bytes := #[1, 2, 3, 4, 5, 6, 7, 8]

/-- The link after power-on, with the eight bytes in its device. -/
def programmed : Link :=
  { hastyErased with
    device := (hastyErased.device.load 0 (.held countedBytes)).toOption.get (by decide) }

/-- The link behind a read that gave up, in the middle of the data. -/
def midData : Link := idle 220 ((readWord 4).run programmed).state

theorem reset_powers_on_midData :
    let calls : List Call := [.readWord 4, .readWord 4]
    Driven hastyConfig midData ∧ midData.engine.phase = .readHigh ∧ midData.device.seen = 4 ∧
      Fresh hastyConfig programmed ∧ programmed.device.image = midData.device.image ∧
      List.Forall₂ (Call.Record.Same (Resumes midData.reset.device programmed.device))
        (history calls midData.reset) (history calls programmed) ∧
      (history calls programmed).map (·.result.toOption) = [none, some (.word 0x04030201)] := by
  intro calls
  have hload : hastyErased.device.load 0 (.held countedBytes) = .ok programmed.device := rfl
  have hfresh : Fresh hastyConfig programmed := .load 0 (.held countedBytes) (.create rfl) hload
  have hdriven : Driven hastyConfig midData :=
    .idle 220 (.readWord 4 (.load 0 (.held countedBytes) (.create rfl) hload))
  have himage : midData.device.image = programmed.device.image := by
    have hcycle : ∀ l request, l.device.image = programmed.device.image →
        (Link.cycle request l).2.device.image = programmed.device.image :=
      fun l request h => (Device.image_eval _ _).trans h
    exact idle_induction (P := fun l => l.device.image = programmed.device.image)
      (fun l h => hcycle l .none h) 220
      (readWord_induction (P := fun l => l.device.image = programmed.device.image) hcycle
        (fun _ _ h => h) rfl 4)
  obtain ⟨-, hsame⟩ := reset_powers_on hdriven
  obtain ⟨-, hcalls⟩ := hsame programmed hfresh himage.symm
  exact ⟨hdriven, by decide +kernel, by decide +kernel, hfresh, himage.symm, hcalls calls,
    by decide +kernel⟩

end Link
end Flash
end WeightLink
