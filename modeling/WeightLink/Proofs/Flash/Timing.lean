/-
# What a link lets out about the contents of its device

The bits of the device come back to the engine in every cycle of a read.  They end up in the
register of received bits and, from there, in the answered word.  Nowhere else: two links with
different contents (`Link.SameButData`) drive the same wires, accept and answer in the same
cycles, count and log the same, and give up in the same calls (`Link.data_stay_in_words`).

A cycle with the data bits left out of both machines is a cycle without them
(`Engine.next_blank`, `Device.eval_blank`).  So it is enough that everything that is shown can be
read off the machines without their data bits.
-/

import WeightLink.Proofs.Flash.Budget
import WeightLink.Proofs.Flash.Execution
import WeightLink.Proofs.Flash.Simulation

namespace WeightLink
namespace Flash

/-! ### The two machines -/

/-- Engines that are the same without their data bits differ in these alone. -/
theorem Engine.blank_eq_iff {e e' : Engine} :
    e'.blank = e.blank ↔ e' = { e with shiftIn := e'.shiftIn } := by
  obtain ⟨⟩ := e
  obtain ⟨⟩ := e'
  simp [Engine.blank]

/-- Devices that are the same without their data differ in these alone. -/
theorem Device.blank_eq_iff {d d' : Device} :
    d'.blank = d.blank ↔ d' = { d with image := d'.image, miso := d'.miso } := by
  obtain ⟨⟩ := d
  obtain ⟨⟩ := d'
  simp [Device.blank]

/-- Without its data bits, an engine still has its wires, its counters and its flags. -/
theorem Engine.pins_of_blank {e e' : Engine} (h : e'.blank = e.blank) : e'.pins = e.pins := by
  rw [Engine.blank_eq_iff.1 h]

theorem Engine.awake_of_blank {e e' : Engine} (h : e'.blank = e.blank) : e'.awake = e.awake := by
  rw [Engine.blank_eq_iff.1 h]

theorem Engine.phase_of_blank {e e' : Engine} (h : e'.blank = e.blank) : e'.phase = e.phase := by
  rw [Engine.blank_eq_iff.1 h]

/-- What an engine accepts does not depend on the data bits. -/
theorem Engine.ready_of_blank {e e' : Engine} (h : e'.blank = e.blank) (request : Request) :
    e'.ready request = e.ready request := by
  rw [Engine.blank_eq_iff.1 h]
  rfl

/-- Nor does it depend on them whether it answers. -/
theorem Engine.response_of_blank {e e' : Engine} (h : e'.blank = e.blank) :
    Option.Rel (fun _ _ => True) e.response e'.response := by
  unfold Engine.response
  rw [Engine.phase_of_blank h]
  split
  · exact .some trivial
  · exact .none

namespace Link

/-- The counters of a cycle do not depend on the data bits. -/
theorem Stats.count_of_blank {out out' : Outputs} {e e' : Engine}
    (hout : Outputs.Rel (fun _ _ => True) out out') (h : e'.blank = e.blank) (s : Stats)
    (request : Request) (sawAwake : Bool) :
    s.count request out' e' sawAwake = s.count request out e sawAwake := by
  have hanswers : out'.response.isSome = out.response.isSome := by
    have hresponse := hout.response
    revert hresponse
    generalize out.response = word
    generalize out'.response = word'
    rintro (_ | _) <;> rfl
  rw [Engine.blank_eq_iff.1 h]
  simp only [count, hout.ready_eq, hanswers]

/-! ### Links with other data -/

/-- The links are the same but for the contents of the device, where they have the same capacity,
for the data line, and for the data bits that were received. -/
structure SameButData (l l' : Link) : Prop where
  config_eq : l'.config = l.config
  engine_eq : l'.engine = { l.engine with shiftIn := l'.engine.shiftIn }
  device_eq : l'.device = { l.device with image := l'.device.image, miso := l'.device.miso }
  capacity_eq : l'.device.image.capacity = l.device.image.capacity
  sawAwake_eq : l'.sawAwake = l.sawAwake
  stats_eq : l'.stats = l.stats

/-- The link with other contents in its device. -/
def withImage (l : Link) (image : Image) : Link :=
  { l with device := { l.device with image } }

namespace SameButData

variable {l l' : Link}

/-- **A cycle shows the same and keeps the rest the same**, whatever the data are. -/
theorem cycle (h : SameButData l l') (request : Request) :
    Shown (fun _ _ => True) SameButData (l.cycle request) (l'.cycle request) := by
  have hengine := Engine.blank_eq_iff.2 h.engine_eq
  have hdevice := Device.blank_eq_iff.2 h.device_eq
  have hnext : (l'.cycle request).2.engine.blank = (l.cycle request).2.engine.blank := by
    rw [cycle_engine, cycle_engine, h.config_eq, Engine.next_blank, hengine, ← Engine.next_blank]
  have hpins : (l'.cycle request).1.pins = (l.cycle request).1.pins :=
    Engine.pins_of_blank hnext
  have heval : (l'.cycle request).2.device.blank = (l.cycle request).2.device.blank := by
    change (l'.device.eval (l'.cycle request).1.pins).blank =
      (l.device.eval (l.cycle request).1.pins).blank
    rw [hpins, Device.eval_blank, hdevice, ← Device.eval_blank]
  have hout : Outputs.Rel (fun _ _ => True) (l.cycle request).1 (l'.cycle request).1 :=
    ⟨Engine.ready_of_blank hengine request, hpins, Engine.response_of_blank hengine⟩
  refine ⟨hout, h.config_eq, Engine.blank_eq_iff.1 hnext, Device.blank_eq_iff.1 heval, ?_,
    congrArg₂ or h.sawAwake_eq (Engine.awake_of_blank hnext), ?_⟩
  · rw [cycle_device, cycle_device, Device.image_eval, Device.image_eval, h.capacity_eq]
  · change l'.stats.count request (l'.cycle request).1 (l'.cycle request).2.engine l'.sawAwake =
      l.stats.count request (l.cycle request).1 (l.cycle request).2.engine l.sawAwake
    rw [h.stats_eq, h.sawAwake_eq, Stats.count_of_blank hout hnext]

/-- The same programming is refused for both contents, or done to both. -/
theorem load (h : SameButData l l') (offset : Nat) (data : Buffer UInt8) :
    Reloaded SameButData l l' (l.device.load offset data) (l'.device.load offset data) := by
  refine reloaded_of_capacity offset h.capacity_eq h (fun bytes => ?_) data
  refine ⟨h.config_eq, h.engine_eq, ?_, h.capacity_eq, h.sawAwake_eq, h.stats_eq⟩
  dsimp only
  rw [h.device_eq]

theorem reset (h : SameButData l l') : SameButData l.reset l'.reset where
  config_eq := h.config_eq
  engine_eq := by simp only [Link.reset, h.config_eq]
  device_eq := by
    simp only [Link.reset, Device.powerCycle]
    rw [h.device_eq]
  capacity_eq := h.capacity_eq
  sawAwake_eq := by simp only [Link.reset, h.config_eq]
  stats_eq := rfl

end SameButData

/-- Links that are the same but for their data show the same but for the words. -/
theorem simulation_sameButData : Simulation (fun _ _ => True) SameButData where
  config_eq _ _ h := h.config_eq
  phase_eq _ _ h := Engine.phase_of_blank (Engine.blank_eq_iff.2 h.engine_eq)
  sawAwake_eq _ _ h := h.sawAwake_eq
  stats_eq _ _ h := h.stats_eq
  cycle _ _ request h := h.cycle request
  withLatency _ _ _ h :=
    ⟨h.config_eq, h.engine_eq, h.device_eq, h.capacity_eq, h.sawAwake_eq, by
      simp only [Link.withLatency, h.stats_eq]⟩
  load _ _ offset data h := h.load offset data
  reset _ _ h := h.reset

/-- **The data stay in the words.**  On a link, with one contents in its device or with another of
the same capacity, all calls end in the same way and report the same, and in each of their cycles
the same is driven.  After each cycle and each call the two links differ in nothing but the
contents, the data line and the received data bits. -/
theorem data_stay_in_words (l : Link) {image image' : Image}
    (hcapacity : image'.capacity = image.capacity) (calls : List Call) :
    List.Forall₂ (Call.Record.Rel (fun _ _ => True) SameButData)
      (history calls (l.withImage image)) (history calls (l.withImage image')) :=
  simulation_sameButData.history calls ⟨rfl, rfl, rfl, hcapacity, rfl, rfl⟩

theorem data_stay_in_words_hasty :
    let image : Image := .erased 8
    let image' : Image := ⟨8, fun _ => 0⟩
    let calls : List Call := [.idle 5, .readWord 4, .readWord 4, .reset, .writeWord 0 1 0xF]
    image'.capacity = image.capacity ∧
      List.Forall₂ (Call.Record.Rel (fun _ _ => True) SameButData)
        (history calls (hastyErased.withImage image))
        (history calls (hastyErased.withImage image')) ∧
      (history calls (hastyErased.withImage image)).map (·.result.toOption) =
        [some .done, none, some (.word 0xFFFFFFFF), some .done, some .done] ∧
      (history calls (hastyErased.withImage image')).map (·.result.toOption) =
        [some .done, none, some (.word 0), some .done, some .done] := by
  intro image image' calls
  have hcapacity : image'.capacity = image.capacity := rfl
  refine ⟨hcapacity, data_stay_in_words hastyErased hcapacity calls, ?_, ?_⟩
  · decide +kernel
  · decide +kernel

end Link
end Flash
end WeightLink
