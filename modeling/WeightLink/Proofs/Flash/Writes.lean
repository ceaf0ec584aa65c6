/-
# Writes have no effect

The engine accepts a write when no frame is on the link, and drops it.  It looks at the request of
a cycle in one place only, the start of a read; there a write is like no request
(`Engine.next_write`).  So in a row of cycles any write may be replaced by another
one or left out: apart from the requests that are counted as accepted or stalled, everything stays
as it is (`Link.writes_ignored`).
-/

import Mathlib.Data.List.Forall2
import WeightLink.Proofs.Flash.Budget

namespace WeightLink
namespace Flash

/-- A request that may stand for another one if writes have no effect: the request itself, or for
a write any other write or none. -/
inductive Request.Replaces : Request → Request → Prop
  | same (request : Request) : Replaces request request
  | none (address data : UInt32) (mask : UInt8) : Replaces (.write address data mask) .none
  | write (address data : UInt32) (mask : UInt8) (address' data' : UInt32) (mask' : UInt8) :
      Replaces (.write address data mask) (.write address' data' mask')

/-! ### One cycle -/

namespace Engine

variable {cfg : Config} {e : Engine}

/-- With a write on the bus, the engine goes on as without a request. -/
theorem next_write (address data : UInt32) (mask : UInt8) (miso : Bool) :
    e.next cfg (.write address data mask) miso = e.next cfg .none miso := rfl

/-- The engine cannot tell a request from one that may stand for it. -/
theorem next_replaced {request request' : Request} (h : request.Replaces request') (miso : Bool) :
    e.next cfg request' miso = e.next cfg request miso := by
  cases h with
  | same => rfl
  | none address data mask => rw [next_write]
  | write address data mask address' data' mask' => rw [next_write, next_write]

/-- **A frame that starts with a write on the bus is the next command of the handshake.** -/
theorem started_with_write {address data : UInt32} {mask : UInt8} {miso : Bool}
    (hi : e.phase = .idle)
    (hstart : (e.next cfg (.write address data mask) miso).phase ≠ .idle) :
    (e.next cfg (.write address data mask) miso).waking = true ∧
      ∃ opcode ∈ Opcode.wake,
        (e.next cfg (.write address data mask) miso).shiftOut = (Frame.wake opcode).bits := by
  rw [next_idle _ miso hi] at hstart ⊢
  rcases (e.divide cfg).settled_or with hset | ⟨ha, hd | ⟨hd, opcode, ho⟩⟩
  · rw [idle_settled _ hset] at hstart
    exact absurd hi hstart
  · rw [idle_pause _ ha hd] at hstart
    exact absurd hi hstart
  · rw [idle_wake _ ha hd ho]
    exact ⟨rfl, opcode, (Opcode.of_wake_eq_some ho).2.1, rfl⟩

end Engine

namespace Link

/-- Cycles with some requests, one after the other: what is driven in each of them, and the link
after it. -/
def cycles : List Request → Link → List (Outputs × Link)
  | [], _ => []
  | request :: requests, l => l.cycle request :: cycles requests (l.cycle request).2

/-- The links are the same apart from how many requests were stalled and how many writes were
accepted. -/
def SameButCounts (l l' : Link) : Prop :=
  ∃ stall writeAcks, l' = { l with stats := { l.stats with stall, writeAcks } }

/-- The wires and the answers are the same in two cycles, and the links after them are the same
apart from the requests that are counted. -/
structure SameCycle (now now' : Outputs × Link) : Prop where
  pins_eq : now'.1.pins = now.1.pins
  response_eq : now'.1.response = now.1.response
  link : SameButCounts now.2 now'.2

variable {l l' : Link}

/-- **A write in a cycle may be replaced or left out.** -/
theorem SameButCounts.cycle (h : SameButCounts l l') {request request' : Request}
    (hr : request.Replaces request') : SameCycle (l.cycle request) (l'.cycle request') := by
  obtain ⟨stall, writeAcks, rfl⟩ := h
  have hnext : l.engine.next l.config.engine request' l.miso =
      l.engine.next l.config.engine request l.miso := Engine.next_replaced hr l.miso
  refine ⟨congrArg Engine.pins hnext, rfl,
    stall + (request'.isPresent && !l.engine.ready request').toNat,
    writeAcks + (request'.isWrite && l.engine.ready request').toNat, ?_⟩
  simp only [Link.cycle, Engine.tick, hnext]
  rfl

theorem SameButCounts.cycles (h : SameButCounts l l') {requests requests' : List Request}
    (hr : List.Forall₂ Request.Replaces requests requests') :
    List.Forall₂ SameCycle (cycles requests l) (cycles requests' l') := by
  induction hr generalizing l l' with
  | nil => exact .nil
  | cons hnow _ ih =>
    have hcycle := h.cycle hnow
    exact .cons hcycle (ih hcycle.link)

/-- No cycle changes the contents of the device. -/
theorem image_cycles (requests : List Request) (l : Link) :
    ∀ now ∈ cycles requests l, now.2.device.image = l.device.image := by
  induction requests generalizing l with
  | nil => exact fun _ h => absurd h List.not_mem_nil
  | cons request requests ih =>
    intro now hnow
    have himage : (l.cycle request).2.device.image = l.device.image := Device.image_eval _ _
    rcases List.mem_cons.1 hnow with rfl | hrest
    · exact himage
    · exact (ih _ now hrest).trans himage

/-- **Writes have no effect.**  Two runs from the same state, in one of which some writes are
replaced by other writes or left out, are the same cycle by cycle: the wires, the answers, the
engine, the device and its contents, and all counters but those of stalled requests and accepted
writes.  No run changes the contents.  A frame that starts with a write on the bus is the next
command of the handshake, which starts without it as well. -/
theorem writes_ignored (l : Link) {requests requests' : List Request}
    (hr : List.Forall₂ Request.Replaces requests requests') :
    List.Forall₂ SameCycle (cycles requests l) (cycles requests' l) ∧
      (∀ now ∈ cycles requests l, now.2.device.image = l.device.image) ∧
      ∀ (l : Link) (address data : UInt32) (mask : UInt8),
        let after := (l.cycle (.write address data mask)).2
        after.engine = (l.cycle .none).2.engine ∧
          (l.engine.phase = .idle → after.engine.phase ≠ .idle →
            after.engine.waking = true ∧
              ∃ opcode ∈ Opcode.wake, after.engine.shiftOut = (Frame.wake opcode).bits) := by
  have hsame : SameButCounts l l := ⟨l.stats.stall, l.stats.writeAcks, rfl⟩
  exact ⟨hsame.cycles hr, image_cycles requests l, fun l address data mask =>
    ⟨Engine.next_write address data mask l.miso, Engine.started_with_write⟩⟩

/-- A write in the cycle that starts a frame, two more on the frame, and a read behind them. -/
theorem writes_ignored_starting :
    let requests : List Request := [.write 0 1 0xF, .write 0 2 0xF, .write 0 3 0xF, .read 0]
    let requests' : List Request := [.none, .write 8 4 1, .none, .read 0]
    List.Forall₂ Request.Replaces requests requests' ∧
      List.Forall₂ SameCycle (cycles requests slowErased) (cycles requests' slowErased) ∧
      (cycles requests slowErased).map (·.2.stats.writeAcks) = [1, 1, 1, 1] ∧
      (cycles requests' slowErased).map (·.2.stats.writeAcks) = [0, 0, 0, 0] ∧
      (cycles requests slowErased).map (·.2.stats.wakeCommands) = [1, 1, 1, 1] := by
  intro requests requests'
  have hr : List.Forall₂ Request.Replaces requests requests' :=
    .cons (.none 0 1 0xF) (.cons (.write 0 2 0xF 8 4 1) (.cons (.none 0 3 0xF)
      (.cons (.same (.read 0)) .nil)))
  exact ⟨hr, (writes_ignored slowErased hr).1, by decide +kernel, by decide +kernel,
    by decide +kernel⟩

end Link
end Flash
end WeightLink
