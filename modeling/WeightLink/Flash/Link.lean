/-
# The flash link

A link is an engine and a device on one system clock.  In a cycle the engine sees the
data line as the device left it in the cycle before, and the device sees the wires as
the engine drives them now (`Link.cycle`).  The counters of the link are kept cycle
by cycle.

On top of single cycles there are blocking calls: `readWord` and `writeWord` hold a
request until it is answered, for at most a budget of cycles.  Unless a budget is
configured it covers a whole wake handshake and a read, twice (`Config.budget`).
-/

import WeightLink.Action
import WeightLink.Flash.Device
import WeightLink.Flash.Engine
import WeightLink.Flash.Latency

namespace WeightLink
namespace Flash

namespace Link

/-- The settings of a link. -/
structure Config where
  engine : Engine.Config
  deviceBytes : Nat
  deviceRequiresWake : Bool
  /-- The budget of a blocking call in cycles; zero asks for the derived one. -/
  maxWaitCycles : Nat
  deriving DecidableEq, Repr

/-- The settings unless told otherwise. -/
def Config.default : Config := ⟨.default, Device.defaultCapacity, true, 0⟩

/-- The cycles of the frame of a command, in serial steps. -/
def commandSteps : Nat := 3 * frameBits

/-- The cycles of the data of a read, in serial steps. -/
def dataSteps : Nat := 2 * frameBits + 1

/-- The cycles that a blocking call may spend. -/
def Config.budget (cfg : Config) : Nat :=
  if 0 < cfg.maxWaitCycles then cfg.maxWaitCycles
  else
    let step := cfg.engine.divider.toNat + 1
    let wake :=
      if cfg.engine.wakeOnBoot then
        Opcode.wake.length * (commandSteps * step + cfg.engine.wakeDelay.toNat + 2)
      else 0
    let read := (commandSteps + dataSteps) * step + 2
    2 * (wake + read) + 64

/-- The counters of a link. -/
structure Stats where
  /-- Cycles. -/
  total : Nat
  /-- Cycles after which a frame was on the link. -/
  busy : Nat
  /-- Cycles in which a request was presented and not accepted. -/
  stall : Nat
  /-- Answered reads. -/
  reads : Nat
  /-- Accepted writes. -/
  writeAcks : Nat
  /-- Wake commands that were started. -/
  wakeCommands : Nat
  /-- The cycle in which the wake handshake was over, zero before that. -/
  wakeComplete : Nat
  /-- The latencies of the blocking reads that were answered. -/
  latency : Latency
  deriving DecidableEq, Repr

/-- The counters at the start. -/
def Stats.zero : Stats := ⟨0, 0, 0, 0, 0, 0, 0, .none⟩

end Link

/-- An engine and a device on one clock. -/
structure Link where
  config : Link.Config
  engine : Engine
  device : Device
  /-- The data line as the device left it. -/
  miso : Bool
  /-- Whether the end of the wake handshake was noticed. -/
  sawAwake : Bool
  stats : Link.Stats

namespace Link

/-- A link after power-on, with an erased device. -/
def create (cfg : Config) : Except Fault Link := do
  let device ← Device.create cfg.deviceBytes cfg.deviceRequiresWake
  let engine := Engine.powerOn cfg.engine
  return { config := cfg, engine, device, miso := true, sawAwake := engine.awake, stats := .zero }

/-- Powers engine and device off and on again.  The contents of the device survive, the
counters of the link do not. -/
def reset (l : Link) : Link :=
  let engine := Engine.powerOn l.config.engine
  { l with
    engine
    device := l.device.powerCycle
    miso := true
    sawAwake := engine.awake
    stats := .zero }

/-- The counters after a cycle in which `request` was presented, `out` was driven, and
the engine became `engine`. -/
def Stats.count (s : Stats) (request : Request) (out : Outputs) (engine : Engine)
    (sawAwake : Bool) : Stats :=
  let total := s.total + 1
  { s with
    total
    busy := s.busy + engine.busy.toNat
    stall := s.stall + (request.isPresent && !out.ready).toNat
    reads := s.reads + out.response.isSome.toNat
    writeAcks := s.writeAcks + (request.isWrite && out.ready).toNat
    wakeCommands := engine.wakeCommands
    wakeComplete := if !sawAwake && engine.awake then total else s.wakeComplete }

/-- One cycle with a request on the bus. -/
def cycle (request : Request) (l : Link) : Outputs × Link :=
  let (out, engine) := l.engine.tick l.config.engine request l.miso
  let device := l.device.eval out.pins
  (out,
    { l with
      engine
      device
      miso := device.miso
      sawAwake := l.sawAwake || engine.awake
      stats := l.stats.count request out engine l.sawAwake })

/-- What a step from one state to another has to report: the end of the wake handshake. -/
def notices (before after : Link) : List Event :=
  if !before.sawAwake && after.sawAwake then
    [.wakeComplete after.stats.wakeComplete after.stats.wakeCommands]
  else []

/-- Some cycles as an action, which reports the end of the wake handshake. -/
def observed {α : Type} (f : Link → α × Link) : Action Link α := fun l =>
  let (a, after) := f l
  ⟨.ok a, after, notices l after⟩

/-- One cycle with a request on the bus, as an action. -/
def step (request : Request) : Action Link Outputs := observed (cycle request)

/-- Some cycles without a request. -/
def idle : Nat → Link → Link
  | 0, l => l
  | n + 1, l => idle n (l.cycle .none).2

/-- Holds a request until the outputs of a cycle are an answer, for at most `n` cycles. -/
def hold {α : Type} (request : Request) (answer : Outputs → Option α) :
    Nat → Link → Option α × Link
  | 0, l => (none, l)
  | n + 1, l =>
    let (out, after) := l.cycle request
    match answer out with
    | some a => (some a, after)
    | none => hold request answer n after

/-- Reads the aligned word that holds a bus address. -/
def readWord (address : UInt32) : Action Link UInt32 := do
  let before ← Action.get
  match ← observed (hold (.read address) Outputs.response before.config.budget) with
  | some word =>
    Action.modify fun l =>
      let waited := l.stats.total - before.stats.total
      { l with stats := { l.stats with latency := l.stats.latency.add waited } }
    return word
  | none =>
    let l ← Action.get
    Action.fail (.readTimeout address (l.stats.total - before.stats.total) l.engine.phase)

/-- Writes a word, which the engine drops once it has accepted it. -/
def writeWord (address data : UInt32) (mask : UInt8) : Action Link Unit := do
  let before ← Action.get
  let accepted := fun (out : Outputs) => if out.ready then some () else none
  match ← observed (hold (.write address data mask) accepted before.config.budget) with
  | some () => return ()
  | none => Action.fail (.writeTimeout address)

/-- Runs a change of the device that may be refused. -/
def onDevice (f : Device → Except Fault Device) : Action Link Unit := do
  let l ← Action.get
  let device ← Action.check (f l.device)
  Action.modify fun l => { l with device }

end Link
end Flash
end WeightLink
