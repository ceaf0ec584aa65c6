/-
# What the device makes of any wires

The wires of a device may do anything: the select line may change together with the clock, a
transaction may end in the middle of a frame or go on behind it.  All that the device does can
nevertheless be read off the wires as a whole.

Every cycle is a sample of the wires, with the level of the clock in the cycle before, and the
cycles with the select line high part the samples into segments (`PinTrace.segments`).  A segment
with 32 rising edges holds a frame, which the first 32 of them spell (`Segment.frame`).  The device
has executed these frames, in order (`PinTrace.frames`); the last segment, which is still going on,
says what it is about to do (`Segment.stage`) and what it shows (`Device.shows`).

For a device that was just powered up all of this is `Device.traces_decoded`.
-/

import Mathlib.Data.List.Induction
import WeightLink.Proofs.Flash.Execution

namespace WeightLink
namespace Flash

/-! ### Segments -/

/-- The wires in a cycle, and the level of the clock in the cycle before. -/
structure Sample where
  pins : Pins
  before : Bool
  deriving DecidableEq, Repr

namespace Sample

/-- A rising edge of the clock. -/
def rises (s : Sample) : Bool := s.pins.sclk && !s.before

/-- A falling edge of the clock. -/
def falls (s : Sample) : Bool := !s.pins.sclk && s.before

end Sample

/-- Cycles in a row in which the device is selected. -/
abbrev Segment := List Sample

namespace Segment

/-- The bits that are on the wire to the device at the rising edges. -/
def bits (seg : Segment) : List Bool := (seg.filter Sample.rises).map fun s => s.pins.mosi

/-- A word by its bits, the most significant one first. -/
def word (bits : List Bool) : BitVec 32 := (BitVec.ofBoolListBE bits).setWidth 32

/-- The frame that a segment spells if it has enough rising edges. -/
def frame (seg : Segment) : Option Frame :=
  if frameBits ≤ (bits seg).length then some (Frame.ofBits (word ((bits seg).take frameBits)))
  else none

/-- What comes behind the `n`-th rising edge. -/
def behind : Nat → Segment → Segment
  | 0, seg => seg
  | _ + 1, [] => []
  | n + 1, s :: seg => if s.rises then behind n seg else behind (n + 1) seg

/-- The falling edges behind the frame. -/
def dataEdges (seg : Segment) : Nat := (behind frameBits seg).countP Sample.falls

/-- Where the device is in the transaction of a segment. -/
def stage (seg : Segment) : Device.Transaction :=
  match frame seg with
  | none => .command (word (bits seg)) (bits seg).length
  | some f => if f.opcode = Opcode.read then .after f.payload (dataEdges seg) else .ignoring

variable {seg : Segment} {s : Sample} {f : Frame}

theorem bits_concat (seg : Segment) (s : Sample) :
    bits (seg ++ [s]) = bits seg ++ if s.rises then [s.pins.mosi] else [] := by
  unfold bits
  cases hs : s.rises <;> simp [hs]

/-- One more bit is shifted in. -/
theorem word_concat (bs : List Bool) (b : Bool) :
    word (bs ++ [b]) = (word bs).shiftConcat b := by
  apply BitVec.eq_of_getLsbD_eq
  intro i hi
  unfold word
  simp only [BitVec.getLsbD_shiftConcat, BitVec.getLsbD_setWidth, BitVec.getLsbD_ofBoolListBE]
  cases i with
  | zero => simp
  | succ i =>
    simp only [hi, Nat.lt_of_succ_lt hi, decide_true, Bool.true_and, Nat.succ_ne_zero, if_false,
      Nat.add_sub_cancel, List.length_append, List.length_singleton, Nat.add_lt_add_iff_right]
    by_cases h : i < bs.length
    · rw [List.getD_eq_getElem?_getD, List.getD_eq_getElem?_getD,
        List.getElem?_append_left (by omega), Nat.sub_sub, Nat.add_comm 1 i]
    · simp [h]

theorem frame_eq_none_iff : frame seg = none ↔ (bits seg).length < frameBits := by
  unfold frame
  split <;> simp <;> omega

/-- Rising edges behind a frame have no effect. -/
theorem frame_concat_of_eq_some (h : frame seg = some f) (s : Sample) :
    frame (seg ++ [s]) = some f := by
  unfold frame at h ⊢
  split at h
  · rename_i hlen
    rw [bits_concat, List.take_append_of_le_length hlen, if_pos, h]
    rw [List.length_append]
    omega
  · exact nomatch h

theorem frame_concat_of_not_rises (h : s.rises = false) : frame (seg ++ [s]) = frame seg := by
  unfold frame
  simp [bits_concat, h]

/-- The rising edge number 32 completes the frame. -/
theorem frame_concat_of_rises (hnone : frame seg = none) (h : s.rises = true) :
    frame (seg ++ [s]) =
      if (bits seg).length + 1 = frameBits then
        some (Frame.ofBits ((word (bits seg)).shiftConcat s.pins.mosi))
      else none := by
  have hlen := frame_eq_none_iff.1 hnone
  have hbits : bits (seg ++ [s]) = bits seg ++ [s.pins.mosi] := by rw [bits_concat, h]; rfl
  unfold frame
  rw [hbits, List.length_append, List.length_singleton]
  by_cases hlast : (bits seg).length + 1 = frameBits
  · rw [if_pos hlast, if_pos (Nat.le_of_eq hlast.symm), List.take_of_length_le, word_concat]
    simp [hlast]
  · rw [if_neg hlast, if_neg (by omega)]

@[simp] theorem behind_nil (n : Nat) : behind n [] = [] := by
  cases n <;> rfl

/-- Cycle after cycle is behind an edge once the edge was there. -/
theorem behind_concat (n : Nat) (seg : Segment) (s : Sample) :
    behind n (seg ++ [s]) = if n ≤ (bits seg).length then behind n seg ++ [s] else [] := by
  induction seg generalizing n with
  | nil => cases n <;> simp [behind, bits]
  | cons t seg ih =>
    cases n with
    | zero => simp [behind]
    | succ n =>
      have hbits : bits (t :: seg) = (if t.rises then [t.pins.mosi] else []) ++ bits seg := by
        unfold bits
        cases ht : t.rises <;> simp [ht]
      cases ht : t.rises with
      | true => simp [behind, hbits, ht, ih]
      | false => simp [behind, hbits, ht, ih]

theorem dataEdges_concat_of_eq_none (h : frame seg = none) (s : Sample) :
    dataEdges (seg ++ [s]) = 0 := by
  rw [dataEdges, behind_concat, if_neg (Nat.not_le.2 (frame_eq_none_iff.1 h))]
  rfl

theorem dataEdges_concat_of_eq_some (h : frame seg = some f) (s : Sample) :
    dataEdges (seg ++ [s]) = dataEdges seg + if s.falls then 1 else 0 := by
  have hlen : frameBits ≤ (bits seg).length := by
    refine Nat.not_lt.1 fun hlt => ?_
    rw [frame_eq_none_iff.2 hlt] at h
    exact nomatch h
  rw [dataEdges, behind_concat, if_pos hlen, List.countP_append, List.countP_singleton]
  rfl

theorem stage_of_eq_none (h : frame seg = none) :
    stage seg = .command (word (bits seg)) (bits seg).length := by
  rw [stage, h]

theorem stage_of_read (h : frame seg = some f) (hread : f.opcode = Opcode.read) :
    stage seg = .after f.payload (dataEdges seg) := by
  simp [stage, h, hread]

theorem stage_of_other (h : frame seg = some f) (hother : f.opcode ≠ Opcode.read) :
    stage seg = .ignoring := by
  simp [stage, h, hother]

end Segment

/-! ### Traces -/

namespace PinTrace

variable {ps : List Pins} {p : Pins}

/-- The level of the clock in the last cycle of a trace, low before the first one. -/
def level (ps : List Pins) : Bool := (ps.map Pins.sclk).getLastD false

/-- The cycles of a trace, each with the level of the clock in the cycle before. -/
def samples (ps : List Pins) : List Sample :=
  List.zipWith Sample.mk ps (false :: ps.map Pins.sclk)

/-- The segments of a trace, parted by the cycles with the select line high. -/
def segments (ps : List Pins) : List Segment := (samples ps).splitOnP fun s => s.pins.csN

/-- The segment that a trace ends in. -/
def current (ps : List Pins) : Segment := (segments ps).getLastD []

/-- The frames that a trace holds, in order. -/
def frames (ps : List Pins) : List Frame := (segments ps).filterMap Segment.frame

/-- How many frames are resets right behind a frame that allows them. -/
def resets (fs : List Frame) : Nat :=
  (fs.zip fs.tail).countP fun (f, g) => f.opcode = Opcode.resetEnable ∧ g.opcode = Opcode.reset

/-- The frame that one more cycle completes. -/
def completed (ps : List Pins) (p : Pins) : Option Frame :=
  if p.csN then none
  else
    match Segment.frame (current ps) with
    | none => Segment.frame (current ps ++ [⟨p, level ps⟩])
    | some _ => none

theorem zipWith_concat (ps : List Pins) (p : Pins) (first : Bool) :
    List.zipWith Sample.mk (ps ++ [p]) (first :: (ps ++ [p]).map Pins.sclk) =
      List.zipWith Sample.mk ps (first :: ps.map Pins.sclk) ++
        [⟨p, (ps.map Pins.sclk).getLastD first⟩] := by
  induction ps generalizing first with
  | nil => rfl
  | cons q ps ih =>
    rw [List.map_cons, List.getLastD_cons]
    exact congrArg (⟨q, first⟩ :: ·) (ih q.sclk)

theorem samples_concat (ps : List Pins) (p : Pins) :
    samples (ps ++ [p]) = samples ps ++ [⟨p, level ps⟩] := zipWith_concat ps p false

theorem level_concat (ps : List Pins) (p : Pins) : level (ps ++ [p]) = p.sclk := by
  rw [level, List.map_append, List.map_singleton, List.getLastD_concat]

/-- What is not a separator goes on with the last part. -/
theorem splitOnP_concat {α : Type} {sep : α → Bool} {x : α} (h : sep x = false) (xs : List α) :
    (xs ++ [x]).splitOnP sep =
      (xs.splitOnP sep).dropLast ++ [(xs.splitOnP sep).getLastD [] ++ [x]] := by
  induction xs with
  | nil => simp [List.splitOnP_cons_eq_if_modifyHead, h]
  | cons y xs ih =>
    rw [List.cons_append, List.splitOnP_cons_eq_if_modifyHead,
      List.splitOnP_cons_eq_if_modifyHead, ih]
    obtain ⟨part, parts, hparts⟩ := List.exists_cons_of_ne_nil (List.splitOnP_ne_nil sep xs)
    rw [hparts]
    cases hy : sep y <;> cases parts <;> simp

theorem segments_eq (ps : List Pins) : segments ps = (segments ps).dropLast ++ [current ps] := by
  have hne : segments ps ≠ [] := List.splitOnP_ne_nil _ _
  rw [current, List.getLastD_eq_getLast?, List.getLast?_eq_some_getLast hne]
  exact (List.dropLast_concat_getLast hne).symm

theorem segments_concat_high (h : p.csN = true) : segments (ps ++ [p]) = segments ps ++ [[]] := by
  rw [segments, samples_concat, List.splitOnP_append_cons _ _ (by exact h)]
  rfl

theorem segments_concat_low (h : p.csN = false) :
    segments (ps ++ [p]) = (segments ps).dropLast ++ [current ps ++ [⟨p, level ps⟩]] := by
  rw [segments, samples_concat, splitOnP_concat (by exact h)]
  rfl

theorem current_concat (ps : List Pins) (p : Pins) :
    current (ps ++ [p]) = if p.csN then [] else current ps ++ [⟨p, level ps⟩] := by
  cases h : p.csN with
  | true => rw [current, segments_concat_high h, List.getLastD_concat]; rfl
  | false => rw [current, segments_concat_low h, List.getLastD_concat]; rfl

theorem frames_eq (ps : List Pins) : frames ps =
    (segments ps).dropLast.filterMap Segment.frame ++ (Segment.frame (current ps)).toList := by
  rw [frames, segments_eq ps, List.filterMap_append, List.dropLast_concat]
  cases h : Segment.frame (current ps) <;> simp [h]

/-- **One cycle more is one frame more at most.** -/
theorem frames_concat (ps : List Pins) (p : Pins) :
    frames (ps ++ [p]) = frames ps ++ (completed ps p).toList := by
  cases h : p.csN with
  | true =>
    rw [frames, segments_concat_high h, List.filterMap_append, completed, if_pos h]
    rfl
  | false =>
    rw [frames_eq (ps ++ [p]), frames_eq ps, segments_concat_low h, List.dropLast_concat,
      current_concat, completed, List.append_assoc]
    congr 1
    cases hf : Segment.frame (current ps) with
    | none => simp [h]
    | some f => simp [h, Segment.frame_concat_of_eq_some hf]

/-- One more frame may be a reset that the last one allows. -/
theorem resets_concat (fs : List Frame) (f : Frame) :
    resets (fs ++ [f]) = resets fs +
      if fs.getLast?.any (·.opcode = Opcode.resetEnable) && f.opcode = Opcode.reset then 1
      else 0 := by
  induction fs with
  | nil => rfl
  | cons g fs ih =>
    cases fs with
    | nil => simp [resets, List.countP_cons]
    | cons g' fs =>
      simp only [resets, List.cons_append, List.tail_cons, List.zip_cons_cons, List.countP_cons,
        List.getLast?_cons_cons] at ih ⊢
      rw [ih, Nat.add_right_comm]

end PinTrace

/-! ### The device -/

namespace Device

variable {d : Device} {seg : Segment} {s : Sample} {fs : List Frame}

/-- The level of the data line at the end of a segment: the data bit of the last falling edge
behind a read frame, else high. -/
def shows (d : Device) (seg : Segment) : Bool :=
  match seg.frame with
  | none => true
  | some f =>
    if f.opcode = Opcode.read ∧ seg.dataEdges ≠ 0 then d.dataBit f.payload (seg.dataEdges - 1)
    else true

/-- The device is where the wires have taken it. -/
structure At (d : Device) (level : Bool) (seg : Segment) : Prop where
  sclk_eq : d.sclk = level
  transaction_eq : d.transaction = seg.stage
  miso_eq : d.miso = d.shows seg

/-- The device has executed some frames. -/
structure Ran (d : Device) (fs : List Frame) : Prop where
  seen_eq : d.seen = fs.length
  log_eq : d.log.toList = fs.take d.logLimit
  awake_eq : d.awake = (!d.requiresWake || fs.any (·.opcode = Opcode.release))
  armed_eq : d.resetArmed = fs.getLast?.any (·.opcode = Opcode.resetEnable)
  resets_eq : d.resets = PinTrace.resets fs

theorem shows_concat_of_eq_none (h : seg.frame = none) (s : Sample) (d : Device) :
    d.shows (seg ++ [s]) = true := by
  unfold shows
  split
  · rfl
  · exact if_neg fun hread => hread.2 (Segment.dataEdges_concat_of_eq_none h s)

/-- Without an edge that the transaction waits for, a cycle leaves all but the clock level. -/
theorem eval_command_quiet {pins : Pins} (hc : pins.csN = false) {shift : BitVec 32} {bits : Nat}
    (ht : d.transaction = .command shift bits) (hr : (pins.sclk && !d.sclk) = false) :
    d.eval pins = { d with sclk := pins.sclk } := by
  simp [eval, hc, hr, fall, ht]

theorem eval_after_quiet {pins : Pins} (hc : pins.csN = false) {address : BitVec 24} {n : Nat}
    (ht : d.transaction = .after address n) (hf : (!pins.sclk && d.sclk) = false) :
    d.eval pins = { d with sclk := pins.sclk } := by
  simp [eval, hc, hf, rise, ht, Transaction.after]

theorem eval_ignoring {pins : Pins} (hc : pins.csN = false) (ht : d.transaction = .ignoring) :
    d.eval pins = { d with sclk := pins.sclk } := by
  simp [eval, hc, rise, fall, ht]

theorem executed_of_csN {pins : Pins} (h : pins.csN = true) (d : Device) :
    d.executed pins = none := by
  grind [executed]

theorem At.high {pins : Pins} (h : pins.csN = true) (d : Device) :
    (d.eval pins).At pins.sclk [] := by
  rw [eval_of_csN h]
  exact ⟨rfl, rfl, rfl⟩

/-- The frame that a cycle makes the device execute is the one that it completes. -/
theorem At.executed_eq (h : d.At s.before seg) (hc : s.pins.csN = false) :
    d.executed s.pins =
      match seg.frame with
      | none => Segment.frame (seg ++ [s])
      | some _ => none := by
  have ht := h.transaction_eq
  cases hf : seg.frame with
  | some f =>
    by_cases hread : f.opcode = Opcode.read
    · rw [Segment.stage_of_read hf hread] at ht
      simp [executed, ht, Transaction.after]
    · rw [Segment.stage_of_other hf hread] at ht
      simp [executed, ht]
  | none =>
    rw [Segment.stage_of_eq_none hf] at ht
    have hedge : (s.pins.sclk && !d.sclk) = s.rises := by rw [h.sclk_eq]; rfl
    cases hr : s.rises with
    | true => simp [executed, ht, hc, hedge, hr, Segment.frame_concat_of_rises hf hr]
    | false => simp [executed, ht, hc, hedge, hr, Segment.frame_concat_of_not_rises hr, hf]

theorem shows_of_read {f : Frame} (h : seg.frame = some f) (hread : f.opcode = Opcode.read)
    (d : Device) : d.shows seg =
      if seg.dataEdges = 0 then true else d.dataBit f.payload (seg.dataEdges - 1) := by
  simp only [shows, h, hread, true_and, ite_not]

theorem shows_of_other {f : Frame} (h : seg.frame = some f) (hother : f.opcode ≠ Opcode.read)
    (d : Device) : d.shows seg = true := by
  simp only [shows, h, hother, false_and, if_false]

theorem shows_of_eq_none (h : seg.frame = none) (d : Device) : d.shows seg = true := by
  simp only [shows, h]

/-- As long as there is no frame, a cycle takes a bit of it or nothing. -/
theorem At.low_command (h : d.At s.before seg) (hc : s.pins.csN = false)
    (hf : seg.frame = none) : (d.eval s.pins).At s.pins.sclk (seg ++ [s]) := by
  have ht := h.transaction_eq
  rw [Segment.stage_of_eq_none hf] at ht
  have hm : d.miso = true := h.miso_eq.trans (shows_of_eq_none hf d)
  have hshows := shows_concat_of_eq_none hf s
  have hedge : (s.pins.sclk && !d.sclk) = s.rises := by rw [h.sclk_eq]; rfl
  cases hr : s.rises with
  | false =>
    have hnone := (Segment.frame_concat_of_not_rises hr).trans hf
    rw [eval_command_quiet hc ht (hedge.trans hr)]
    refine ⟨rfl, ?_, hm.trans (hshows _).symm⟩
    rw [Segment.stage_of_eq_none hnone, Segment.bits_concat, hr]
    simpa using ht
  | true =>
    obtain ⟨hp, hs⟩ : s.pins.sclk = true ∧ d.sclk = false := by simpa [hr] using hedge
    have hframe := Segment.frame_concat_of_rises hf hr
    by_cases hlast : seg.bits.length + 1 = frameBits
    · obtain hlen : seg.bits.length = 31 := Nat.succ.inj hlast
      rw [if_pos hlast] at hframe
      rw [hlen] at ht
      rw [eval_rise_frame hc hp hs ht]
      refine ⟨(sclk_execute _ _).trans hp.symm, ?_, ?_⟩
      · rw [transaction_execute, Segment.stage, hframe]
        simp only [Segment.dataEdges_concat_of_eq_none hf]
      · exact (miso_execute _ _).trans (hm.trans (hshows _).symm)
    · rw [if_neg hlast] at hframe
      rw [eval_rise_command hc hp hs ht fun hlen => hlast (congrArg Nat.succ hlen)]
      refine ⟨hp.symm, ?_, hm.trans (hshows _).symm⟩
      rw [Segment.stage_of_eq_none hframe, Segment.bits_concat, hr]
      simp [Segment.word_concat]

/-- Behind a read frame, a falling edge puts out the next data bit. -/
theorem At.low_read (h : d.At s.before seg) (hc : s.pins.csN = false) {f : Frame}
    (hf : seg.frame = some f) (hread : f.opcode = Opcode.read) :
    (d.eval s.pins).At s.pins.sclk (seg ++ [s]) := by
  have ht := h.transaction_eq
  rw [Segment.stage_of_read hf hread] at ht
  have hf' := Segment.frame_concat_of_eq_some hf s
  have hedges := Segment.dataEdges_concat_of_eq_some hf s
  have hedge : (!s.pins.sclk && d.sclk) = s.falls := by rw [h.sclk_eq]; rfl
  cases hr : s.falls with
  | false =>
    rw [hr] at hedges
    rw [eval_after_quiet hc ht (hedge.trans hr)]
    refine ⟨rfl, ?_, ?_⟩
    · rw [Segment.stage_of_read hf' hread, hedges]
      exact ht
    · rw [shows_of_read hf' hread, hedges]
      exact h.miso_eq.trans (shows_of_read hf hread d)
  | true =>
    obtain ⟨hp, hs⟩ : s.pins.sclk = false ∧ d.sclk = true := by simpa [hr] using hedge
    rw [hr] at hedges
    rw [eval_fall_after hc hp hs ht]
    refine ⟨hp.symm, ?_, ?_⟩
    · rw [Segment.stage_of_read hf' hread, hedges]
      rfl
    · rw [shows_of_read hf' hread, hedges]
      rfl

/-- **A cycle takes the device on** in a segment. -/
theorem At.low (h : d.At s.before seg) (hc : s.pins.csN = false) :
    (d.eval s.pins).At s.pins.sclk (seg ++ [s]) := by
  cases hf : seg.frame with
  | none => exact h.low_command hc hf
  | some f =>
    by_cases hread : f.opcode = Opcode.read
    · exact h.low_read hc hf hread
    · have ht := h.transaction_eq
      rw [Segment.stage_of_other hf hread] at ht
      have hf' := Segment.frame_concat_of_eq_some hf s
      rw [eval_ignoring hc ht]
      refine ⟨rfl, ht.trans (Segment.stage_of_other hf' hread).symm, ?_⟩
      rw [shows_of_other hf' hread]
      exact h.miso_eq.trans (shows_of_other hf hread d)

/-- **A frame more** is counted, logged if there is room, and obeyed. -/
theorem Ran.execute (h : d.Ran fs) (f : Frame) : (d.execute f).Ran (fs ++ [f]) where
  seen_eq := by rw [seen_execute, h.seen_eq, List.length_append, List.length_singleton]
  log_eq := by
    have hsize := congrArg List.length h.log_eq
    rw [Array.length_toList, List.length_take] at hsize
    rw [log_execute, logLimit_execute]
    by_cases hroom : d.log.size < d.logLimit
    · rw [if_pos hroom, Array.toList_push, h.log_eq, List.take_of_length_le (by omega),
        List.take_of_length_le (by simp; omega)]
    · rw [if_neg hroom, h.log_eq, List.take_append_of_le_length (by omega)]
  awake_eq := by
    rw [awake_execute, requiresWake_execute, h.awake_eq, List.any_append, Bool.or_assoc]
    simp
  armed_eq := by
    rw [resetArmed_execute, List.getLast?_concat]
    rfl
  resets_eq := by rw [resets_execute, PinTrace.resets_concat, h.resets_eq, h.armed_eq]

/-- **A cycle more** runs the frame that it completes. -/
theorem Ran.next (h : d.Ran fs) (pins : Pins) :
    (d.eval pins).Ran (fs ++ (d.executed pins).toList) := by
  cases hx : d.executed pins with
  | some f =>
    rw [eval_of_executed hx]
    exact Ran.execute (d := { d with sclk := true }) ⟨h.1, h.2, h.3, h.4, h.5⟩ f
  | none =>
    obtain ⟨hlog, hseen, hawake, harmed, hresets⟩ := eval_of_executed_eq_none hx
    rw [Option.toList_none, List.append_nil]
    refine ⟨hseen.trans h.seen_eq, ?_, ?_, harmed.trans h.armed_eq, hresets.trans h.resets_eq⟩
    · rw [hlog, logLimit_eval, h.log_eq]
    · rw [hawake, requiresWake_eval, h.awake_eq]

/-- **The wires say what the device does**, from any state in which it has not done anything. -/
theorem decoded (hat : d.At false []) (hran : d.Ran []) (ps : List Pins) :
    (ps.foldl eval d).At (PinTrace.level ps) (PinTrace.current ps) ∧
      (ps.foldl eval d).Ran (PinTrace.frames ps) := by
  induction ps using List.reverseRecOn with
  | nil => exact ⟨hat, hran⟩
  | append_singleton ps p ih =>
    obtain ⟨hat, hran⟩ := ih
    rw [List.foldl_append, List.foldl_cons, List.foldl_nil, PinTrace.level_concat,
      PinTrace.current_concat, PinTrace.frames_concat]
    have hnext := hran.next p
    cases hc : p.csN with
    | true =>
      rw [executed_of_csN hc] at hnext
      rw [PinTrace.completed, hc]
      exact ⟨.high hc _, hnext⟩
    | false =>
      have hexecuted := At.executed_eq (s := ⟨p, PinTrace.level ps⟩) hat hc
      rw [hexecuted] at hnext
      rw [PinTrace.completed, hc]
      exact ⟨At.low (s := ⟨p, PinTrace.level ps⟩) hat hc, hnext⟩

/-- What no cycle changes. -/
theorem kept (ps : List Pins) (d : Device) :
    (ps.foldl eval d).image = d.image ∧ (ps.foldl eval d).requiresWake = d.requiresWake ∧
      (ps.foldl eval d).logLimit = d.logLimit := by
  induction ps generalizing d with
  | nil => exact ⟨rfl, rfl, rfl⟩
  | cons p ps ih =>
    obtain ⟨himage, hrequires, hlimit⟩ := ih (d.eval p)
    exact ⟨himage.trans (image_eval d p), hrequires.trans (requiresWake_eval d p),
      hlimit.trans (logLimit_eval d p)⟩

/-- A data bit by the place of its byte, and its place in the byte. -/
theorem dataBit_eq_testBit (d : Device) (address : BitVec 24) (n : Nat) : d.dataBit address n =
    if d.requiresWake && !d.awake then true
    else (d.image.byte ((address.toNat + n / 8) % 2 ^ 24)).toNat.testBit (7 - n % 8) := by
  have hbit : n % 8 < 8 := Nat.mod_lt n (by decide)
  have hplace : ∀ b : UInt8, b.toBitVec.getMsbD (n % 8) = b.toNat.testBit (7 - n % 8) := by
    intro b
    rw [BitVec.getMsbD, decide_eq_true hbit]
    rfl
  have hset : ∀ k < 8, Image.erasedByte.toNat.testBit k = true := by decide
  rw [dataBit, hplace, dataByte]
  split
  · exact hset _ (by omega)
  · rw [BitVec.toNat_add, BitVec.toNat_ofNat, Nat.add_mod_mod]

/-- **What a device makes of any wires.**  From power-on onwards, whatever is in it and whatever its
wires do, it has counted the frames that are spelled by the first 32 rising edges of the segments of
the trace, and logged them as far as the log reaches.  This holds after every cycle, so a frame is
executed in the cycle of its last edge.  The device is awake if it does not need a release or has
got one, and has carried out the resets that come right behind a frame that allows them.  Its data
line shows the bit of the last falling edge behind a read frame, or a set bit while the device is
asleep, and is high before the first such edge, outside of reads and outside of transactions. -/
theorem traces_decoded {capacity : Nat} (hpos : 0 < capacity) (hmax : capacity ≤ maxCapacity)
    (requiresWake : Bool) (cell : Nat → UInt8) (generation limit : Nat) :
    ∃ d, create capacity requiresWake = .ok d ∧ ∀ ps : List Pins,
      let after :=
        ps.foldl eval { d with image := ⟨capacity, cell⟩, generation, logLimit := limit }
      let executed := PinTrace.frames ps
      let current := PinTrace.current ps
      after.seen = executed.length ∧ after.log.toList = executed.take limit ∧
      (after.awake = true ↔ requiresWake = false ∨ ∃ f ∈ executed, f.opcode = Opcode.release) ∧
      after.resets = PinTrace.resets executed ∧
      (∀ f j, current.frame = some f → f.opcode = Opcode.read → current.dataEdges = j + 1 →
        after.miso =
          if after.awake then
            (cell ((f.payload.toNat + j / 8) % 2 ^ 24 % capacity)).toNat.testBit (7 - j % 8)
          else true) ∧
      ((∀ f, current.frame = some f → f.opcode = Opcode.read → current.dataEdges = 0) →
        after.miso = true) := by
  have hcapacity : ¬(capacity = 0 ∨ maxCapacity < capacity) := by omega
  refine ⟨_, if_neg hcapacity, fun ps => ?_⟩
  intro after executed current
  obtain ⟨himage, hrequires, hlimit⟩ := kept ps _
  change after.image = _ at himage
  change after.requiresWake = requiresWake at hrequires
  change after.logLimit = limit at hlimit
  obtain ⟨hat, hran⟩ : after.At (PinTrace.level ps) current ∧ after.Ran executed :=
    decoded ⟨rfl, rfl, rfl⟩ ⟨rfl, by simp, by simp, rfl, rfl⟩ ps
  have hawake := hran.awake_eq
  rw [hrequires] at hawake
  have hmiso := hat.miso_eq
  refine ⟨hran.seen_eq, hlimit ▸ hran.log_eq, ?_, hran.resets_eq, fun f j hf hread hj => ?_,
    fun hquiet => ?_⟩
  · rw [hawake]
    simp
  · rw [hmiso, shows_of_read hf hread, hj, if_neg (Nat.succ_ne_zero j), Nat.add_sub_cancel,
      dataBit_eq_testBit, himage, hrequires, Image.byte]
    -- A device that does not require a wake is never asleep.
    have hasleep : (requiresWake && !after.awake) = !after.awake := by
      rw [hawake]
      cases requiresWake <;> rfl
    rw [hasleep]
    cases after.awake <;> rfl
  · rw [hmiso, shows]
    split
    · rfl
    · rename_i f hf
      exact if_neg fun hread => hread.2 (hquiet f hf hread.1)

/-- Bits on the wire, each around a rising edge. -/
def clocked (bits : List Bool) : List Pins :=
  bits.flatMap fun b => [⟨false, false, b⟩, ⟨false, true, b⟩]

/-- The bits of a frame, and more of them behind it. -/
def overlong (f : Frame) (more : Nat) : List Pins :=
  clocked ((List.range (32 + more)).map fun i => f.bits.getMsbD i)

/-- The wake handshake with edges behind its frames, parted by a select line that rises while the
clock is high and falls together with it, an aborted frame, and ten data bits of a read. -/
def handshakeTrace : List Pins :=
  Opcode.wake.flatMap (fun opcode => overlong (.wake opcode) 3 ++ [⟨true, true, true⟩]) ++
    clocked (List.replicate 31 true) ++ [⟨true, false, false⟩] ++ overlong (.read 1) 9 ++
    [⟨false, false, false⟩]

theorem traces_decoded_handshake : ∃ d, create 2 true = .ok d ∧
    let after := handshakeTrace.foldl eval
      { d with image := ⟨2, fun a => if a = 0 then 0xBF else 0xFF⟩, generation := 2, logLimit := 2 }
    after.seen = 4 ∧
    after.log.toList = [Frame.wake Opcode.resetEnable, Frame.wake Opcode.reset] ∧
    after.awake = true ∧ after.resets = 1 ∧ after.miso = false := by
  have hframes : PinTrace.frames handshakeTrace = Opcode.wake.map Frame.wake ++ [Frame.read 1] := by
    decide +kernel
  have hcurrent : (PinTrace.current handshakeTrace).frame = some (Frame.read 1) := by decide +kernel
  have hedges : (PinTrace.current handshakeTrace).dataEdges = 9 + 1 := by decide +kernel
  obtain ⟨d, hd, htraces⟩ := traces_decoded (show 0 < 2 by decide) (by decide) true
    (fun a => if a = 0 then 0xBF else 0xFF) 2 2
  obtain ⟨hseen, hlog, hawake, hresets, hmiso, -⟩ := htraces handshakeTrace
  rw [hframes] at hseen hlog hawake hresets
  have hawake := hawake.2 (.inr ⟨Frame.wake Opcode.release, by decide, rfl⟩)
  have hmiso := hmiso _ _ hcurrent rfl hedges
  rw [if_pos hawake] at hmiso
  exact ⟨d, hd, hseen, hlog, hawake, hresets, hmiso⟩

end Device
end Flash
end WeightLink
