/-
# Two links that cannot be told apart

A caller gets to know a link by its calls (`Link.Call`): how a call ends, what it reports, and, if
the caller looks at the wires, each of the cycles that it takes (`Link.Call.Record`).  Two links
are alike to the caller if their histories are, call for call and cycle for cycle.

All calls are made of cycles in which a request is held (`Link.hold_eq`).  So it is enough that
a relation between links is kept by single cycles, and that the links show the same in a cycle,
perhaps apart from the words that are answered (`Link.Simulation`).  Such a relation is then kept by
every call (`Simulation.record`), and from there by every sequence of calls
(`Simulation.history`).
-/

import Mathlib.Data.List.Forall2
import WeightLink.Proofs.Flash.Reachable

namespace WeightLink
namespace Flash

/-! ### Outputs up to words -/

/-- The same is driven in two cycles, and words are answered that are in a relation. -/
structure Outputs.Rel (W : UInt32 → UInt32 → Prop) (out out' : Outputs) : Prop where
  ready_eq : out'.ready = out.ready
  pins_eq : out'.pins = out.pins
  response : Option.Rel W out.response out'.response

/-- With the words in equality, the outputs are the same. -/
theorem Outputs.rel_eq_iff {out out' : Outputs} : Outputs.Rel Eq out out' ↔ out' = out := by
  constructor
  · rintro ⟨hready, hpins, hresponse⟩
    obtain ⟨ready, response, pins⟩ := out
    obtain ⟨ready', response', pins'⟩ := out'
    obtain rfl := hready
    obtain rfl := hpins
    cases hresponse with
    | some hword => rw [hword]
    | none => rfl
  · rintro rfl
    refine ⟨rfl, rfl, ?_⟩
    cases out'.response with
    | some word => exact .some rfl
    | none => exact .none

namespace Link

/-! ### Calls -/

/-- What may be done with a link and the contents of its device. -/
inductive Call where
  | cycle (request : Request)
  | idle (cycles : Nat)
  | readWord (address : UInt32)
  | writeWord (address data : UInt32) (mask : UInt8)
  | load (offset : Nat) (data : Buffer UInt8)
  | reset

/-- What a call gives. -/
inductive Answer where
  | done
  | outputs (out : Outputs)
  | word (word : UInt32)
  deriving DecidableEq, Repr

namespace Call

/-- Does a call. -/
def action : Call → Action Link Answer
  | .cycle request => Answer.outputs <$> step request
  | .idle cycles => (fun _ => Answer.done) <$> observed fun l => ((), Link.idle cycles l)
  | .readWord address => Answer.word <$> Link.readWord address
  | .writeWord address data mask => (fun _ => Answer.done) <$> Link.writeWord address data mask
  | .load offset data => (fun _ => Answer.done) <$> onDevice fun d => d.load offset data
  | .reset => (fun _ => Answer.done) <$> Action.modify Link.reset

end Call

/-- The cycles in which a request is held: what is driven in each of them, and the link after
it. -/
def holdCourse {α : Type} (request : Request) (answer : Outputs → Option α) :
    Nat → Link → List (Outputs × Link)
  | 0, _ => []
  | n + 1, l =>
    let now := l.cycle request
    match answer now.1 with
    | some _ => [now]
    | none => now :: holdCourse request answer n now.2

/-- What a master who waits to be accepted waits for. -/
def accepted (out : Outputs) : Option Unit := if out.ready then some () else none

/-- The cycles of a call: what is driven in each of them, and the link after it. -/
def Call.course : Call → Link → List (Outputs × Link)
  | .cycle request, l => [l.cycle request]
  | .idle cycles, l => holdCourse .none (fun _ => (none : Option Unit)) cycles l
  | .readWord address, l => holdCourse (.read address) Outputs.response l.config.budget l
  | .writeWord address data mask, l =>
    holdCourse (.write address data mask) accepted l.config.budget l
  | .load _ _, _ => []
  | .reset, _ => []

/-- What can be seen of a call: how it ends, what it reports, its cycles, and the link that it
leaves. -/
structure Call.Record where
  result : Except Fault Answer
  events : List Event
  course : List (Outputs × Link)
  after : Link

/-- Does a call and records it. -/
def Call.record (c : Call) (l : Link) : Call.Record :=
  let outcome := c.action.run l
  ⟨outcome.result, outcome.events, c.course l, outcome.state⟩

/-- The records of some calls, one after the other, whether they fail or not. -/
def history : List Call → Link → List Call.Record
  | [], _ => []
  | c :: cs, l => c.record l :: history cs (c.record l).after

/-- The link after the last of some cycles. -/
def lastOf : List (Outputs × Link) → Link → Link
  | [], l => l
  | now :: rest, _ => lastOf rest now.2

/-- **To hold a request is to go through its cycles**, the last of which may be answered. -/
theorem hold_eq {α : Type} (request : Request) (answer : Outputs → Option α) (n : Nat) (l : Link) :
    hold request answer n l =
      ((holdCourse request answer n l).findSome? fun now => answer now.1,
        lastOf (holdCourse request answer n l) l) := by
  induction n generalizing l with
  | zero => rfl
  | succ n ih =>
    simp only [hold, holdCourse]
    cases ha : answer (l.cycle request).1 with
    | some a => simp [lastOf, ha]
    | none => simp [lastOf, ha, ih]

/-- Idling is to hold no request, whatever is driven. -/
theorem idle_eq_hold (n : Nat) (l : Link) :
    idle n l = (hold .none (fun _ => (none : Option Unit)) n l).2 := by
  induction n generalizing l with
  | zero => rfl
  | succ n ih => exact ih _

section Record

variable (l : Link)

theorem record_cycle (request : Request) :
    Call.record (.cycle request) l =
      ⟨.ok (.outputs (l.cycle request).1), notices l (l.cycle request).2, [l.cycle request],
        (l.cycle request).2⟩ := by
  simp only [Call.record, Call.action, step, Action.run_map, run_observed]
  rfl

theorem record_idle (cycles : Nat) :
    Call.record (.idle cycles) l =
      ⟨.ok .done, notices l (idle cycles l), Call.course (.idle cycles) l, idle cycles l⟩ := by
  simp only [Call.record, Call.action, Action.run_map, run_observed]
  rfl

theorem record_readWord (address : UInt32) :
    Call.record (.readWord address) l =
      match hold (.read address) Outputs.response l.config.budget l with
      | (some word, after) =>
        ⟨.ok (.word word), notices l after, Call.course (.readWord address) l,
          after.withLatency (after.stats.latency.add (after.stats.total - l.stats.total))⟩
      | (none, after) =>
        ⟨.error (.readTimeout address (after.stats.total - l.stats.total) after.engine.phase),
          notices l after, Call.course (.readWord address) l, after⟩ := by
  simp only [Call.record, Call.action, Action.run_map, run_readWord]
  rcases hold (.read address) Outputs.response l.config.budget l with ⟨_ | word, after⟩ <;> rfl

theorem record_writeWord (address data : UInt32) (mask : UInt8) :
    Call.record (.writeWord address data mask) l =
      match hold (.write address data mask) accepted l.config.budget l with
      | (some (), after) =>
        ⟨.ok .done, notices l after, Call.course (.writeWord address data mask) l, after⟩
      | (none, after) =>
        ⟨.error (.writeTimeout address), notices l after,
          Call.course (.writeWord address data mask) l, after⟩ := by
  have haccepted : (fun out : Outputs => if out.ready then some () else none) = accepted := rfl
  simp only [Call.record, Call.action, Action.run_map, run_writeWord, haccepted]
  rcases hold (.write address data mask) accepted l.config.budget l with ⟨_ | _, after⟩ <;> rfl

theorem record_load (offset : Nat) (data : Buffer UInt8) :
    Call.record (.load offset data) l =
      match l.device.load offset data with
      | .ok device => ⟨.ok .done, [], [], { l with device }⟩
      | .error e => ⟨.error e, [], [], l⟩ := by
  simp only [Call.record, Call.action, Action.run_map, onDevice, Action.run_bind, Action.run_get,
    Action.run_check]
  cases l.device.load offset data <;> rfl

theorem record_reset :
    Call.record .reset l = ⟨.ok .done, [], [], l.reset⟩ := by
  simp only [Call.record, Call.action, Action.run_map, Action.run_modify]
  rfl

end Record

/-! ### Relations that calls keep -/

/-- Two endings of a call that are the same apart from words that are in a relation. -/
inductive Call.Ended (W : UInt32 → UInt32 → Prop) :
    Except Fault Answer → Except Fault Answer → Prop
  | error (e : Fault) : Ended W (.error e) (.error e)
  | done : Ended W (.ok .done) (.ok .done)
  | outputs {out out' : Outputs} :
      out.Rel W out' → Ended W (.ok (.outputs out)) (.ok (.outputs out'))
  | word {word word' : UInt32} : W word word' → Ended W (.ok (.word word)) (.ok (.word word'))

/-- The same is driven in two cycles apart from words, and the links after them are in `R`. -/
def Shown (W : UInt32 → UInt32 → Prop) (R : Link → Link → Prop) (now now' : Outputs × Link) :
    Prop :=
  now.1.Rel W now'.1 ∧ R now.2 now'.2

/-- Two records that are the same apart from words, over links that are in `R` after each cycle and
after the call. -/
structure Call.Record.Rel (W : UInt32 → UInt32 → Prop) (R : Link → Link → Prop)
    (a b : Call.Record) : Prop where
  result : Ended W a.result b.result
  events_eq : b.events = a.events
  course : List.Forall₂ (Shown W R) a.course b.course
  after : R a.after b.after

theorem Call.Ended.eq {result result' : Except Fault Answer} (h : Ended Eq result result') :
    result' = result := by
  cases h with
  | error e => rfl
  | done => rfl
  | outputs hout => rw [Outputs.rel_eq_iff.1 hout]
  | word hword => rw [hword]

/-- Two records that are the same, over links that are in `R` after each cycle and after the
call. -/
structure Call.Record.Same (R : Link → Link → Prop) (a b : Call.Record) : Prop where
  result_eq : b.result = a.result
  events_eq : b.events = a.events
  course : List.Forall₂ (fun now now' => now'.1 = now.1 ∧ R now.2 now'.2) a.course b.course
  after : R a.after b.after

/-- With the words in equality, the records are the same. -/
theorem Call.Record.Rel.same {R : Link → Link → Prop} {a b : Call.Record} (h : a.Rel Eq R b) :
    a.Same R b :=
  ⟨h.result.eq, h.events_eq,
    h.course.imp fun _ _ hnow => ⟨Outputs.rel_eq_iff.1 hnow.1, hnow.2⟩, h.after⟩

/-- Changes of the contents of two devices are both refused, for the same reason, or both done. -/
def Reloaded (R : Link → Link → Prop) (l l' : Link) :
    Except Fault Device → Except Fault Device → Prop
  | .ok device, .ok device' => R { l with device } { l' with device := device' }
  | .error e, .error e' => e' = e
  | _, _ => False

/-- Devices of one capacity refuse and take the same. -/
theorem reloaded_of_capacity {R : Link → Link → Prop} {l l' : Link} (offset : Nat)
    (hcapacity : l'.device.image.capacity = l.device.image.capacity) (hsame : R l l')
    (hprogram : ∀ bytes,
      R { l with
          device :=
            { l.device with
              image := l.device.image.program offset bytes
              generation := l.device.generation + 1 } }
        { l' with
          device :=
            { l'.device with
              image := l'.device.image.program offset bytes
              generation := l'.device.generation + 1 } })
    (data : Buffer UInt8) :
    Reloaded R l l' (l.device.load offset data) (l'.device.load offset data) := by
  cases data with
  | absent count =>
    by_cases hcount : count = 0
    · simpa [Device.load, hcount, Reloaded] using hsame
    · simp [Device.load, hcount, Reloaded]
  | held bytes =>
    by_cases hsize : bytes.size = 0
    · simpa [Device.load, hsize, Reloaded] using hsame
    by_cases hfits : l.device.image.capacity < offset + bytes.size
    · simp [Device.load, hsize, hcapacity, hfits, Reloaded]
    · simpa [Device.load, hsize, hcapacity, hfits, Reloaded] using hprogram bytes

/-- Links in `R` show the same, words apart, and get into links in `R`. -/
structure Simulation (W : UInt32 → UInt32 → Prop) (R : Link → Link → Prop) : Prop where
  config_eq : ∀ l l', R l l' → l'.config = l.config
  phase_eq : ∀ l l', R l l' → l'.engine.phase = l.engine.phase
  sawAwake_eq : ∀ l l', R l l' → l'.sawAwake = l.sawAwake
  stats_eq : ∀ l l', R l l' → l'.stats = l.stats
  cycle : ∀ l l' request, R l l' → Shown W R (l.cycle request) (l'.cycle request)
  withLatency : ∀ l l' latency, R l l' → R (l.withLatency latency) (l'.withLatency latency)
  load : ∀ l l' offset data, R l l' →
    Reloaded R l l' (l.device.load offset data) (l'.device.load offset data)
  reset : ∀ l l', R l l' → R l.reset l'.reset

namespace Simulation

variable {W : UInt32 → UInt32 → Prop} {R : Link → Link → Prop} {l l' : Link}

theorem lastOf {course course' : List (Outputs × Link)}
    (hc : List.Forall₂ (Shown W R) course course') (hl : R l l') :
    R (Link.lastOf course l) (Link.lastOf course' l') := by
  induction hc generalizing l l' with
  | nil => exact hl
  | cons hnow _ ih => exact ih hnow.2

section Hold

variable {α : Type} {V : α → α → Prop} {answer : Outputs → Option α}
  (hanswer : ∀ out out', Outputs.Rel W out out' → Option.Rel V (answer out) (answer out'))
include hanswer

theorem findSome? {course course' : List (Outputs × Link)}
    (hc : List.Forall₂ (Shown W R) course course') :
    Option.Rel V (course.findSome? fun now => answer now.1)
      (course'.findSome? fun now => answer now.1) := by
  induction hc with
  | nil => exact .none
  | cons hnow _ ih =>
    have hfirst := hanswer _ _ hnow.1
    simp only [List.findSome?_cons]
    revert hfirst
    generalize answer _ = first
    generalize answer _ = first'
    rintro (hv | _)
    · exact .some hv
    · exact ih

variable (h : Simulation W R)
include h

/-- **A held request takes as many cycles on both links**, and they show the same. -/
theorem holdCourse (request : Request) (n : Nat) (hl : R l l') :
    List.Forall₂ (Shown W R) (Link.holdCourse request answer n l)
      (Link.holdCourse request answer n l') := by
  induction n generalizing l l' with
  | zero => exact .nil
  | succ n ih =>
    have hnow := h.cycle l l' request hl
    have hfirst := hanswer _ _ hnow.1
    simp only [Link.holdCourse]
    revert hfirst
    generalize answer _ = first
    generalize answer _ = first'
    rintro (hv | _)
    · exact .cons hnow .nil
    · exact .cons hnow (ih hnow.2)

/-- A held request is answered on both links or on neither, and leaves them in the relation. -/
theorem hold (request : Request) (n : Nat) (hl : R l l') :
    Option.Rel V (Link.hold request answer n l).1 (Link.hold request answer n l').1 ∧
      R (Link.hold request answer n l).2 (Link.hold request answer n l').2 := by
  have hc := holdCourse hanswer h request n hl
  rw [hold_eq, hold_eq]
  exact ⟨findSome? hanswer hc, lastOf hc hl⟩

end Hold

variable (h : Simulation W R)
include h

theorem notices_eq {after after' : Link} (hl : R l l') (ha : R after after') :
    notices l' after' = notices l after := by
  unfold notices
  rw [h.sawAwake_eq _ _ hl, h.sawAwake_eq _ _ ha, h.stats_eq _ _ ha]

/-- A blocking read takes as long on both links, and is answered on both or gives up on both. -/
theorem readWord (address : UInt32) (hl : R l l') :
    (Call.record (.readWord address) l).Rel W R (Call.record (.readWord address) l') := by
  have hanswer : ∀ out out', Outputs.Rel W out out' → Option.Rel W out.response out'.response :=
    fun _ _ ho => ho.response
  have hbudget := congrArg Config.budget (h.config_eq _ _ hl)
  have hstats := h.stats_eq _ _ hl
  have hc := holdCourse hanswer h (.read address) l.config.budget hl
  have hheld := hold hanswer h (.read address) l.config.budget hl
  rw [record_readWord, record_readWord, Call.course, Call.course, hbudget, hstats]
  revert hheld
  rcases Link.hold (.read address) Outputs.response l.config.budget l with ⟨word, after⟩
  rcases Link.hold (.read address) Outputs.response l.config.budget l' with ⟨word', after'⟩
  rintro ⟨hw | _, ha⟩
  · dsimp only at ha ⊢
    rw [h.stats_eq _ _ ha]
    exact ⟨.word hw, h.notices_eq hl ha, hc, h.withLatency _ _ _ ha⟩
  · dsimp only at ha ⊢
    rw [h.stats_eq _ _ ha, h.phase_eq _ _ ha]
    exact ⟨.error _, h.notices_eq hl ha, hc, ha⟩

/-- A blocking write takes as long on both links, and is accepted on both or gives up on both. -/
theorem writeWord (address data : UInt32) (mask : UInt8) (hl : R l l') :
    (Call.record (.writeWord address data mask) l).Rel W R
      (Call.record (.writeWord address data mask) l') := by
  have hanswer : ∀ out out', Outputs.Rel W out out' →
      Option.Rel Eq (accepted out) (accepted out') := by
    intro out out' ho
    unfold accepted
    rw [ho.ready_eq]
    split
    · exact .some rfl
    · exact .none
  have hbudget := congrArg Config.budget (h.config_eq _ _ hl)
  have hc := holdCourse hanswer h (.write address data mask) l.config.budget hl
  have hheld := hold hanswer h (.write address data mask) l.config.budget hl
  rw [record_writeWord, record_writeWord, Call.course, Call.course, hbudget]
  revert hheld
  rcases Link.hold (.write address data mask) accepted l.config.budget l with ⟨done, after⟩
  rcases Link.hold (.write address data mask) accepted l.config.budget l' with ⟨done', after'⟩
  rintro ⟨rfl | _, ha⟩
  · exact ⟨.done, h.notices_eq hl ha, hc, ha⟩
  · exact ⟨.error _, h.notices_eq hl ha, hc, ha⟩

/-- **Every call shows the same on both links**, and leaves them in the relation. -/
theorem record (c : Call) (hl : R l l') : (c.record l).Rel W R (c.record l') := by
  cases c with
  | cycle request =>
    have hnow := h.cycle l l' request hl
    rw [record_cycle, record_cycle]
    exact ⟨.outputs hnow.1, h.notices_eq hl hnow.2, .cons hnow .nil, hnow.2⟩
  | idle cycles =>
    have hanswer : ∀ out out' : Outputs, Outputs.Rel W out out' →
        Option.Rel Eq (none : Option Unit) none := fun _ _ _ => .none
    have ha : R (Link.idle cycles l) (Link.idle cycles l') := by
      rw [idle_eq_hold, idle_eq_hold]
      exact (hold hanswer h .none cycles hl).2
    rw [record_idle, record_idle]
    exact ⟨.done, h.notices_eq hl ha, holdCourse hanswer h .none cycles hl, ha⟩
  | readWord address => exact h.readWord address hl
  | writeWord address data mask => exact h.writeWord address data mask hl
  | load offset data =>
    have hload := h.load l l' offset data hl
    rw [record_load, record_load]
    revert hload
    rcases l.device.load offset data with e | device <;>
      rcases l'.device.load offset data with e' | device'
    · rintro rfl
      exact ⟨.error _, rfl, .nil, hl⟩
    · exact False.elim
    · exact False.elim
    · exact fun hload => ⟨.done, rfl, .nil, hload⟩
  | reset =>
    rw [record_reset, record_reset]
    exact ⟨.done, rfl, .nil, h.reset l l' hl⟩

/-- **Histories on two links in the relation are the same, words apart.** -/
theorem history (cs : List Call) (hl : R l l') :
    List.Forall₂ (Call.Record.Rel W R) (Link.history cs l) (Link.history cs l') := by
  induction cs generalizing l l' with
  | nil => exact .nil
  | cons c cs ih =>
    have hc := h.record c hl
    exact .cons hc (ih hc.after)

end Simulation

end Link
end Flash
end WeightLink
