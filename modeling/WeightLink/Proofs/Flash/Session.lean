/-
# Sessions of a compliant master

A master is compliant if it presents a request again and again until it is accepted.
`Link.Session` are the states that a link gets into with such a master, together with the
request that the master still has to repeat.  A reset lets it off; the contents of the
device may change while no read is on the link.

In a session a read on the link is the read that the master is presenting
(`Session.inFlight`), so that every answer is the word at the presented address
(`session_answers`).
-/

import WeightLink.Proofs.Flash.Answers

namespace WeightLink
namespace Flash

/-- What a master may present while a request is pending. -/
def Request.Follows (request pending : Request) : Prop := pending = .none ∨ request = pending

namespace Link

/-- What is left to be presented again after a cycle. -/
def pendingAfter (l : Link) (request : Request) : Request :=
  if (l.cycle request).1.ready then .none else request

/-- The states of a link under a compliant master, with the request that is pending. -/
inductive Session (cfg : Config) : Link → Request → Prop
  | create {l : Link} : create cfg = .ok l → Session cfg l .none
  | cycle {l : Link} {pending : Request} (request : Request) :
      Session cfg l pending → Request.Follows request pending →
        Session cfg (l.cycle request).2 (l.pendingAfter request)
  | reset {l : Link} {pending : Request} : Session cfg l pending → Session cfg l.reset .none
  | load {l : Link} {pending : Request} {device : Device} (offset : Nat) (data : Buffer UInt8) :
      Session cfg l pending → l.engine.reading = false →
        l.device.load offset data = .ok device → Session cfg { l with device } pending

/-- What can be seen in one cycle: an answer belongs to the presented read and is the word at
its address, and a read is accepted with its answer. -/
structure Correct (l : Link) (request : Request) (out : Outputs) : Prop where
  answer : ∀ word, out.response = some word →
    ∃ address, request = .read address ∧ l.IsWord address word
  accepted : ∀ address, request = .read address → (out.ready = true ↔ out.response.isSome = true)
  write : request.isWrite = true → out.response = none

/-- A read without an answer is pending. -/
theorem pendingAfter_of_none {l : Link} {address : UInt32} (h : l.engine.response = none) :
    l.pendingAfter (.read address) = .read address := by
  simp [pendingAfter, ready_read, h]

namespace Session

variable {cfg : Config} {l : Link} {pending : Request}

theorem reachable (h : Session cfg l pending) : Reachable cfg l := by
  induction h with
  | create h => exact .create h
  | cycle request _ _ ih => exact ih.cycle request
  | reset _ ih => exact ih.reset
  | load offset data _ hr hd ih => exact ih.load offset data hr hd

theorem coupled (h : Session cfg l pending) : Coupled cfg l := h.reachable.coupled

/-- **The read on the link is the one that is pending.** -/
theorem inFlight (h : Session cfg l pending) (hr : l.engine.reading = true) :
    ∃ address, pending = .read address ∧ l.InFlight address := by
  induction h with
  | create h => exact absurd hr (by simp [reading_create h])
  | @cycle l pending request h hf ih =>
    have hc := h.coupled
    cases hw : l.engine.response with
    | some word =>
      rw [Coupled.reading_cycle_of_response hw] at hr
      exact absurd hr (by decide)
    | none =>
      by_cases hl : l.engine.reading = true
      · obtain ⟨address, rfl, hin⟩ := ih hl
        obtain hp | rfl := hf
        · cases hp
        · have hgoes := hc.inFlight_cycle hin ((Engine.response_eq_none_iff _).1 hw)
          exact ⟨address, pendingAfter_of_none hw, hgoes _⟩
      · obtain ⟨address, rfl, hin⟩ := hc.inFlight_of_started (by simpa using hl) hr
        exact ⟨address, pendingAfter_of_none hw, hin⟩
  | reset _ _ => exact absurd hr (by simp [Link.reset, Engine.powerOn, Engine.reading])
  | load offset data _ hl _ _ => exact absurd hr (by simp [hl])

/-- **Every cycle of a session is correct.** -/
theorem correct (h : Session cfg l pending) {request : Request} (hf : request.Follows pending) :
    Correct l request (l.cycle request).1 := by
  have hc := h.coupled
  refine ⟨fun word hw => ?_, ?_, fun hwrite => ?_⟩
  · obtain ⟨address, rfl, hin⟩ := h.inFlight (hc.reading_of_response hw)
    obtain hp | rfl := hf
    · cases hp
    · exact ⟨address, rfl, fun k hk => hc.answer_inFlight hin hw hk⟩
  · rintro address rfl
    rw [cycle_ready, cycle_response, ready_read]
  · cases hw : l.engine.response with
    | none => exact hw
    | some word =>
      obtain ⟨address, rfl, -⟩ := h.inFlight (hc.reading_of_response hw)
      obtain hp | rfl := hf
      · cases hp
      · simp [Request.isWrite] at hwrite

/-- Holding a read keeps to the rule, answered or not. -/
theorem hold_read (h : Session cfg l pending) {address : UInt32}
    (hf : Request.Follows (.read address) pending) (n : Nat) :
    ∃ pending, Request.Follows (.read address) pending ∧
      Session cfg (Link.hold (.read address) Outputs.response n l).2 pending := by
  induction n generalizing l pending with
  | zero => exact ⟨pending, hf, h⟩
  | succ n ih =>
    have hnext := h.cycle (.read address) hf
    simp only [Link.hold, cycle_response]
    cases hw : l.engine.response with
    | some word =>
      refine ⟨.none, .inl rfl, ?_⟩
      simpa [pendingAfter, ready_read, hw] using hnext
    | none =>
      rw [pendingAfter_of_none hw] at hnext
      exact ih hnext (.inr rfl)

end Session

/-- **The flash link serves every compliant master correctly.**  In every cycle of a session an
answer belongs to the presented read and is the word at its address, byte by byte; a read is
accepted exactly with its answer, and a write never meets one.  A blocking read that finds no
read on the link and returns gives the word at its address, whatever happened before. -/
theorem session_answers (cfg : Config) :
    (∀ l pending request, Session cfg l pending → request.Follows pending →
      Correct l request (l.cycle request).1) ∧
    (∀ l address word, Reachable cfg l → l.engine.reading = false →
      ((readWord address).run l).result = .ok word → l.IsWord address word) := by
  refine ⟨fun l pending request h hf => h.correct hf, fun l address word h hr hw => ?_⟩
  have hown : l.Owes address address := .inr ⟨hr, rfl⟩
  have howed := h.coupled.readWord_owes hown
  rw [hw] at howed
  exact howed.1

/-! ### A link with a slow clock that has to wake its device -/

/-- Eight bytes, of which the window starts in the middle. -/
def sampleConfig : Config := ⟨⟨4, 1, true, 2⟩, 8, true, 0⟩

/-- The link after power-on. -/
def sampleErased : Link := (create sampleConfig).toOption.get (by decide)

/-- Its device with four bytes at the start of the window. -/
def sampleDevice : Device :=
  (sampleErased.device.load 4 (.held #[0x11, 0x22, 0x33, 0x44])).toOption.get (by decide)

/-- The link with the programmed device. -/
def sample : Link := { sampleErased with device := sampleDevice }

/-- The link in the cycle that answers a read that was held from the start. -/
def sampleAnswering : Link := (hold (.read 2) Outputs.response 904 sample).2

theorem session_sample : Session sampleConfig sample .none :=
  .load 4 (.held #[0x11, 0x22, 0x33, 0x44]) (.create rfl) rfl rfl

theorem session_answers_sample :
    (∃ pending, Session sampleConfig sampleAnswering pending ∧
      Request.Follows (.read 2) pending) ∧
    sampleAnswering.engine.response = some 0x44332211 ∧
    Correct sampleAnswering (.read 2) (sampleAnswering.cycle (.read 2)).1 ∧
    sample.engine.reading = false ∧ ((readWord 2).run sample).result = .ok 0x44332211 ∧
    sample.IsWord 2 0x44332211 := by
  obtain ⟨pending, hf, hs⟩ := session_sample.hold_read (.inl rfl) 904
  have hr : ((readWord 2).run sample).result = .ok 0x44332211 :=
    eq_ok_of_toOption (by decide +kernel)
  exact ⟨⟨pending, hs, hf⟩, by decide +kernel, (session_answers sampleConfig).1 _ _ _ hs hf,
    rfl, hr, (session_answers sampleConfig).2 _ _ _ session_sample.reachable rfl hr⟩

end Link
end Flash
end WeightLink
