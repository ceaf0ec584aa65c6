/-
# Cycles in a row

What an engine does over some cycles: the state it is left in (`Engine.after`), and the wires in
each of them (`Engine.wires`).  Runs are put together by `after_append` and `wires_append`.

A link goes through turns, which are cycles and changes of the contents of its device.  Its engine
runs like an engine of its own whose data line shows what the device drives
(`Link.engine_after`).  So what is said of an engine for every data line holds of the engine of a
link.
-/

import WeightLink.Proofs.Flash.Budget

namespace WeightLink
namespace Flash

/-- What an engine sees in a cycle: what the master presents, and the data line. -/
structure Engine.Input where
  request : Request
  miso : Bool
  deriving DecidableEq, Repr

namespace Engine

/-- The state after some cycles. -/
def after (cfg : Config) : List Input → Engine → Engine
  | [], e => e
  | i :: is, e => after cfg is (e.tick cfg i.request i.miso).2

/-- What is driven in each of some cycles. -/
def outputs (cfg : Config) : List Input → Engine → List Outputs
  | [], _ => []
  | i :: is, e => (e.tick cfg i.request i.miso).1 :: outputs cfg is (e.tick cfg i.request i.miso).2

/-- The wires in each of some cycles. -/
def wires (cfg : Config) (is : List Input) (e : Engine) : List Pins :=
  (outputs cfg is e).map Outputs.pins

variable {cfg : Config} {e : Engine}

@[simp] theorem after_nil (cfg : Config) (e : Engine) : after cfg [] e = e := rfl

@[simp] theorem after_cons (cfg : Config) (i : Input) (is : List Input) (e : Engine) :
    after cfg (i :: is) e = after cfg is (e.next cfg i.request i.miso) := rfl

theorem after_append (cfg : Config) (is js : List Input) (e : Engine) :
    after cfg (is ++ js) e = after cfg js (after cfg is e) := by
  induction is generalizing e with
  | nil => rfl
  | cons i is ih => exact ih _

@[simp] theorem wires_cons (cfg : Config) (i : Input) (is : List Input) (e : Engine) :
    wires cfg (i :: is) e =
      (e.next cfg i.request i.miso).pins :: wires cfg is (e.next cfg i.request i.miso) := rfl

theorem length_wires (cfg : Config) (is : List Input) (e : Engine) :
    (wires cfg is e).length = is.length := by
  induction is generalizing e with
  | nil => rfl
  | cons i is ih => exact congrArg (· + 1) (ih _)

/-- **A run keeps the invariant.** -/
theorem Sound.after (h : e.Sound cfg) (is : List Input) : (after cfg is e).Sound cfg := by
  induction is generalizing e with
  | nil => exact h
  | cons i is ih => exact ih (h.next i.request i.miso)

/-- The states of an engine since power-on. -/
theorem sound_after_powerOn (cfg : Config) (is : List Input) :
    (Engine.after cfg is (powerOn cfg)).Sound cfg := (sound_powerOn cfg).after is

end Engine

namespace Link

/-- What happens to a link from power-on to the next reset: cycles, and between them changes of
the contents of the device, which may be refused. -/
inductive Turn where
  | cycle (request : Request)
  | load (offset : Nat) (data : Buffer UInt8)

/-- The state after a turn. -/
def turn (l : Link) : Turn → Link
  | .cycle request => (l.cycle request).2
  | .load offset data =>
    match l.device.load offset data with
    | .ok device => { l with device }
    | .error _ => l

/-- The state after some turns. -/
def after : List Turn → Link → Link
  | [], l => l
  | t :: ts, l => after ts (l.turn t)

/-- What the engine of a link sees in the cycles of some turns. -/
def inputs : List Turn → Link → List Engine.Input
  | [], _ => []
  | .cycle request :: ts, l => ⟨request, l.miso⟩ :: inputs ts (l.cycle request).2
  | .load offset data :: ts, l => inputs ts (l.turn (.load offset data))

/-- The wires in the cycles of some turns. -/
def wires (ts : List Turn) (l : Link) : List Pins :=
  Engine.wires l.config.engine (inputs ts l) l.engine

variable {cfg : Config} {l : Link}

theorem turn_load (offset : Nat) (data : Buffer UInt8) (l : Link) :
    ∃ device, l.turn (.load offset data) = { l with device } ∧
      (device = l.device ∨ l.device.load offset data = .ok device) := by
  cases h : l.device.load offset data with
  | ok device => exact ⟨device, by simp [turn, h], .inr rfl⟩
  | error e => exact ⟨l.device, by simp [turn, h], .inl rfl⟩

@[simp] theorem after_nil (l : Link) : after [] l = l := rfl

@[simp] theorem after_cons (t : Turn) (ts : List Turn) (l : Link) :
    after (t :: ts) l = after ts (l.turn t) := rfl

theorem after_append (ts us : List Turn) (l : Link) :
    after (ts ++ us) l = after us (after ts l) := by
  induction ts generalizing l with
  | nil => rfl
  | cons t ts ih => exact ih _

/-- What every turn keeps is kept to the end. -/
theorem after_induction {P : Link → Prop} (hturn : ∀ l t, P l → P (l.turn t)) (ts : List Turn)
    (h : P l) : P (after ts l) := by
  induction ts generalizing l with
  | nil => exact h
  | cons t ts ih => exact ih (hturn l t h)

@[simp] theorem config_turn (l : Link) (t : Turn) : (l.turn t).config = l.config := by
  cases t with
  | cycle request => rfl
  | load offset data =>
    obtain ⟨device, he, -⟩ := turn_load offset data l
    rw [he]

@[simp] theorem config_after (ts : List Turn) (l : Link) : (after ts l).config = l.config :=
  after_induction (P := fun l' => l'.config = l.config)
    (fun l' t h => (config_turn l' t).trans h) ts rfl

/-- **The engine of a link runs like one of its own.** -/
theorem engine_after (ts : List Turn) (l : Link) :
    (after ts l).engine = Engine.after l.config.engine (inputs ts l) l.engine := by
  induction ts generalizing l with
  | nil => rfl
  | cons t ts ih =>
    cases t with
    | cycle request => exact ih _
    | load offset data =>
      obtain ⟨device, he, -⟩ := turn_load offset data l
      rw [after_cons, ih, inputs, he]

end Link
end Flash
end WeightLink
