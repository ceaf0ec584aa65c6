/-
# Actions along a map of states

A part of the state that an action neither looks at nor sets goes through it untouched.  This is
said with a map of states: in the image of a state the action does what it does in the state, and
leaves the image of what it leaves there (`Action.Along`).  The events may be mapped as well, and
there may be a second action that takes the place of the first one in the image.
-/

import WeightLink.Action

namespace WeightLink
namespace Action

variable {σ τ α β : Type}

/-- What `n` does in the image of a state is the image of what `m` does in the state. -/
def Along (f : σ → τ) (g : Event → Event) (m : Action σ α) (n : Action τ α) : Prop :=
  ∀ s, n.run (f s) = ⟨(m.run s).result, f (m.run s).state, (m.run s).events.map g⟩

namespace Along

variable {f : σ → τ} {g : Event → Event}

theorem pure (a : α) : Along f g (Pure.pure a) (Pure.pure a) := fun _ => rfl

theorem fail (e : Fault) : Along f g (Action.fail e : Action σ α) (Action.fail e) := fun _ => rfl

theorem check (c : Except Fault α) : Along f g (Action.check c) (Action.check c) := fun _ => rfl

theorem log (e : Event) : Along f g (Action.log e) (Action.log (g e)) := fun _ => rfl

theorem modify {a : σ → σ} {b : τ → τ} (h : ∀ s, b (f s) = f (a s)) :
    Along f g (Action.modify a) (Action.modify b) := by
  intro s
  simp [h]

theorem bind {m : Action σ α} {n : Action τ α} {k : α → Action σ β} {l : α → Action τ β}
    (h : Along f g m n) (hk : ∀ a, Along f g (k a) (l a)) : Along f g (m >>= k) (n >>= l) := by
  intro s
  rw [run_bind, run_bind, h s]
  cases hr : (m.run s).result with
  | error e => rfl
  | ok a => simp [hk a _]

theorem get {k : σ → Action σ α} {l : τ → Action τ α} (h : ∀ s, Along f g (k s) (l (f s))) :
    Along f g (Action.get >>= k) (Action.get >>= l) := by
  intro s
  rw [run_bind, run_bind]
  simp [h s s]

theorem ite {c : Prop} [Decidable c] {m m' : Action σ α} {n n' : Action τ α}
    (h : Along f g m n) (h' : Along f g m' n') :
    Along f g (if c then m else m') (if c then n else n') := by
  split
  · exact h
  · exact h'

/-- An action on a part of the state that the map leaves alone. -/
theorem within {ρ : Type} {m : Action ρ α} (part : σ → ρ) (put : ρ → σ → σ) (part' : τ → ρ)
    (put' : ρ → τ → τ) (hevents : ∀ s, (m.run s).events.map g = (m.run s).events)
    (hpart : ∀ s, part' (f s) = part s) (hput : ∀ r s, put' r (f s) = f (put r s)) :
    Along f g (Action.within part put m) (Action.within part' put' m) := by
  intro s
  simp only [run_within, hpart, hput, hevents]

end Along
end Action
end WeightLink
