/-
# What an action promises

A triple says what an action does from every state that meets a precondition: it gives a value
and leaves a state as one postcondition says, or it fails and leaves a state as another one says
(`Action.Triple`).  There is a rule for each way to build an action; a `do` block is gone through
with them step by step.
-/

import WeightLink.Action

namespace WeightLink
namespace Action

variable {σ τ α β : Type}

/-- From every state in `P` the action ends as `Q` says, or fails as `E` says. -/
def Triple (P : σ → Prop) (m : Action σ α) (Q : α → σ → Prop) (E : Fault → σ → Prop) : Prop :=
  ∀ s, P s →
    match (m.run s).result with
    | .ok a => Q a (m.run s).state
    | .error e => E e (m.run s).state

namespace Triple

variable {P : σ → Prop} {Q : α → σ → Prop} {R : β → σ → Prop} {E : Fault → σ → Prop}

theorem intro {m : Action σ α}
    (hok : ∀ s a, P s → (m.run s).result = .ok a → Q a (m.run s).state)
    (herror : ∀ s e, P s → (m.run s).result = .error e → E e (m.run s).state) :
    Triple P m Q E := by
  intro s hs
  cases hr : (m.run s).result with
  | ok a => exact hok s a hs hr
  | error e => exact herror s e hs hr

theorem pure {a : α} (h : ∀ s, P s → Q a s) : Triple P (Pure.pure a) Q E := h

theorem fail {e : Fault} (h : ∀ s, P s → E e s) : Triple P (Action.fail e) Q E := h

theorem modify {f : σ → σ} {Q : Unit → σ → Prop} (h : ∀ s, P s → Q () (f s)) :
    Triple P (Action.modify f) Q E := h

theorem log (e : Event) : Triple P (Action.log e) (fun _ => P) E := fun _ h => h

theorem check (c : Except Fault α) :
    Triple P (Action.check c) (fun a s => c = .ok a ∧ P s) (fun e s => c = .error e ∧ P s) := by
  intro s hs
  rw [run_check]
  cases c with
  | ok a => exact ⟨rfl, hs⟩
  | error e => exact ⟨rfl, hs⟩

theorem bind {m : Action σ α} {f : α → Action σ β} (hm : Triple P m Q E)
    (hf : ∀ a, Triple (Q a) (f a) R E) : Triple P (m >>= f) R E := by
  intro s hs
  have hfirst := hm s hs
  rw [run_bind]
  cases hr : (m.run s).result with
  | error e => simpa only [hr] using hfirst
  | ok a =>
    simp only [hr] at hfirst ⊢
    exact hf a _ hfirst

/-- An action on a part of the state keeps what does not depend on that part. -/
theorem within {m : Action σ α} (h : Triple P m Q E) (part : τ → σ) (put : σ → τ → τ)
    (F : τ → Prop) (hpart : ∀ s t, part (put s t) = s) (hF : ∀ s t, F t → F (put s t)) :
    Triple (fun t => P (part t) ∧ F t) (Action.within part put m)
      (fun a t => Q a (part t) ∧ F t) fun e t => E e (part t) ∧ F t := by
  rintro t ⟨hp, hf⟩
  have hm := h (part t) hp
  rw [run_within]
  revert hm
  rcases m.run (part t) with ⟨_ | a, s, es⟩
  · exact fun hm => ⟨(hpart s t).symm ▸ hm, hF s t hf⟩
  · exact fun hm => ⟨(hpart s t).symm ▸ hm, hF s t hf⟩

/-- Whoever looks at the state knows that it meets the precondition. -/
theorem get {f : σ → Action σ β} (h : ∀ s, P s → Triple P (f s) R E) :
    Triple P (Action.get >>= f) R E := fun s hs => h s hs s hs

/-- The rule of consequence. -/
theorem imp {m : Action σ α} {A : σ → Prop} {B : α → σ → Prop} {F : Fault → σ → Prop}
    (h : Triple P m Q E) (hP : ∀ s, A s → P s) (hQ : ∀ a s, Q a s → B a s)
    (hE : ∀ e s, E e s → F e s) : Triple A m B F := by
  intro s hs
  have hm := h s (hP s hs)
  revert hm
  rcases m.run s with ⟨_ | a, t, es⟩
  · exact hE _ _
  · exact hQ _ _

/-- Fewer failures are promised than there may be. -/
theorem imp_error {m : Action σ α} {F : Fault → σ → Prop} (h : Triple P m Q E)
    (hE : ∀ e s, E e s → F e s) : Triple P m Q F := h.imp (fun _ hs => hs) (fun _ _ hq => hq) hE

/-- What is kept whether an action fails or not does not depend on its result. -/
theorem keeps_iff {m : Action σ α} :
    Triple P m (fun _ => P) (fun _ => P) ↔ ∀ s, P s → P (m.run s).state := by
  refine forall_congr' fun s => forall_congr' fun _ => ?_
  cases (m.run s).result <;> rfl

/-- Facts that do not speak about the state are still there after any action. -/
theorem fact {m : Action σ α} {A : Prop} :
    Triple (fun _ => A) m (fun _ _ => A) fun _ _ => True :=
  .intro (fun _ _ h _ => h) fun _ _ _ _ => trivial

/-- An action may be looked at from one state at a time. -/
theorem of_state {m : Action σ α} (h : ∀ s, P s → Triple (fun t => t = s) m Q E) :
    Triple P m Q E := fun s hs => h s hs s rfl

/-- Facts that do not speak about the state may be used as hypotheses. -/
theorem of_pre {m : Action σ α} {A : Prop} (h : A → Triple P m Q E) :
    Triple (fun s => A ∧ P s) m Q E := fun s hs => h hs.1 s hs.2

theorem result_ok {m : Action σ α} (h : Triple P m Q E) {s : σ} (hs : P s) {a : α}
    (ha : (m.run s).result = .ok a) : Q a (m.run s).state := by
  have hm := h s hs
  rwa [ha] at hm

theorem result_error {m : Action σ α} (h : Triple P m Q E) {s : σ} (hs : P s) {e : Fault}
    (he : (m.run s).result = .error e) : E e (m.run s).state := by
  have hm := h s hs
  rwa [he] at hm

end Triple
end Action
end WeightLink
