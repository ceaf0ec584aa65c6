/-
# Actions

An action works on a state, logs events, and returns a value or fails.  A failure
keeps the state and the events up to the point where it happened: a read that times
out has spent its cycles.  `Action` is a lawful monad, so actions are written in
`do` notation and rearranged by the monad laws.
-/

import WeightLink.Event

namespace WeightLink

/-- What an action leaves behind. -/
structure Outcome (σ α : Type) where
  result : Except Fault α
  state : σ
  events : List Event

/-- A computation on a state that logs and may fail. -/
def Action (σ α : Type) := σ → Outcome σ α

/-- A result with a value is that value. -/
theorem eq_ok_of_toOption {α : Type} {r : Except Fault α} {a : α} (h : r.toOption = some a) :
    r = .ok a := by
  cases r with
  | error e => exact nomatch h
  | ok b => exact congrArg Except.ok (Option.some.inj h)

theorem eq_error_of_toOption {α : Type} {r : Except Fault α} (h : r.toOption = none) :
    ∃ e, r = .error e := by
  cases r with
  | error e => exact ⟨e, rfl⟩
  | ok b => exact nomatch h

namespace Action

variable {σ τ α β : Type}

/-- Runs an action. -/
def run (m : Action σ α) (s : σ) : Outcome σ α := m s

/-- Does nothing. -/
def pure (a : α) : Action σ α := fun s => ⟨.ok a, s, []⟩

/-- Runs the second action on what the first one leaves, unless that failed. -/
def bind (m : Action σ α) (f : α → Action σ β) : Action σ β := fun s =>
  let first := m s
  match first.result with
  | .error e => ⟨.error e, first.state, first.events⟩
  | .ok a =>
    let second := f a first.state
    ⟨second.result, second.state, first.events ++ second.events⟩

instance : Monad (Action σ) where
  pure := pure
  bind := bind

/-- Gives up. -/
def fail (e : Fault) : Action σ α := fun s => ⟨.error e, s, []⟩

/-- Looks at the state. -/
def get : Action σ σ := fun s => ⟨.ok s, s, []⟩

/-- Changes the state. -/
def modify (f : σ → σ) : Action σ Unit := fun s => ⟨.ok (), f s, []⟩

/-- Logs an event. -/
def log (e : Event) : Action σ Unit := fun s => ⟨.ok (), s, [e]⟩

/-- Fails unless a check passes. -/
def check (c : Except Fault α) : Action σ α := fun s => ⟨c, s, []⟩

/-- Runs an action on a part of the state. -/
def within (part : τ → σ) (put : σ → τ → τ) (m : Action σ α) : Action τ α := fun t =>
  let inner := m (part t)
  ⟨inner.result, put inner.state t, inner.events⟩

@[simp] theorem run_pure (a : α) (s : σ) : (Pure.pure a : Action σ α).run s = ⟨.ok a, s, []⟩ :=
  rfl

theorem run_bind (m : Action σ α) (f : α → Action σ β) (s : σ) : (m >>= f).run s =
    match (m.run s).result with
    | .error e => ⟨.error e, (m.run s).state, (m.run s).events⟩
    | .ok a =>
      ⟨((f a).run (m.run s).state).result, ((f a).run (m.run s).state).state,
        (m.run s).events ++ ((f a).run (m.run s).state).events⟩ :=
  rfl

@[simp] theorem run_map (f : α → β) (m : Action σ α) (s : σ) :
    (f <$> m).run s = ⟨(m.run s).result.map f, (m.run s).state, (m.run s).events⟩ := by
  change (m >>= fun a => Pure.pure (f a)).run s = _
  rw [run_bind]
  cases (m.run s).result <;> simp [Except.map]

@[simp] theorem run_fail (e : Fault) (s : σ) :
    (fail e : Action σ α).run s = ⟨.error e, s, []⟩ := rfl

@[simp] theorem run_get (s : σ) : (get : Action σ σ).run s = ⟨.ok s, s, []⟩ := rfl

@[simp] theorem run_modify (f : σ → σ) (s : σ) : (modify f).run s = ⟨.ok (), f s, []⟩ := rfl

@[simp] theorem run_log (e : Event) (s : σ) : (log e).run s = ⟨.ok (), s, [e]⟩ := rfl

@[simp] theorem run_check (c : Except Fault α) (s : σ) :
    (check c : Action σ α).run s = ⟨c, s, []⟩ := rfl

@[simp] theorem run_within (part : τ → σ) (put : σ → τ → τ) (m : Action σ α) (t : τ) :
    (within part put m).run t =
      ⟨(m.run (part t)).result, put (m.run (part t)).state t, (m.run (part t)).events⟩ := rfl

theorem ext {m n : Action σ α} (h : ∀ s, m.run s = n.run s) : m = n := funext h

theorem id_map (m : Action σ α) : id <$> m = m := ext fun s => by
  change (m >>= fun a => Pure.pure (id a)).run s = m.run s
  rw [run_bind]
  generalize m.run s = o
  obtain ⟨r, t, es⟩ := o
  cases r <;> simp

theorem pure_bind (a : α) (f : α → Action σ β) : (Pure.pure a >>= f) = f a := ext fun s => by
  rw [run_bind]; simp

theorem bind_assoc {γ : Type} (m : Action σ α) (f : α → Action σ β) (g : β → Action σ γ) :
    m >>= f >>= g = m >>= fun a => f a >>= g := ext fun s => by
  rw [run_bind, run_bind, run_bind]
  generalize m.run s = o
  obtain ⟨r, t, es⟩ := o
  cases r with
  | error e => rfl
  | ok a =>
    simp only
    rw [run_bind]
    generalize (f a).run t = o'
    obtain ⟨r', t', es'⟩ := o'
    cases r' <;> simp

instance : LawfulMonad (Action σ) := LawfulMonad.mk' (Action σ) id_map pure_bind bind_assoc

end Action
end WeightLink
