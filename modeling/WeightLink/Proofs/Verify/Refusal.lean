/-
# Bad configurations are refused

Whatever is wrong with a configuration, it is refused as an argument that makes no sense
(`Config.refuses_ofJson`): a computation that only ever does that (`Refuses`) is put together from
such computations, so there is one lemma for each function of `Verify.Config`.

The exceptions are other values where texts belong, and checks that are no objects.  There it is the
JSON library that refuses, so nothing of the kind may stand in the configuration (`Config.Shaped`).
-/

import WeightLink.Proofs.Verify.Readers

namespace WeightLink

/-- A computation fails by refusing an argument, if it fails. -/
def Refuses {α : Type} (m : Except Fault α) : Prop :=
  ∀ e, m = .error e → e.kind = .argument

namespace Refuses

variable {α β : Type} {m : Except Fault α}

theorem ok (a : α) : Refuses (.ok a) := nofun

theorem error {e : Fault} (h : e.kind = .argument) : Refuses (.error e : Except Fault α) := by
  intro e' he
  cases he
  exact h

theorem bind {f : α → Except Fault β} (hm : Refuses m) (hf : ∀ a, Refuses (f a)) :
    Refuses (m >>= f) := by
  cases m with
  | error e => exact error (hm e rfl)
  | ok a => exact hf a

theorem map {f : α → β} (hm : Refuses m) : Refuses (m.map f) := by
  cases m with
  | error e => exact error (hm e rfl)
  | ok a => exact ok (f a)

/-- A check on the way refuses an argument too. -/
theorem guarded {p : Prop} [Decidable p] {e : Fault} {f : PUnit → Except Fault β}
    (he : e.kind = .argument) (hf : Refuses (f ⟨⟩)) :
    Refuses (if p then throw e >>= f else f ⟨⟩) := by
  split
  · exact .error he
  · exact hf

/-- What a computation that refuses does not answer, it refuses. -/
theorem exists_error (hm : Refuses m) (h : ∀ a, m ≠ .ok a) :
    ∃ e, m = .error e ∧ e.kind = .argument := by
  cases m with
  | error e => exact ⟨e, rfl, hm e rfl⟩
  | ok a => exact absurd rfl (h a)

end Refuses

namespace Verify

theorem refuses_backing (s : String) : Refuses (Backing.ofName s) := by
  unfold Backing.ofName
  split
  · exact .ok _
  · exact .error rfl

theorem refuses_decoder (s : String) : Refuses (Decoder.ofName s) := by
  unfold Decoder.ofName
  split
  · exact .ok _
  · exact .error rfl

namespace Config

open Json (Holds IsText)

/-- Texts are stored where texts belong, and objects where the checks belong. -/
structure Shaped (fields : List (String × Json)) : Prop where
  backing : Holds (fun v => ∃ s, IsText v s) fields "backing"
  decoder : Holds (fun v => ∃ s, IsText v s) fields "decoder"
  table : Holds (fun v => ∃ s, IsText v s) fields "stats_csv"
  checks : ∀ entries, Json.get? "checks" fields = some (.array entries) → ∀ v ∈ entries,
    ∃ check, v = .object check ∧ Holds (fun v => ∃ s, IsText v s) check "name"

variable {fields check : List (String × Json)} {scope key : String}

theorem refuses_unsigned (name : String) (limit : Nat) (v : Json) :
    Refuses (unsigned name limit v) := by
  unfold unsigned
  split
  · split
    · exact .ok _
    · exact .error rfl
  · exact .error rfl

theorem refuses_unsignedOr (default limit : Nat) :
    Refuses (unsignedOr fields scope key default limit) := by
  unfold unsignedOr
  split
  · exact .ok _
  · exact refuses_unsigned _ _ _

theorem refuses_wordOr (default : UInt32) : Refuses (wordOr fields scope key default) :=
  (refuses_unsignedOr _ _).map

theorem refuses_boolOr (default : Bool) : Refuses (boolOr fields scope key default) := by
  unfold boolOr
  split
  · exact .ok _
  · exact .ok _
  · exact .error rfl

theorem refuses_textOr (h : Holds (fun v => ∃ s, IsText v s) fields key) (default : String) :
    Refuses (textOr fields key default) := by
  obtain ⟨s, hs⟩ := h.exists_takes default
  rw [textOr_eq_ok_iff.2 hs]
  exact .ok s

theorem refuses_linkOfFields : Refuses (linkOfFields fields) := by
  refine .bind (refuses_wordOr _) fun offset => .bind (refuses_wordOr _) fun divider =>
    .bind (refuses_boolOr _) fun wakeOnBoot => .bind (refuses_wordOr _) fun wakeDelay =>
    .bind (refuses_wordOr _) fun window => .bind (refuses_unsignedOr _ _) fun maxWaitCycles =>
    .bind (refuses_boolOr _) fun deviceRequiresWake => ?_
  exact .guarded rfl (.guarded rfl (.ok _))

theorem refuses_linkOf : Refuses (linkOf fields) := by
  unfold linkOf
  split
  · exact .ok _
  · exact refuses_linkOfFields
  · exact .error rfl

theorem refuses_hashOfText (s : String) : Refuses (hashOfText s) := by
  unfold hashOfText
  split
  · exact .error rfl
  · split
    · exact .error rfl
    · split
      · exact .error rfl
      · exact .ok _

theorem refuses_hashOfInteger (n : Int64) : Refuses (hashOfInteger n) := by
  unfold hashOfInteger
  split
  · exact .error rfl
  · exact .ok _

theorem refuses_hashOf (v : Json) : Refuses (hashOf v) := by
  unfold hashOf
  split
  · exact refuses_hashOfInteger _
  · exact refuses_hashOfInteger _
  · exact refuses_hashOfText _
  · exact .error rfl

theorem refuses_countsOf (check : String) (vs : List Json) : Refuses (countsOf check vs) := by
  induction vs with
  | nil => exact .ok []
  | cons v vs ih => exact .bind (refuses_unsigned _ _ _) fun n => .bind ih fun ns => .ok _

theorem refuses_checkOf (number : Nat) (h : Holds (fun v => ∃ s, IsText v s) check "name") :
    Refuses (checkOf number (.object check)) := by
  refine .bind (refuses_textOr h _) fun name => ?_
  split
  · refine .bind (refuses_countsOf _ _) fun tensors => .bind ?_ fun expected => .ok _
    cases Json.get? "expected_hash" check with
    | none => exact .ok none
    | some v => exact (refuses_hashOf v).map
  · exact .error rfl

theorem refuses_checksOf (number : Nat) {vs : List Json}
    (h : ∀ v ∈ vs, ∃ check, v = .object check ∧ Holds (fun v => ∃ s, IsText v s) check "name") :
    Refuses (checksOf number vs) := by
  induction vs generalizing number with
  | nil => exact .ok []
  | cons v vs ih =>
    rw [List.forall_mem_cons] at h
    obtain ⟨⟨check, rfl, hname⟩, hvs⟩ := h
    exact .bind (refuses_checkOf number hname) fun check => .bind (ih _ hvs) fun checks => .ok _

theorem refuses_ofFields (h : Shaped fields) : Refuses (ofFields fields) := by
  refine .bind (.bind (refuses_textOr h.backing _) refuses_backing) fun backing =>
    .bind (.bind (refuses_textOr h.decoder _) refuses_decoder) fun decoder =>
    .bind (refuses_unsignedOr _ _) fun scratch => .guarded rfl <|
    .bind refuses_linkOf fun link => ?_
  dsimp only
  split
  · next entries hentries =>
    exact .bind (refuses_checksOf _ (h.checks entries hentries)) fun checks =>
      .bind (refuses_textOr h.table _) fun table => .ok _
  · exact .error rfl

/-- **A bad configuration is refused as an argument.** -/
theorem refuses_ofJson (h : Shaped fields) : Refuses (ofJson (.object fields)) :=
  refuses_ofFields h

end Config
end Verify
end WeightLink
