/-
# The answers of a link

A read that is on the link stays there until it is answered, and the answer is the word of
the address that was on the bus when it started, whatever is on the bus now.  So a held read
is owed the word of the read that it finds on the link, or its own word if it finds none
(`Link.Owes`).  That debt is kept from cycle to cycle until it is paid (`hold_owes`).
-/

import WeightLink.Proofs.Flash.Reachable

namespace WeightLink
namespace Flash
namespace Link

/-- What a master who holds a read of `asked` from now on is going to get: the word of `given`. -/
def Owes (l : Link) (asked given : UInt32) : Prop :=
  l.InFlight given ∨ l.engine.reading = false ∧ given = asked

/-- All four bytes of a word are the bytes at a bus address. -/
def IsWord (l : Link) (address word : UInt32) : Prop :=
  ∀ k < 4, Word.byte word k = l.wordByte address k

theorem isWord_cycle (request : Request) (l : Link) : (l.cycle request).2.IsWord = l.IsWord := by
  funext address word
  simp only [IsWord, wordByte_cycle]

namespace Coupled

variable {cfg : Config} {l : Link}

/-- An answer belongs to a read on the link, and takes it off the link. -/
theorem reading_of_response (h : Coupled cfg l) {word : UInt32}
    (hw : l.engine.response = some word) : l.engine.reading = true :=
  h.sound.reading_of_finish (Engine.phase_of_response hw)

theorem reading_cycle_of_response {word : UInt32} (hw : l.engine.response = some word)
    (request : Request) : (l.cycle request).2.engine.reading = false :=
  Engine.Sound.next_answered (Engine.phase_of_response hw) request l.miso

/-- One cycle pays the debt or keeps it. -/
theorem cycle_owes (h : Coupled cfg l) {asked given : UInt32} (ho : l.Owes asked given) :
    match l.engine.response with
    | some word => l.IsWord given word
    | none => (l.cycle (.read asked)).2.Owes asked given := by
  cases hw : l.engine.response with
  | some word =>
    rcases ho with hf | ⟨hr, -⟩
    · exact fun k hk => h.answer_inFlight hf hw hk
    · exact absurd (h.reading_of_response hw) (by simp [hr])
  | none =>
    rcases ho with hf | ⟨hr, rfl⟩
    · exact .inl (h.inFlight_cycle hf ((Engine.response_eq_none_iff _).1 hw) _)
    · by_cases hn : (l.cycle (.read given)).2.engine.reading = true
      · obtain ⟨address, ha, hf⟩ := h.inFlight_of_started hr hn
        cases ha
        exact .inl hf
      · exact .inr ⟨by simpa using hn, rfl⟩

/-- **A held read gets what it is owed**, or is still owed it when the cycles run out. -/
theorem hold_owes (h : Coupled cfg l) {asked given : UInt32} (ho : l.Owes asked given) (n : Nat) :
    match Link.hold (.read asked) Outputs.response n l with
    | (some word, after) => l.IsWord given word ∧ after.engine.reading = false
    | (none, after) => after.Owes asked given := by
  induction n generalizing l with
  | zero => exact ho
  | succ n ih =>
    have hstep := h.cycle_owes ho
    simp only [Link.hold, cycle_response]
    cases hw : l.engine.response with
    | some word =>
      rw [hw] at hstep
      exact ⟨hstep, reading_cycle_of_response hw _⟩
    | none =>
      rw [hw] at hstep
      have hrest := ih (h.cycle (.read asked)) hstep
      rwa [isWord_cycle] at hrest

/-- **A blocking read gets the word that it is owed**, or leaves the debt on the link when it
gives up. -/
theorem readWord_owes (h : Coupled cfg l) {asked given : UInt32} (ho : l.Owes asked given) :
    match ((readWord asked).run l).result with
    | .ok word =>
      l.IsWord given word ∧ ((readWord asked).run l).state.engine.reading = false
    | .error _ => ((readWord asked).run l).state.Owes asked given := by
  have hheld := h.hold_owes ho l.config.budget
  rw [run_readWord]
  revert hheld
  rcases Link.hold (.read asked) Outputs.response l.config.budget l with ⟨_ | word, after⟩
  · exact fun hheld => hheld
  · exact fun hheld => hheld

end Coupled
end Link
end Flash
end WeightLink
