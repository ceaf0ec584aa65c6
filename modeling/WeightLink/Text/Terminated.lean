/-
# Texts that end at a NUL

The system takes a name as characters with a NUL behind the last one, so of a name that
holds a NUL itself it sees only the part in front (`terminated`).  What it sees holds no
NUL any more (`nul_not_mem_terminated`), and a name without one is seen as it is
(`terminated_eq_self_iff`).
-/

namespace WeightLink

/-- The part of a text in front of its first NUL. -/
def terminated (text : String) : String :=
  String.ofList (text.toList.takeWhile (· ≠ '\x00'))

theorem nul_not_mem_terminated (text : String) : '\x00' ∉ (terminated text).toList := by
  intro h
  rw [terminated, String.toList_ofList] at h
  have := List.all_takeWhile (l := text.toList) (p := (· ≠ '\x00'))
  rw [List.all_eq_true] at this
  simpa using this _ h

theorem terminated_eq_self_iff {text : String} :
    terminated text = text ↔ '\x00' ∉ text.toList := by
  constructor
  · intro h
    rw [← h]
    exact nul_not_mem_terminated text
  · intro h
    have hp : ∀ c ∈ text.toList, decide (c ≠ '\x00') = true := fun c hc =>
      decide_eq_true fun e => h (e ▸ hc)
    have : (text.toList ++ []).takeWhile (· ≠ '\x00') = text.toList ++ [] :=
      List.takeWhile_append_of_pos hp
    rw [List.append_nil] at this
    rw [terminated, this, String.ofList_toList]

end WeightLink
