/-
# The keys of a configuration

A configuration is read under six keys, the settings of the link in it under seven more, and a check
under three.  With everything else dropped (`Config.essential`) it is read alike, down to the fault
if it is refused (`Config.ofFields_essential`): every setting is looked up on its own, so a function
does not tell fields apart that agree under its keys.
-/

import WeightLink.Verify.Config

namespace WeightLink

namespace Json

variable {fields : List (String × Json)} {keys : List String} {key other : String} {f : Json → Json}

/-- The fields under some keys. -/
def keep (keys : List String) (fields : List (String × Json)) : List (String × Json) :=
  fields.filter fun field => field.1 ∈ keys

/-- The fields with a change to what is stored under a key. -/
def change (key : String) (f : Json → Json) (fields : List (String × Json)) :
    List (String × Json) :=
  fields.map fun field => (field.1, if field.1 = key then f field.2 else field.2)

/-- An object keeps the fields under some keys; nothing else changes. -/
def keepObject (keys : List String) : Json → Json
  | .object fields => .object (keep keys fields)
  | v => v

/-- All objects of an array keep the fields under some keys. -/
def keepObjects (keys : List String) : Json → Json
  | .array items => .array (items.map (keepObject keys))
  | v => v

theorem get?_keep (h : key ∈ keys) : get? key (keep keys fields) = get? key fields := by
  induction fields with
  | nil => rfl
  | cons field fields ih =>
    obtain ⟨name, value⟩ := field
    rw [keep] at ih
    rw [keep, List.filter_cons]
    by_cases hname : name = key
    · subst hname
      simp only [h, decide_true, if_true, get?]
    · split
      · simp only [get?, if_neg hname, ih]
      · simp only [get?, if_neg hname, ih]

theorem get?_change_self : get? key (change key f fields) = (get? key fields).map f := by
  induction fields with
  | nil => rfl
  | cons field fields ih =>
    obtain ⟨name, value⟩ := field
    rw [change] at ih
    by_cases hname : name = key
    · simp [change, get?, hname]
    · simp [change, get?, hname, ih]

theorem get?_change_of_ne (h : other ≠ key) :
    get? other (change key f fields) = get? other fields := by
  induction fields with
  | nil => rfl
  | cons field fields ih =>
    obtain ⟨name, value⟩ := field
    rw [change] at ih
    by_cases hname : name = other
    · subst hname
      simp [change, get?, h]
    · simp [change, get?, hname, ih]

end Json

namespace Verify.Config

variable {fields fields' : List (String × Json)}

/-- The keys of a configuration. -/
def keys : List String :=
  ["backing", "decoder", "scratch_capacity", "flash", "checks", "stats_csv"]

/-- The keys of the settings of the link. -/
def linkKeys : List String :=
  ["offset", "clk_div", "wake_on_boot", "wake_delay", "window_bytes", "max_wait_cycles",
    "device_requires_wake"]

/-- The keys of a check. -/
def checkKeys : List String := ["name", "tensors", "expected_hash"]

/-- A configuration without any other keys. -/
def essential (fields : List (String × Json)) : List (String × Json) :=
  Json.change "flash" (Json.keepObject linkKeys)
    (Json.change "checks" (Json.keepObjects checkKeys) (Json.keep keys fields))

theorem linkOfFields_congr (h : ∀ key ∈ linkKeys, Json.get? key fields = Json.get? key fields') :
    linkOfFields fields = linkOfFields fields' := by
  simp only [linkKeys, List.forall_mem_cons] at h
  obtain ⟨ho, hd, hb, hw, hs, hm, hr, -⟩ := h
  simp only [linkOfFields, wordOr, unsignedOr, boolOr, ho, hd, hb, hw, hs, hm, hr]

theorem checkOf_congr {number : Nat}
    (h : ∀ key ∈ checkKeys, Json.get? key fields = Json.get? key fields') :
    checkOf number (.object fields) = checkOf number (.object fields') := by
  simp only [checkKeys, List.forall_mem_cons] at h
  obtain ⟨hn, ht, he, -⟩ := h
  simp only [checkOf, textOr, hn, ht, he]

theorem checkOf_keepObject (number : Nat) (v : Json) :
    checkOf number (v.keepObject checkKeys) = checkOf number v := by
  cases v with
  | object fields => exact checkOf_congr fun key => Json.get?_keep
  | null | bool | number | string | array => rfl

theorem checksOf_keepObject (number : Nat) (vs : List Json) :
    checksOf number (vs.map (Json.keepObject checkKeys)) = checksOf number vs := by
  induction vs generalizing number with
  | nil => rfl
  | cons v vs ih => rw [List.map_cons, checksOf, checksOf, checkOf_keepObject, ih]

/-! ### The whole -/

theorem get?_essential {key : String} (h : key ∈ keys) (hflash : key ≠ "flash")
    (hchecks : key ≠ "checks") : Json.get? key (essential fields) = Json.get? key fields := by
  rw [essential, Json.get?_change_of_ne hflash, Json.get?_change_of_ne hchecks, Json.get?_keep h]

theorem get?_essential_flash : Json.get? "flash" (essential fields) =
    (Json.get? "flash" fields).map (Json.keepObject linkKeys) := by
  rw [essential, Json.get?_change_self, Json.get?_change_of_ne (by decide),
    Json.get?_keep (by decide)]

theorem get?_essential_checks : Json.get? "checks" (essential fields) =
    (Json.get? "checks" fields).map (Json.keepObjects checkKeys) := by
  rw [essential, Json.get?_change_of_ne (by decide), Json.get?_change_self,
    Json.get?_keep (by decide)]

theorem linkOf_essential : linkOf (essential fields) = linkOf fields := by
  unfold linkOf
  rw [get?_essential_flash]
  rcases Json.get? "flash" fields with - | v
  · rfl
  · cases v with
    | object link => exact linkOfFields_congr fun key => Json.get?_keep
    | null | bool | number | string | array => rfl

/-- **Only some keys matter.** -/
theorem ofFields_essential : ofFields (essential fields) = ofFields fields := by
  unfold ofFields textOr unsignedOr
  rw [linkOf_essential, get?_essential_checks, get?_essential (by decide) (by decide) (by decide),
    get?_essential (by decide) (by decide) (by decide),
    get?_essential (by decide) (by decide) (by decide),
    get?_essential (by decide) (by decide) (by decide)]
  rcases Json.get? "checks" fields with - | v
  · rfl
  · cases v with
    | array entries => simp only [Option.map, Json.keepObjects, checksOf_keepObject]
    | null | bool | number | string | object => rfl

end Verify.Config
end WeightLink
